import Mathlib.Data.List.Nodup

/-!
# Linked lists in a store

A store maps keys to nodes, and a node may name the key of the next one. `Linked c xs stop`
follows the links from `c`: through the nodes `xs`, up to a node without a link (`stop` is
`none`) or to the key `stop`, whose node is not looked at. The store may be corrupt: a key
may lead nowhere, and the links may run into a cycle.

## Key results

- `Linked.length_lt`: a list that ends is longer than one that goes on.
- `Linked.nodup`: a list that ends visits no key twice.
- `exists_linked`: a walk that remembers the keys it has visited.
-/

variable {κ ν : Type} {node : κ → Option ν} {next : ν → Option κ}

/-- The nodes from `c` on, and the key after the last one. -/
inductive Linked (node : κ → Option ν) (next : ν → Option κ) :
    κ → List (κ × ν) → Option κ → Prop where
  | nil (c : κ) : Linked node next c [] (some c)
  | ends {c : κ} {v : ν} : node c = some v → next v = none → Linked node next c [(c, v)] none
  | cons {c n : κ} {v : ν} {xs : List (κ × ν)} {stop : Option κ} : node c = some v →
      next v = some n → Linked node next n xs stop → Linked node next c ((c, v) :: xs) stop

namespace Linked

/-- A list that ends is longer than one that goes on from the same key. -/
theorem length_lt {c d : κ} {xs ys : List (κ × ν)} (hxs : Linked node next c xs none)
    (hys : Linked node next c ys (some d)) : ys.length < xs.length := by
  generalize hstop : none = s at hxs
  induction hxs generalizing ys with
  | nil c => cases hstop
  | ends hnode hnext =>
    cases hys with
    | nil => exact Nat.zero_lt_one
    | cons hnode' hnext' hrest =>
      rw [hnode] at hnode'
      cases hnode'
      rw [hnext] at hnext'
      cases hnext'
  | cons hnode hnext hrest ih =>
    cases hys with
    | nil => exact Nat.zero_lt_succ _
    | cons hnode' hnext' hrest' =>
      rw [hnode] at hnode'
      cases hnode'
      rw [hnext] at hnext'
      cases hnext'
      exact Nat.succ_lt_succ (ih hrest' hstop)

/-- Two lists that end start at the same key only when they are equally long. -/
theorem length_eq {c : κ} {xs ys : List (κ × ν)} (hxs : Linked node next c xs none)
    (hys : Linked node next c ys none) : xs.length = ys.length := by
  generalize hstop : none = s at hxs
  induction hxs generalizing ys with
  | nil c => cases hstop
  | ends hnode hnext =>
    cases hys with
    | ends => rfl
    | cons hnode' hnext' hrest =>
      rw [hnode] at hnode'
      cases hnode'
      rw [hnext] at hnext'
      cases hnext'
  | cons hnode hnext hrest ih =>
    cases hys with
    | ends hnode' hnext' =>
      rw [hnode] at hnode'
      cases hnode'
      rw [hnext] at hnext'
      cases hnext'
    | cons hnode' hnext' hrest' =>
      rw [hnode] at hnode'
      cases hnode'
      rw [hnext] at hnext'
      cases hnext'
      exact congrArg (· + 1) (ih hrest' hstop)

/-- Behind a key that a list visits stands a list that ends, and is no longer. -/
theorem exists_suffix {c k : κ} {xs : List (κ × ν)} (hxs : Linked node next c xs none)
    (hk : k ∈ xs.map Prod.fst) :
    ∃ ys, Linked node next k ys none ∧ ys.length ≤ xs.length := by
  generalize hstop : none = s at hxs
  induction hxs with
  | nil c => cases hk
  | ends hnode hnext =>
    obtain rfl := List.mem_singleton.mp hk
    exact ⟨_, ends hnode hnext, Nat.le_refl _⟩
  | cons hnode hnext hrest ih =>
    rw [List.map_cons] at hk
    rcases List.mem_cons.mp hk with rfl | hk
    · subst hstop
      exact ⟨_, cons hnode hnext hrest, Nat.le_refl _⟩
    · obtain ⟨ys, hys, hle⟩ := ih hk hstop
      exact ⟨ys, hys, Nat.le_succ_of_le hle⟩

/-- A list that ends visits no key twice: from the second visit on it would be as long as
    from the first one. -/
theorem nodup {c : κ} {xs : List (κ × ν)} (hxs : Linked node next c xs none) :
    (xs.map Prod.fst).Nodup := by
  generalize hstop : none = s at hxs
  induction hxs with
  | nil c => cases hstop
  | ends hnode hnext => exact List.nodup_singleton _
  | cons hnode hnext hrest ih =>
    subst hstop
    refine List.nodup_cons.mpr ⟨fun hmem => ?_, ih rfl⟩
    obtain ⟨ys, hys, hle⟩ := hrest.exists_suffix hmem
    have hlength := hys.length_eq (cons hnode hnext hrest)
    rw [List.length_cons] at hlength
    omega

end Linked

/-- A walk of at most `rounds` nodes from `c` that stops at a key visited before. -/
theorem exists_linked (node : κ → Option ν) (next : ν → Option κ) (rounds : Nat)
    {visited : List κ} (hvisited : visited.Nodup) (c : κ) :
    ∃ xs stop, Linked node next c xs stop ∧ xs.length ≤ rounds ∧
      ((xs.map Prod.fst).reverse ++ visited).Nodup ∧
      ∀ d, stop = some d →
        xs.length = rounds ∨ d ∈ (xs.map Prod.fst).reverse ++ visited ∨ node d = none := by
  induction rounds generalizing visited c with
  | zero => exact ⟨[], some c, .nil c, Nat.le_refl _, hvisited, fun d _ => .inl rfl⟩
  | succ rounds ih =>
    by_cases hmem : c ∈ visited
    · refine ⟨[], some c, .nil c, Nat.zero_le _, hvisited, fun d hd => ?_⟩
      cases hd
      exact .inr (.inl hmem)
    · cases hnode : node c with
      | none =>
        refine ⟨[], some c, .nil c, Nat.zero_le _, hvisited, fun d hd => ?_⟩
        cases hd
        exact .inr (.inr hnode)
      | some v =>
        have hcons : (c :: visited).Nodup := List.nodup_cons.mpr ⟨hmem, hvisited⟩
        cases hnext : next v with
        | none =>
          exact ⟨[(c, v)], none, .ends hnode hnext, Nat.succ_le_succ (Nat.zero_le _), hcons,
            fun d hd => (by cases hd)⟩
        | some n =>
          obtain ⟨xs, stop, hxs, hlength, hnodup, hstop⟩ := ih hcons n
          have hkeys : (((c, v) :: xs).map Prod.fst).reverse ++ visited =
              (xs.map Prod.fst).reverse ++ c :: visited := by simp
          refine ⟨(c, v) :: xs, stop, .cons hnode hnext hxs, Nat.succ_le_succ hlength, ?_, ?_⟩
          · rw [hkeys]
            exact hnodup
          · intro d hd
            rw [hkeys, List.length_cons]
            exact (hstop d hd).imp_left (congrArg (· + 1))
