/-!
# Finite maps with natural-number keys

An association list whose keys are pairwise distinct. Insertion appends a fresh
key or overwrites the value of a present one, so the order of the list is the
order in which the keys first arrived. The distinctness invariant is a field:
a map with a duplicated key cannot be built.
-/

structure RecordMap (α : Type) where
  toList : List (Nat × α)
  nodup : (toList.map Prod.fst).Nodup

namespace RecordMap

variable {α : Type}

/-- The map without keys. -/
def empty : RecordMap α := ⟨[], List.nodup_nil⟩

def keys (m : RecordMap α) : List Nat := m.toList.map Prod.fst

def get? (m : RecordMap α) (k : Nat) : Option α := m.toList.lookup k

def size (m : RecordMap α) : Nat := m.toList.length

/-- Replaces the value at key `k`, if present, and leaves every other key alone. -/
def modify (m : RecordMap α) (k : Nat) (f : α → α) : RecordMap α where
  toList := m.toList.map fun p => if p.1 = k then (p.1, f p.2) else p
  nodup := by
    have hfst : (Prod.fst ∘ fun p : Nat × α => if p.1 = k then (p.1, f p.2) else p) = Prod.fst := by
      funext p; simp only [Function.comp_apply]; split <;> rfl
    rw [List.map_map, hfst]; exact m.nodup

/-- Applies `f` to every value. -/
def map {β : Type} (f : α → β) (m : RecordMap α) : RecordMap β where
  toList := m.toList.map fun p => (p.1, f p.2)
  nodup := by rw [List.map_map]; exact m.nodup

/-- Binds `k` to `v`. -/
def insert (m : RecordMap α) (k : Nat) (v : α) : RecordMap α :=
  if h : k ∈ m.keys then m.modify k fun _ => v
  else {
    toList := m.toList ++ [(k, v)]
    nodup := by
      rw [List.map_append]
      exact List.nodup_append.mpr ⟨m.nodup, by simp, by
        rintro a ha b hb rfl
        simp only [List.map_cons, List.map_nil, List.mem_singleton] at hb
        exact h (hb ▸ ha)⟩ }

/-! ## Lookup -/

@[simp] theorem get?_empty (k : Nat) : (empty : RecordMap α).get? k = none := rfl

private theorem lookup_eq_some_iff {l : List (Nat × α)} (hn : (l.map Prod.fst).Nodup)
    {k : Nat} {v : α} : l.lookup k = some v ↔ (k, v) ∈ l := by
  induction l with
  | nil => simp
  | cons p l ih =>
    obtain ⟨k', v'⟩ := p
    simp only [List.map_cons, List.nodup_cons] at hn
    simp only [List.lookup_cons, List.mem_cons, Prod.mk.injEq]
    by_cases hk : k = k'
    · subst hk
      have hout : (k, v) ∉ l := fun hmem => hn.1 (List.mem_map_of_mem (f := Prod.fst) hmem)
      simp [hout, eq_comm]
    · have hb : (k == k') = false := beq_eq_false_iff_ne.mpr hk
      simp [hb, hk, ih hn.2]

theorem get?_eq_some_iff {m : RecordMap α} {k : Nat} {v : α} :
    m.get? k = some v ↔ (k, v) ∈ m.toList := lookup_eq_some_iff m.nodup

theorem mem_keys_iff {m : RecordMap α} {k : Nat} : k ∈ m.keys ↔ ∃ v, m.get? k = some v := by
  simp only [keys, List.mem_map, get?_eq_some_iff]
  constructor
  · rintro ⟨⟨k', v⟩, hmem, rfl⟩; exact ⟨v, hmem⟩
  · rintro ⟨v, hmem⟩; exact ⟨(k, v), hmem, rfl⟩

theorem get?_eq_none_iff {m : RecordMap α} {k : Nat} : m.get? k = none ↔ k ∉ m.keys := by
  rw [mem_keys_iff]
  cases m.get? k <;> simp

theorem get?_modify (m : RecordMap α) (k : Nat) (f : α → α) (j : Nat) :
    (m.modify k f).get? j = if j = k then (m.get? j).map f else m.get? j := by
  have key : ∀ l : List (Nat × α),
      (l.map fun p => if p.1 = k then (p.1, f p.2) else p).lookup j =
        if j = k then (l.lookup j).map f else l.lookup j := by
    intro l
    induction l with
    | nil => simp
    | cons p l ih =>
      obtain ⟨k', v'⟩ := p
      have hfst : (if k' = k then (k', f v') else (k', v')).1 = k' := by split <;> rfl
      rw [List.map_cons, List.lookup_cons, List.lookup_cons, ih, hfst]
      by_cases hj : j = k'
      · subst hj; by_cases hk : j = k <;> simp [hk]
      · simp [beq_eq_false_iff_ne.mpr hj]
  exact key m.toList

theorem get?_map {β : Type} (f : α → β) (m : RecordMap α) (k : Nat) :
    (m.map f).get? k = (m.get? k).map f := by
  have key : ∀ l : List (Nat × α),
      (l.map fun p => (p.1, f p.2)).lookup k = (l.lookup k).map f := by
    intro l
    induction l with
    | nil => rfl
    | cons p l ih =>
      rw [List.map_cons, List.lookup_cons, List.lookup_cons, ih]
      cases k == p.1 <;> rfl
  exact key m.toList

theorem get?_insert (m : RecordMap α) (k : Nat) (v : α) (j : Nat) :
    (m.insert k v).get? j = if j = k then some v else m.get? j := by
  unfold insert
  split
  · next hk =>
    obtain ⟨w, hw⟩ := mem_keys_iff.mp hk
    rw [get?_modify]
    split
    · next hj => subst hj; simp [hw]
    · rfl
  · next hk =>
    have hnone := get?_eq_none_iff.mpr hk
    simp only [get?, List.lookup_append, List.lookup_cons, List.lookup_nil] at hnone ⊢
    by_cases hj : j = k
    · subst hj; simp [hnone]
    · simp [hj, beq_eq_false_iff_ne.mpr hj]

theorem toList_insert_of_not_mem {m : RecordMap α} {k : Nat} {v : α} (h : k ∉ m.keys) :
    (m.insert k v).toList = m.toList ++ [(k, v)] := by
  simp [insert, h]

end RecordMap
