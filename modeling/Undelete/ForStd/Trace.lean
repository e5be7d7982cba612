/-!
# Traces with a guard

`Guarded Ok past new` says that each event of `new` is allowed by `Ok` after the events before
it, those of `past` first. A run that emits only allowed events is put together from its parts
by `Guarded.append`.
-/

namespace Trace

variable {ε : Type} {Ok Ok' : List ε → ε → Prop}

inductive Guarded (Ok : List ε → ε → Prop) : List ε → List ε → Prop
  | nil (past : List ε) : Guarded Ok past []
  | cons {past : List ε} {e : ε} {rest : List ε} (head : Ok past e)
      (tail : Guarded Ok (past ++ [e]) rest) : Guarded Ok past (e :: rest)

theorem Guarded.single {past : List ε} {e : ε} (h : Ok past e) : Guarded Ok past [e] :=
  .cons h (.nil _)

theorem Guarded.append {past new new' : List ε} (h : Guarded Ok past new)
    (h' : Guarded Ok (past ++ new) new') : Guarded Ok past (new ++ new') := by
  induction h with
  | nil past =>
    rw [List.append_nil] at h'
    exact h'
  | @cons past e rest head _ ih =>
    apply Guarded.cons head
    apply ih
    rw [List.append_assoc, List.singleton_append]
    exact h'

theorem Guarded.mono {past new : List ε} (h : Guarded Ok past new)
    (himp : ∀ before e after, new = before ++ e :: after → Ok (past ++ before) e →
      Ok' (past ++ before) e) : Guarded Ok' past new := by
  induction h with
  | nil past => exact .nil past
  | @cons past e rest head _ ih =>
    apply Guarded.cons
    · have hfirst := himp [] e rest rfl
      rw [List.append_nil] at hfirst
      exact hfirst head
    · apply ih
      intro before e' after hrest hok
      have hlater := himp (e :: before) e' after (by rw [hrest, List.cons_append])
      rw [List.append_assoc, List.singleton_append] at hok ⊢
      exact hlater hok

/-- The event in the middle of a guarded trace is allowed by what comes before it. -/
theorem Guarded.at {past before after : List ε} {e : ε}
    (h : Guarded Ok past (before ++ e :: after)) : Ok (past ++ before) e := by
  induction before generalizing past with
  | nil =>
    cases h with
    | cons head _ =>
      rw [List.append_nil]
      exact head
  | cons first before ih =>
    cases h with
    | cons _ tail =>
      have hlater := ih tail
      rw [List.append_assoc, List.singleton_append] at hlater
      exact hlater

theorem Guarded.front {past new new' : List ε} (h : Guarded Ok past (new ++ new')) :
    Guarded Ok past new := by
  induction new generalizing past with
  | nil => exact .nil past
  | cons e new ih =>
    cases h with
    | cons head tail => exact .cons head (ih tail)

/-- An event of a guarded trace is allowed by the events before it. -/
theorem Guarded.allowed {trace : List ε} {e : ε} (h : Guarded Ok [] trace) (he : e ∈ trace) :
    ∃ past, Ok past e := by
  obtain ⟨before, after, rfl⟩ := List.append_of_mem he
  exact ⟨_, h.at⟩

/-- What a guard allows behind a guarded trace. -/
theorem Guarded.imp {trace : List ε} (h : Guarded Ok [] trace)
    (himp : ∀ past e, Guarded Ok [] past → Ok past e → Ok' past e) : Guarded Ok' [] trace := by
  apply h.mono
  intro before e after htrace hok
  rw [htrace] at h
  exact himp _ e h.front hok

end Trace
