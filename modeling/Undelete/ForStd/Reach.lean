/-!
# Reachable states

A system is a partial step function on its states: an event that cannot happen in a state has
no next one. `Reachable next allowed init` is the set of states that allowed events lead to,
and `Reachable.invariant` is the induction over it.
-/

variable {σ ε : Type} {next : σ → ε → Option σ} {allowed allowed' : σ → ε → Prop} {init : σ}

inductive Reachable (next : σ → ε → Option σ) (allowed : σ → ε → Prop) (init : σ) : σ → Prop where
  | init : Reachable next allowed init init
  | step {s s' : σ} {e : ε} : Reachable next allowed init s → allowed s e → next s e = some s' →
      Reachable next allowed init s'

namespace Reachable

/-- What holds at first, and is kept by each allowed step, holds in every reachable state. -/
theorem invariant {P : σ → Prop} (hinit : P init)
    (hstep : ∀ s e s', P s → allowed s e → next s e = some s' → P s') {s : σ}
    (h : Reachable next allowed init s) : P s := by
  induction h with
  | init => exact hinit
  | step _ hallowed hnext ih => exact hstep _ _ _ ih hallowed hnext

/-- The events of a list, one after the other. -/
def run (next : σ → ε → Option σ) : σ → List ε → Option σ
  | s, [] => some s
  | s, e :: events => (next s e).bind fun s' => run next s' events

/-- Whether each event of the list is allowed where it happens. -/
def Allowed (next : σ → ε → Option σ) (allowed : σ → ε → Prop) : σ → List ε → Prop
  | _, [] => True
  | s, e :: events => allowed s e ∧ (next s e).elim True fun s' => Allowed next allowed s' events

theorem of_run {events : List ε} {s s' : σ} (h : Reachable next allowed init s)
    (hallowed : Allowed next allowed s events) (hrun : run next s events = some s') :
    Reachable next allowed init s' := by
  induction events generalizing s with
  | nil =>
    cases hrun
    exact h
  | cons e events ih =>
    obtain ⟨mid, hmid, hrest⟩ := Option.bind_eq_some_iff.mp hrun
    obtain ⟨hfirst, hlater⟩ := hallowed
    rw [hmid] at hlater
    exact ih (.step h hfirst hmid) hlater hrest

theorem allowed_of_forall (h : ∀ s e, allowed s e) (s : σ) (events : List ε) :
    Allowed next allowed s events := by
  induction events generalizing s with
  | nil => trivial
  | cons e events ih =>
    refine ⟨h s e, ?_⟩
    cases next s e with
    | none => trivial
    | some s' => exact ih s'

end Reachable
