import Undelete.ForStd.Except

/-!
# Runs that follow a reference run

`Follows Stopped E R x y` relates a run `x` to a reference run `y`: `x` may stop early with an
error of its own kind, and otherwise both fail with errors related by `E`, or both succeed
with values related by `R`. It composes along `bind`.
-/

namespace Except

inductive Follows {ε ε' α β : Type} (Stopped : ε → Prop) (E : ε → ε' → Prop) (R : α → β → Prop) :
    Except ε α → Except ε' β → Prop
  | stopped {e : ε} {y : Except ε' β} (h : Stopped e) : Follows Stopped E R (.error e) y
  | fails {e : ε} {e' : ε'} (h : E e e') : Follows Stopped E R (.error e) (.error e')
  | ok {a : α} {b : β} (h : R a b) : Follows Stopped E R (.ok a) (.ok b)

variable {ε ε' α α' β β' : Type} {Stopped : ε → Prop} {E : ε → ε' → Prop}

theorem Follows.bind {R : α → β → Prop} {R' : α' → β' → Prop} {x : Except ε α} {y : Except ε' β}
    {f : α → Except ε α'} {g : β → Except ε' β'} (h : Follows Stopped E R x y)
    (hfg : ∀ a b, R a b → Follows Stopped E R' (f a) (g b)) :
    Follows Stopped E R' (x >>= f) (y >>= g) := by
  cases h with
  | stopped h => exact .stopped h
  | fails h => exact .fails h
  | ok h => exact hfg _ _ h

/-- The run goes on after the reference run is done. -/
theorem Follows.bind_left {R : α → β → Prop} {R' : α' → β → Prop} {x : Except ε α}
    {y : Except ε' β} {f : α → Except ε α'} (h : Follows Stopped E R x y)
    (hf : ∀ a b, R a b → Follows Stopped E R' (f a) (.ok b)) :
    Follows Stopped E R' (x >>= f) y := by
  cases h with
  | stopped h => exact .stopped h
  | fails h => exact .fails h
  | ok h => exact hf _ _ h

/-- Two runs that follow one reference and do not stop early. -/
theorem Follows.both {R : α → β → Prop} {R' : α' → β → Prop} {x : Except ε α} {x' : Except ε α'}
    {y : Except ε' β} (h : Follows Stopped E R x y) (h' : Follows Stopped E R' x' y)
    (hx : ∀ e, x = .error e → ¬Stopped e) (hx' : ∀ e, x' = .error e → ¬Stopped e) :
    (∃ a a' b, x = .ok a ∧ x' = .ok a' ∧ y = .ok b ∧ R a b ∧ R' a' b) ∨
      ∃ e e' e₀, x = .error e ∧ x' = .error e' ∧ y = .error e₀ ∧ E e e₀ ∧ E e' e₀ := by
  cases h with
  | stopped h => exact absurd h (hx _ rfl)
  | fails h =>
    cases h' with
    | stopped h' => exact absurd h' (hx' _ rfl)
    | fails h' => exact .inr ⟨_, _, _, rfl, rfl, rfl, h, h'⟩
  | ok h =>
    cases h' with
    | stopped h' => exact absurd h' (hx' _ rfl)
    | ok h' => exact .inl ⟨_, _, _, rfl, rfl, rfl, h, h'⟩

end Except
