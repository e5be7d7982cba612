/-!
# Loops that end early

`untilStop f xs b` runs `f` on the elements of `xs` one after the other, from the
state `b`, until one of them asks to stop. The result says whether one did.
-/

variable {α β ε : Type}

/-- A loop whose body may end it. -/
def untilStop (f : α → β → Except ε (Bool × β)) : List α → β → Except ε (Bool × β)
  | [], b => .ok (false, b)
  | a :: rest, b => do
    let (stop, b) ← f a b
    if stop then return (true, b) else untilStop f rest b

private theorem untilStop_from {f : α → β → Except ε (Bool × β)} {Inv : List α → β → Prop}
    {Stopped : β → Prop} {xs pre post : List α} {b : β}
    (hstep : ∀ pre x post b, xs = pre ++ x :: post → Inv pre b → ∃ stop b',
      f x b = .ok (stop, b') ∧ if stop then Stopped b' else Inv (pre ++ [x]) b')
    (hxs : xs = pre ++ post) (h : Inv pre b) :
    ∃ stop b', untilStop f post b = .ok (stop, b') ∧
      if stop then Stopped b' else Inv xs b' := by
  induction post generalizing pre b with
  | nil =>
    rw [List.append_nil] at hxs
    exact ⟨false, b, rfl, hxs ▸ h⟩
  | cons x post ih =>
    obtain ⟨stop, b₁, heq, hb₁⟩ := hstep pre x post b hxs h
    cases stop with
    | true => exact ⟨true, b₁, by rw [untilStop, heq]; rfl, hb₁⟩
    | false =>
      have hxs' : xs = pre ++ [x] ++ post := by
        rw [hxs, List.append_assoc]
        rfl
      obtain ⟨stop, b', hrun, hb'⟩ := ih hxs' hb₁
      refine ⟨stop, b', ?_, hb'⟩
      rw [untilStop, heq]
      exact hrun

/-- A property of the elements done so far and of the state, kept by a body that goes on
    and turned into `Stopped` by one that stops. -/
theorem untilStop_spec {f : α → β → Except ε (Bool × β)} (Inv : List α → β → Prop)
    (Stopped : β → Prop) (xs : List α) {b : β}
    (hstep : ∀ pre x post b, xs = pre ++ x :: post → Inv pre b → ∃ stop b',
      f x b = .ok (stop, b') ∧ if stop then Stopped b' else Inv (pre ++ [x]) b')
    (h : Inv [] b) :
    ∃ stop b', untilStop f xs b = .ok (stop, b') ∧
      if stop then Stopped b' else Inv xs b' :=
  untilStop_from hstep rfl h
