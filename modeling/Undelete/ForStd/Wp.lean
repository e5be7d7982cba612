/-!
# Weakest preconditions of programs with state and errors

`x.Wp s Q E` says where the program `x` ends when it is run from the state `s`: in a state and a
value that satisfy `Q`, or in a state and an error that satisfy `E`. A state survives an error.
-/

namespace EStateM

variable {ε ε' σ α β : Type}

instance Result.decEq [DecidableEq ε] [DecidableEq σ] [DecidableEq α] :
    DecidableEq (Result ε σ α)
  | .ok a s, .ok b t => decidable_of_iff (a = b ∧ s = t) (by rw [Result.ok.injEq])
  | .error e s, .error e' t => decidable_of_iff (e = e' ∧ s = t) (by rw [Result.error.injEq])
  | .ok _ _, .error _ _ => isFalse (by rintro ⟨⟩)
  | .error _ _, .ok _ _ => isFalse (by rintro ⟨⟩)

def Wp (x : EStateM ε σ α) (s : σ) (Q : α → σ → Prop) (E : ε → σ → Prop) : Prop :=
  match x s with
  | .ok a s' => Q a s'
  | .error e s' => E e s'

/-- The result of `x` as a value. -/
def attempt (x : EStateM ε σ α) : EStateM ε' σ (Except ε α) := fun s =>
  match x s with
  | .ok a s' => .ok (.ok a) s'
  | .error e s' => .ok (.error e) s'

/-- The state in which `x` ends, in a value or in an error. -/
def finalState (x : EStateM ε σ α) (s : σ) : σ :=
  match x s with
  | .ok _ s' => s'
  | .error _ s' => s'

/-- The value or the error in which `x` ends. -/
def result (x : EStateM ε σ α) (s : σ) : Except ε α :=
  match x s with
  | .ok a _ => .ok a
  | .error e _ => .error e

variable {x : EStateM ε σ α} {s s' : σ} {a : α} {e : ε} {Q Q' : α → σ → Prop} {E E' : ε → σ → Prop}

theorem Wp.of_ok (h : x.Wp s Q E) (hx : x s = .ok a s') : Q a s' := by
  rw [Wp, hx] at h
  exact h

theorem Wp.of_error (h : x.Wp s Q E) (hx : x s = .error e s') : E e s' := by
  rw [Wp, hx] at h
  exact h

theorem Wp.cases (h : x.Wp s Q E) :
    (∃ a s', x s = .ok a s' ∧ Q a s') ∨ ∃ e s', x s = .error e s' ∧ E e s' := by
  cases hx : x s with
  | ok a s' => exact .inl ⟨a, s', rfl, h.of_ok hx⟩
  | error e s' => exact .inr ⟨e, s', rfl, h.of_error hx⟩

theorem wp_of_ok (hx : x s = .ok a s') (h : Q a s') : x.Wp s Q E := by
  rw [Wp, hx]
  exact h

theorem wp_of_error (hx : x s = .error e s') (h : E e s') : x.Wp s Q E := by
  rw [Wp, hx]
  exact h

theorem Wp.mono (h : x.Wp s Q E) (hQ : ∀ a s', Q a s' → Q' a s') (hE : ∀ e s', E e s' → E' e s') :
    x.Wp s Q' E' := by
  unfold Wp at h ⊢
  cases hx : x s with
  | ok a s' =>
    rw [hx] at h
    exact hQ a s' h
  | error e s' =>
    rw [hx] at h
    exact hE e s' h

/-- What a program ends in, beside what is known of it. -/
theorem Wp.run (h : x.Wp s Q E) :
    x.Wp s (fun a s' => x s = .ok a s' ∧ Q a s') (fun e s' => x s = .error e s' ∧ E e s') := by
  rcases h.cases with ⟨a, s', hx, hQ⟩ | ⟨e, s', hx, hE⟩
  · exact wp_of_ok hx ⟨hx, hQ⟩
  · exact wp_of_error hx ⟨hx, hE⟩

/-- A program that ends in a value, in its final state. -/
theorem Wp.result_ok (h : x.Wp s Q E) (hx : x.result s = .ok a) : Q a (x.finalState s) := by
  unfold EStateM.result at hx
  unfold EStateM.finalState
  cases hrun : x s with
  | ok a' s' =>
    rw [hrun] at hx
    cases hx
    exact h.of_ok hrun
  | error e s' =>
    rw [hrun] at hx
    cases hx

theorem Wp.finalState {P : σ → Prop} (h : x.Wp s (fun _ => P) fun _ => P) : P (x.finalState s) := by
  unfold Wp at h
  unfold EStateM.finalState
  cases hx : x s with
  | ok a s' =>
    rw [hx] at h
    exact h
  | error e s' =>
    rw [hx] at h
    exact h

theorem Wp.and (h : x.Wp s Q E) (h' : x.Wp s Q' E') :
    x.Wp s (fun a s' => Q a s' ∧ Q' a s') (fun e s' => E e s' ∧ E' e s') := by
  unfold Wp at h h' ⊢
  cases hx : x s with
  | ok a s' =>
    rw [hx] at h h'
    exact ⟨h, h'⟩
  | error e s' =>
    rw [hx] at h h'
    exact ⟨h, h'⟩

theorem wp_pure : (pure a : EStateM ε σ α).Wp s Q E ↔ Q a s := Iff.rfl

theorem wp_get {Q : σ → σ → Prop} : (get : EStateM ε σ σ).Wp s Q E ↔ Q s s := Iff.rfl

theorem wp_modify {f : σ → σ} {Q : PUnit → σ → Prop} :
    (modify f : EStateM ε σ PUnit).Wp s Q E ↔ Q ⟨⟩ (f s) := Iff.rfl

theorem wp_set {t : σ} {Q : PUnit → σ → Prop} :
    (set t : EStateM ε σ PUnit).Wp s Q E ↔ Q ⟨⟩ t := Iff.rfl

theorem wp_bind {f : α → EStateM ε σ β} {Q : β → σ → Prop} :
    (x >>= f).Wp s Q E ↔ x.Wp s (fun a s' => (f a).Wp s' Q E) E := by
  unfold Wp
  simp only [bind, EStateM.bind]
  cases x s <;> rfl

theorem bind_of_ok {f : α → EStateM ε σ β} (hx : x s = .ok a s') : (x >>= f) s = f a s' := by
  simp only [bind, EStateM.bind, hx]

theorem bind_of_error {f : α → EStateM ε σ β} (hx : x s = .error e s') :
    (x >>= f) s = .error e s' := by
  simp only [bind, EStateM.bind, hx]

theorem wp_attempt {Q : Except ε α → σ → Prop} {E : ε' → σ → Prop} :
    (attempt x : EStateM ε' σ (Except ε α)).Wp s Q E ↔
      x.Wp s (fun a s' => Q (.ok a) s') (fun e s' => Q (.error e) s') := by
  unfold Wp attempt
  cases x s <;> rfl

theorem wp_adaptExcept {f : ε → ε'} {E : ε' → σ → Prop} :
    (EStateM.adaptExcept f x).Wp s Q E ↔ x.Wp s Q (fun e s' => E (f e) s') := by
  unfold Wp EStateM.adaptExcept
  cases x s <;> rfl

theorem wp_ofExcept {x : Except ε α} :
    (ofExcept x : EStateM ε σ α).Wp s Q E ↔
      (∀ a, x = .ok a → Q a s) ∧ ∀ e, x = .error e → E e s := by
  cases x with
  | ok a =>
    constructor
    · intro h
      constructor
      · intro a' ha
        cases ha
        exact h
      · intro e he
        cases he
    · intro h
      exact h.1 a rfl
  | error e =>
    constructor
    · intro h
      constructor
      · intro a ha
        cases ha
      · intro e' he
        cases he
        exact h
    · intro h
      exact h.2 e rfl

theorem wp_ofExcept_of_ok {y : Except ε α} (hy : y = .ok a) :
    (ofExcept y : EStateM ε σ α).Wp s Q E ↔ Q a s := by
  rw [hy]
  rfl

/-- A guard that throws, as `do` notation writes it. -/
theorem wp_guard {p : Prop} [Decidable p] {f : β → EStateM ε σ α} :
    (if p then throw e >>= f else x).Wp s Q E ↔ (p → E e s) ∧ (¬p → x.Wp s Q E) := by
  by_cases hp : p
  · rw [if_pos hp]
    exact ⟨fun h => ⟨fun _ => h, fun hn => absurd hp hn⟩, fun h => h.1 hp⟩
  · rw [if_neg hp]
    exact ⟨fun h => ⟨fun hp' => absurd hp' hp, fun _ => h⟩, fun h => h.2 hp⟩

theorem wp_throwIf {p : Prop} [Decidable p] :
    (if p then throw e else x).Wp s Q E ↔ (p → E e s) ∧ (¬p → x.Wp s Q E) := by
  by_cases hp : p
  · rw [if_pos hp]
    exact ⟨fun h => ⟨fun _ => h, fun hn => absurd hp hn⟩, fun h => h.1 hp⟩
  · rw [if_neg hp]
    exact ⟨fun h => ⟨fun hp' => absurd hp' hp, fun _ => h⟩, fun h => h.2 hp⟩

end EStateM
