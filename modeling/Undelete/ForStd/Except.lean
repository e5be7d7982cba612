import Mathlib.Control.Monad.Basic

/-!
# Successful runs of `Except` programs

Rules that read a successful run backwards: a sequence succeeded because each of
its steps did, and a guard that throws was not taken.
-/

namespace Except

variable {ε ε' α β : Type}

theorem bind_eq_ok {x : Except ε α} {f : α → Except ε β} {b : β} :
    (x >>= f) = .ok b ↔ ∃ a, x = .ok a ∧ f a = .ok b := by
  cases x <;> simp [bind, Except.bind]

theorem bind_ok (a : α) (f : α → Except ε β) : (Except.ok a >>= f) = f a := rfl

theorem pure_eq_ok {a b : α} : (pure a : Except ε α) = .ok b ↔ a = b := by
  simp [pure, Except.pure]

theorem throw_bind (e : ε) (f : α → Except ε β) :
    ((throw e : Except ε α) >>= f) = throw e := rfl

theorem throw_ne_ok {e : ε} {a : α} : (throw e : Except ε α) = .ok a ↔ False := by
  simp [throw, throwThe, MonadExceptOf.throw]

/-- A guard that throws was not taken. -/
theorem ite_throw_eq_ok {p : Prop} [Decidable p] {e : ε} {x : Except ε α} {a : α} :
    (if p then throw e else x) = .ok a ↔ ¬p ∧ x = .ok a := by
  by_cases hp : p <;> simp [hp, throw_ne_ok]

/-- The value of a conditional comes from one of its branches. -/
theorem ite_eq_or {p : Prop} [Decidable p] {x y z : Except ε α}
    (h : (if p then x else y) = z) : x = z ∨ y = z := by
  by_cases hp : p
  · exact .inl (by rwa [if_pos hp] at h)
  · exact .inr (by rwa [if_neg hp] at h)

theorem map_eq_ok {x : Except ε α} {f : α → β} {b : β} :
    x.map f = .ok b ↔ ∃ a, x = .ok a ∧ f a = b := by
  cases x <;> simp [Except.map]

theorem map_eq_error {x : Except ε α} {f : α → β} {e : ε} :
    x.map f = .error e ↔ x = .error e := by
  cases x <;> simp [Except.map]

theorem toOption_eq_some {x : Except ε α} {a : α} : x.toOption = some a ↔ x = .ok a := by
  cases x <;> simp [Except.toOption]

theorem mapError_eq_ok {x : Except ε α} {f : ε → ε'} {a : α} :
    x.mapError f = .ok a ↔ x = .ok a := by
  cases x with
  | error e => exact ⟨fun h => (by cases h), fun h => (by cases h)⟩
  | ok b => exact ⟨fun h => (by cases h; rfl), fun h => (by cases h; rfl)⟩

theorem bind_eq_error {x : Except ε α} {f : α → Except ε β} {e : ε} :
    (x >>= f) = .error e ↔ x = .error e ∨ ∃ a, x = .ok a ∧ f a = .error e := by
  cases x <;> simp [bind, Except.bind]

theorem pure_eq_error {a : α} {e : ε} : (pure a : Except ε α) = .error e ↔ False := by
  simp [pure, Except.pure]

theorem throw_eq_error {e e' : ε} : (throw e : Except ε α) = .error e' ↔ e = e' := by
  simp [throw, throwThe, MonadExceptOf.throw]

theorem ite_throw_eq_error {p : Prop} [Decidable p] {e e' : ε} {x : Except ε α} :
    (if p then throw e else x) = .error e' ↔ p ∧ e = e' ∨ ¬p ∧ x = .error e' := by
  by_cases hp : p <;> simp [hp, throw_eq_error]

theorem mapError_eq_error {x : Except ε α} {f : ε → ε'} {e : ε'} :
    x.mapError f = .error e ↔ ∃ e', x = .error e' ∧ f e' = e := by
  cases x with
  | error e' =>
    constructor
    · intro h
      cases h
      exact ⟨e', rfl, rfl⟩
    · rintro ⟨e'', h, rfl⟩
      cases h
      rfl
  | ok b =>
    constructor
    · intro h
      cases h
    · rintro ⟨e', h, _⟩
      cases h

theorem exists_of_isOk {x : Except ε α} (h : x.isOk = true) : ∃ a, x = .ok a := by
  cases x with
  | error e => cases h
  | ok a => exact ⟨a, rfl⟩

/-- What every successful step keeps, a successful fold keeps. -/
theorem foldlM_keeps {f : β → α → Except ε β} {P : β → Prop}
    (h : ∀ b x b', P b → f b x = .ok b' → P b') {xs : List α} {init b : β} (hinit : P init)
    (hfold : xs.foldlM f init = .ok b) : P b := by
  induction xs generalizing init with
  | nil =>
    cases hfold
    exact hinit
  | cons x xs ih =>
    rw [List.foldlM_cons, bind_eq_ok] at hfold
    obtain ⟨b', hstep, hrest⟩ := hfold
    exact ih (h init x b' hinit hstep) hrest

/-- What holds of the elements behind a fold and of its value, when every successful step
    carries it on to one more element. -/
theorem foldlM_prefix {f : β → α → Except ε β} {P : List α → β → Prop}
    (h : ∀ done x b b', P done b → f b x = .ok b' → P (done ++ [x]) b') {xs : List α} {init b : β}
    (hinit : P [] init) (hfold : xs.foldlM f init = .ok b) : P xs b := by
  have hall : ∀ done init, P done init → xs.foldlM f init = .ok b → P (done ++ xs) b := by
    clear hinit hfold
    induction xs with
    | nil =>
      intro done init hdone hfold
      cases hfold
      rwa [List.append_nil]
    | cons x xs ih =>
      intro done init hdone hfold
      rw [List.foldlM_cons, bind_eq_ok] at hfold
      obtain ⟨b', hstep, hrest⟩ := hfold
      rw [List.append_cons]
      exact ih (done ++ [x]) b' (h done x init b' hdone hstep) hrest
  exact hall [] init hinit hfold

/-- A monadic fold whose steps all succeed is a fold. -/
theorem foldlM_eq_ok {f : β → α → Except ε β} {g : β → α → β} {xs : List α} {init : β}
    (h : ∀ x ∈ xs, ∀ b, f b x = .ok (g b x)) : xs.foldlM f init = .ok (xs.foldl g init) := by
  induction xs generalizing init with
  | nil => rfl
  | cons x xs ih =>
    rw [List.foldlM_cons, h x List.mem_cons_self, bind_ok]
    exact ih fun y hy => h y (List.mem_cons_of_mem x hy)

/-- A monadic map whose steps all succeed is a map. -/
theorem mapM_eq_ok {f : α → Except ε β} {g : α → β} {xs : List α}
    (h : ∀ x ∈ xs, f x = .ok (g x)) : xs.mapM f = .ok (xs.map g) := by
  induction xs with
  | nil => rfl
  | cons x xs ih =>
    rw [List.mapM_cons, h x List.mem_cons_self, bind_ok,
      ih fun y hy => h y (List.mem_cons_of_mem x hy)]
    rfl

/-- Every element of a mapped list comes from one of the list. -/
theorem exists_of_mem_mapM {f : α → Except ε β} {xs : List α} {ys : List β}
    (h : xs.mapM f = .ok ys) : ∀ y ∈ ys, ∃ x ∈ xs, f x = .ok y := by
  induction xs generalizing ys with
  | nil =>
    cases h
    intro y hy
    cases hy
  | cons x xs ih =>
    simp only [List.mapM_cons, bind_eq_ok, pure_eq_ok] at h
    obtain ⟨first, hfirst, rest, hrest, rfl⟩ := h
    rw [List.forall_mem_cons]
    refine ⟨⟨x, List.mem_cons_self, hfirst⟩, fun y hy => ?_⟩
    obtain ⟨x', hmem, hx'⟩ := ih hrest y hy
    exact ⟨x', List.mem_cons_of_mem x hmem, hx'⟩

theorem length_of_mapM {f : α → Except ε β} {xs : List α} {ys : List β}
    (h : xs.mapM f = .ok ys) : ys.length = xs.length := by
  induction xs generalizing ys with
  | nil =>
    cases h
    rfl
  | cons x xs ih =>
    simp only [List.mapM_cons, bind_eq_ok, pure_eq_ok] at h
    obtain ⟨first, _, rest, hrest, rfl⟩ := h
    rw [List.length_cons, List.length_cons, ih hrest]

theorem getElem?_of_mapM {f : α → Except ε β} {xs : List α} {ys : List β}
    (h : xs.mapM f = .ok ys) {i : Nat} {x : α} (hx : xs[i]? = some x) :
    ∃ y, ys[i]? = some y ∧ f x = .ok y := by
  induction xs generalizing ys i with
  | nil => cases hx
  | cons first xs ih =>
    simp only [List.mapM_cons, bind_eq_ok, pure_eq_ok] at h
    obtain ⟨y, hy, rest, hrest, rfl⟩ := h
    cases i with
    | zero =>
      cases hx
      exact ⟨y, rfl, hy⟩
    | succ i =>
      rw [List.getElem?_cons_succ] at hx ⊢
      exact ih hrest hx

/-- A monadic map fails as its first failing step does. -/
theorem mapM_eq_error {f : α → Except ε β} {xs : List α} {e : ε} :
    xs.mapM f = .error e ↔ ∃ before x after, xs = before ++ x :: after ∧
      (∀ y ∈ before, ∃ b, f y = .ok b) ∧ f x = .error e := by
  induction xs with
  | nil =>
    constructor
    · intro h
      cases h
    · rintro ⟨before, x, after, h, _⟩
      cases before <;> cases h
  | cons x xs ih =>
    rw [List.mapM_cons]
    cases hx : f x with
    | error e' =>
      constructor
      · intro h
        cases h
        exact ⟨[], x, xs, rfl, ⟨fun y hy => (by cases hy), hx⟩⟩
      · rintro ⟨before, y, after, h, hbefore, hy⟩
        cases before with
        | nil =>
          cases h
          rw [hx] at hy
          cases hy
          rfl
        | cons z before =>
          cases h
          obtain ⟨b, hb⟩ := hbefore x List.mem_cons_self
          rw [hx] at hb
          cases hb
    | ok b =>
      have hrest : (do let b ← Except.ok b; let bs ← xs.mapM f; pure (b :: bs)) =
          (Except.error e : Except ε (List β)) ↔ xs.mapM f = .error e := by
        rw [bind_ok]
        cases xs.mapM f with
        | error e' => exact ⟨fun h => h, fun h => h⟩
        | ok bs => exact ⟨fun h => (by cases h), fun h => (by cases h)⟩
      rw [hrest, ih]
      constructor
      · rintro ⟨before, y, after, rfl, hbefore, hy⟩
        refine ⟨x :: before, y, after, rfl, fun z hz => ?_, hy⟩
        rcases List.mem_cons.mp hz with rfl | hz
        · exact ⟨b, hx⟩
        · exact hbefore z hz
      · rintro ⟨before, y, after, h, hbefore, hy⟩
        cases before with
        | nil =>
          cases h
          rw [hx] at hy
          cases hy
        | cons z before =>
          cases h
          exact ⟨before, y, after, rfl, fun z hz => hbefore z (List.mem_cons_of_mem _ hz), hy⟩

/-- A monadic fold fails as its first failing step does. -/
theorem foldlM_eq_error {f : β → α → Except ε β} {xs : List α} {init : β} {e : ε} :
    xs.foldlM f init = .error e ↔ ∃ before x after st, xs = before ++ x :: after ∧
      before.foldlM f init = .ok st ∧ f st x = .error e := by
  induction xs generalizing init with
  | nil =>
    constructor
    · intro h
      cases h
    · rintro ⟨before, x, after, st, h, _⟩
      cases before <;> cases h
  | cons x xs ih =>
    rw [List.foldlM_cons]
    cases hx : f init x with
    | error e' =>
      constructor
      · intro h
        cases h
        exact ⟨[], x, xs, init, rfl, rfl, hx⟩
      · rintro ⟨before, y, after, st, h, hbefore, hy⟩
        cases before with
        | nil =>
          cases h
          cases hbefore
          exact hx.symm.trans hy
        | cons z before =>
          cases h
          rw [List.foldlM_cons, hx] at hbefore
          cases hbefore
    | ok st₁ =>
      rw [bind_ok, ih]
      constructor
      · rintro ⟨before, y, after, st, rfl, hbefore, hy⟩
        refine ⟨x :: before, y, after, st, rfl, ?_, hy⟩
        rw [List.foldlM_cons, hx]
        exact hbefore
      · rintro ⟨before, y, after, st, h, hbefore, hy⟩
        cases before with
        | nil =>
          cases h
          cases hbefore
          rw [hx] at hy
          cases hy
        | cons z before =>
          cases h
          rw [List.foldlM_cons, hx] at hbefore
          exact ⟨before, y, after, st, rfl, hbefore, hy⟩

/-- A map over `0, …, n - 1` fails as its first failing step does. -/
theorem mapM_range_eq_error {f : Nat → Except ε β} {n : Nat} {e : ε} :
    (List.range n).mapM f = .error e ↔
      ∃ i < n, (∀ j < i, ∃ b, f j = .ok b) ∧ f i = .error e := by
  rw [mapM_eq_error]
  constructor
  · rintro ⟨before, i, after, h, hbefore, hi⟩
    have hlength : before.length < n := by
      have := congrArg List.length h
      rw [List.length_range, List.length_append, List.length_cons] at this
      omega
    have hget : ∀ j : Nat, (List.range n)[j]? = (before ++ i :: after)[j]? := fun j => by rw [h]
    have hbeforeAt : ∀ j < before.length, before[j]? = some j := by
      intro j hj
      rw [← List.getElem?_append_left hj, ← hget, List.getElem?_range (by omega)]
    obtain rfl : i = before.length := by
      have hi := hget before.length
      rw [List.getElem?_range hlength, List.getElem?_append_right (Nat.le_refl _),
        Nat.sub_self, List.getElem?_cons_zero] at hi
      exact (Option.some.inj hi).symm
    refine ⟨before.length, hlength, fun j hj => ?_, hi⟩
    exact hbefore j (List.mem_of_getElem? (hbeforeAt j hj))
  · rintro ⟨i, hlt, hbefore, hi⟩
    refine ⟨List.range i, i, (List.range' (i + 1) (n - (i + 1))), ?_, fun j hj =>
      hbefore j (List.mem_range.mp hj), hi⟩
    have hsplit : List.range' 0 i ++ List.range' (0 + i) (n - (i + 1) + 1) = List.range' 0 n := by
      rw [List.range'_append_1]
      congr 1
      omega
    rw [List.range_eq_range', List.range_eq_range', ← hsplit, Nat.zero_add, List.range'_succ]

end Except
