/-!
# Lists of half-open intervals

An `IntervalLike` type has elements that occupy `start ≤ i < start + len`. Two
shapes of lists matter: `Tiles`, where non-empty intervals follow each other
without a gap, and `Ascending`, where gaps are allowed.

## Key results

- `tiles_append`, `ascending_append`: both shapes split at an append.
- `Tiles.coveredBy_iff`: a tiling of `[a, b)` covers exactly `[a, b)`.
- `Ascending.pairwise`: the intervals are in order and disjoint.
-/

class IntervalLike (α : Type) where
  start : α → Nat
  len : α → Nat

/-- A pair is the interval from its first to its second component. -/
instance : IntervalLike (Nat × Nat) where
  start r := r.1
  len r := r.2 - r.1

namespace IntervalLike

variable {α : Type} [IntervalLike α]

def stop (x : α) : Nat := start x + len x

def Covers (x : α) (i : Nat) : Prop := start x ≤ i ∧ i < stop x

/-- Some interval of the list covers `i`. -/
def CoveredBy (xs : List α) (i : Nat) : Prop := ∃ x ∈ xs, Covers x i

/-- Non-empty intervals that follow each other from `a` to `b`. -/
def Tiles : List α → Nat → Nat → Prop
  | [], a, b => a = b
  | x :: xs, a, b => start x = a ∧ 0 < len x ∧ Tiles xs (stop x) b

/-- Non-empty, disjoint intervals in order, all inside `[a, b)`. -/
def Ascending : List α → Nat → Nat → Prop
  | [], a, b => a ≤ b
  | x :: xs, a, b => a ≤ start x ∧ 0 < len x ∧ Ascending xs (stop x) b

@[simp] theorem not_coveredBy_nil (i : Nat) : ¬CoveredBy ([] : List α) i := by
  simp [CoveredBy]

@[simp] theorem coveredBy_cons (x : α) (xs : List α) (i : Nat) :
    CoveredBy (x :: xs) i ↔ Covers x i ∨ CoveredBy xs i := by
  simp [CoveredBy]

@[simp] theorem coveredBy_append (xs ys : List α) (i : Nat) :
    CoveredBy (xs ++ ys) i ↔ CoveredBy xs i ∨ CoveredBy ys i := by
  simp [CoveredBy, or_and_right, exists_or]

/-! ## Ascending lists -/

theorem Ascending.le {xs : List α} {a b : Nat} (h : Ascending xs a b) : a ≤ b := by
  induction xs generalizing a with
  | nil => exact h
  | cons x xs ih =>
    obtain ⟨hstart, _, hrest⟩ := h
    have hstop := ih hrest
    simp only [stop] at hstop
    omega

theorem Ascending.mono_left {xs : List α} {a a' b : Nat} (h : Ascending xs a b) (ha : a' ≤ a) :
    Ascending xs a' b := by
  cases xs with
  | nil => exact Nat.le_trans ha h
  | cons x xs => exact ⟨Nat.le_trans ha h.1, h.2⟩

theorem Ascending.mono_right {xs : List α} {a b b' : Nat} (h : Ascending xs a b) (hb : b ≤ b') :
    Ascending xs a b' := by
  induction xs generalizing a with
  | nil => exact Nat.le_trans h hb
  | cons x xs ih => exact ⟨h.1, h.2.1, ih h.2.2⟩

theorem ascending_append {xs ys : List α} {a c : Nat} :
    Ascending (xs ++ ys) a c ↔ ∃ b, Ascending xs a b ∧ Ascending ys b c := by
  induction xs generalizing a with
  | nil =>
    constructor
    · intro h; exact ⟨a, Nat.le_refl a, h⟩
    · rintro ⟨b, hab, h⟩; exact h.mono_left hab
  | cons x xs ih =>
    simp only [List.cons_append, Ascending, ih]
    constructor
    · rintro ⟨hstart, hlen, b, hxs, hys⟩; exact ⟨b, ⟨hstart, hlen, hxs⟩, hys⟩
    · rintro ⟨b, ⟨hstart, hlen, hxs⟩, hys⟩; exact ⟨hstart, hlen, b, hxs, hys⟩

theorem ascending_singleton {x : α} {a b : Nat} :
    Ascending [x] a b ↔ a ≤ start x ∧ 0 < len x ∧ stop x ≤ b := Iff.rfl

/-- Every interval of an ascending list lies inside its bounds. -/
theorem Ascending.bounds {xs : List α} {a b : Nat} (h : Ascending xs a b) {x : α} (hx : x ∈ xs) :
    a ≤ start x ∧ 0 < len x ∧ stop x ≤ b := by
  induction xs generalizing a with
  | nil => cases hx
  | cons y ys ih =>
    obtain ⟨hstart, hlen, hrest⟩ := h
    rcases List.mem_cons.mp hx with rfl | hx
    · exact ⟨hstart, hlen, hrest.le⟩
    · obtain ⟨h1, h2, h3⟩ := ih hrest hx
      refine ⟨?_, h2, h3⟩
      simp only [stop] at h1
      omega

theorem Ascending.lt_of_coveredBy {xs : List α} {a b i : Nat} (h : Ascending xs a b)
    (hi : CoveredBy xs i) : a ≤ i ∧ i < b := by
  obtain ⟨x, hx, hlo, hhi⟩ := hi
  obtain ⟨h1, _, h3⟩ := h.bounds hx
  omega

/-- The intervals are in order and disjoint. -/
theorem Ascending.pairwise {xs : List α} {a b : Nat} (h : Ascending xs a b) :
    xs.Pairwise fun x y => stop x ≤ start y := by
  induction xs generalizing a with
  | nil => exact List.Pairwise.nil
  | cons x xs ih =>
    obtain ⟨_, _, hrest⟩ := h
    exact List.Pairwise.cons (fun y hy => (hrest.bounds hy).1) (ih hrest)

/-! ## Tilings -/

theorem Tiles.ascending {xs : List α} {a b : Nat} (h : Tiles xs a b) : Ascending xs a b := by
  induction xs generalizing a with
  | nil => exact Nat.le_of_eq h
  | cons x xs ih => exact ⟨Nat.le_of_eq h.1.symm, h.2.1, ih h.2.2⟩

theorem Tiles.le {xs : List α} {a b : Nat} (h : Tiles xs a b) : a ≤ b := h.ascending.le

theorem tiles_append {xs ys : List α} {a c : Nat} :
    Tiles (xs ++ ys) a c ↔ ∃ b, Tiles xs a b ∧ Tiles ys b c := by
  induction xs generalizing a with
  | nil => simp [Tiles]
  | cons x xs ih =>
    simp only [List.cons_append, Tiles, ih]
    constructor
    · rintro ⟨hstart, hlen, b, hxs, hys⟩; exact ⟨b, ⟨hstart, hlen, hxs⟩, hys⟩
    · rintro ⟨b, ⟨hstart, hlen, hxs⟩, hys⟩; exact ⟨hstart, hlen, b, hxs, hys⟩

/-- A tiling of `[a, b)` covers exactly the positions of `[a, b)`. -/
theorem Tiles.coveredBy_iff {xs : List α} {a b i : Nat} (h : Tiles xs a b) :
    CoveredBy xs i ↔ a ≤ i ∧ i < b := by
  constructor
  · exact h.ascending.lt_of_coveredBy
  · induction xs generalizing a with
    | nil => intro hi; simp only [Tiles] at h; omega
    | cons x xs ih =>
      intro hi
      obtain ⟨hstart, _, hrest⟩ := h
      by_cases hx : i < stop x
      · exact (coveredBy_cons x xs i).mpr (.inl ⟨by omega, hx⟩)
      · exact (coveredBy_cons x xs i).mpr (.inr (ih hrest ⟨by omega, hi.2⟩))

/-- Replacing every interval of a tiling by a tiling of it gives a tiling. -/
theorem Tiles.flatMap {xs : List α} {f : α → List α} {a b : Nat} (h : Tiles xs a b)
    (hf : ∀ x ∈ xs, Tiles (f x) (start x) (stop x)) : Tiles (xs.flatMap f) a b := by
  induction xs generalizing a with
  | nil => exact h
  | cons x xs ih =>
    obtain ⟨rfl, _, hrest⟩ := h
    rw [List.flatMap_cons]
    exact tiles_append.mpr ⟨stop x, hf x List.mem_cons_self,
      ih hrest fun y hy => hf y (List.mem_cons_of_mem x hy)⟩

end IntervalLike
