import Mathlib.Algebra.GroupWithZero.Nat
import Undelete.ForStd.Intervals

/-!
# How much a list of intervals covers

`Gap xs a b` says that `xs` leaves a position of `[a, b)` out. For an ascending list this
can be read off its total length (`Ascending.total_lt_iff`), and an unordered list of
disjoint intervals becomes ascending when it is sorted by the starts (`ascending_of_sorted`).
-/

namespace IntervalLike

variable {α : Type} [IntervalLike α]

/-- Some position of `[a, b)` lies in no interval of the list. -/
def Gap (xs : List α) (a b : Nat) : Prop := ∃ i, (a ≤ i ∧ i < b) ∧ ¬CoveredBy xs i

/-- Neither interval reaches into the other. -/
def Apart (x y : α) : Prop := stop x ≤ start y ∨ stop y ≤ start x

/-- The lengths of the intervals, added up. -/
def total (xs : List α) : Nat := (xs.map len).sum

@[simp] theorem total_nil : total ([] : List α) = 0 := rfl

@[simp] theorem total_cons (x : α) (xs : List α) : total (x :: xs) = len x + total xs := by
  simp [total]

@[simp] theorem gap_nil {a b : Nat} : Gap ([] : List α) a b ↔ a < b := by
  constructor
  · rintro ⟨i, hi, _⟩; omega
  · intro h; exact ⟨a, ⟨Nat.le_refl a, h⟩, not_coveredBy_nil a⟩

/-- The first interval of an ascending list leaves a gap before it, or the rest has one. -/
theorem Ascending.gap_cons {x : α} {xs : List α} {a b : Nat} (h : Ascending (x :: xs) a b) :
    Gap (x :: xs) a b ↔ a < start x ∨ Gap xs (stop x) b := by
  obtain ⟨hstart, hlen, hrest⟩ := h
  have hle := hrest.le
  constructor
  · rintro ⟨i, hi, hgap⟩
    rw [coveredBy_cons, not_or] at hgap
    by_cases hbefore : i < start x
    · exact .inl (by omega)
    · have hafter : stop x ≤ i := by
        rw [← Nat.not_lt]
        intro hinside
        exact hgap.1 ⟨by omega, hinside⟩
      exact .inr ⟨i, ⟨hafter, hi.2⟩, hgap.2⟩
  · rintro (hbefore | ⟨i, hi, hgap⟩)
    · -- the position just after `a` is in front of every interval
      refine ⟨a, ⟨Nat.le_refl a, by simp only [stop] at hle; omega⟩, ?_⟩
      rw [coveredBy_cons, not_or]
      refine ⟨fun hx => by have := hx.1; omega, fun hxs => ?_⟩
      have := (hrest.lt_of_coveredBy hxs).1
      simp only [stop] at this
      omega
    · refine ⟨i, ⟨by simp only [stop] at hi; omega, hi.2⟩, ?_⟩
      rw [coveredBy_cons, not_or]
      exact ⟨fun hx => by have := hx.2; omega, hgap⟩

theorem Ascending.total_le {xs : List α} {a b : Nat} (h : Ascending xs a b) :
    total xs ≤ b - a := by
  induction xs generalizing a with
  | nil => exact Nat.zero_le _
  | cons x xs ih =>
    obtain ⟨hstart, _, hrest⟩ := h
    have hxs := ih hrest
    have hle := hrest.le
    simp only [total_cons, stop] at *
    omega

/-- Every interval of an ascending list has a position of its own. -/
theorem Ascending.length_le_total {xs : List α} {a b : Nat} (h : Ascending xs a b) :
    xs.length ≤ total xs := by
  induction xs generalizing a with
  | nil => exact Nat.le_refl 0
  | cons x xs ih =>
    obtain ⟨_, hlen, hrest⟩ := h
    have hxs := ih hrest
    rw [List.length_cons, total_cons]
    omega

/-- The intervals of an ascending list fall short of `[a, b)` when they leave a gap. -/
theorem Ascending.total_lt_iff {xs : List α} {a b : Nat} (h : Ascending xs a b) :
    total xs < b - a ↔ Gap xs a b := by
  induction xs generalizing a with
  | nil =>
    rw [total_nil, gap_nil]
    omega
  | cons x xs ih =>
    rw [h.gap_cons]
    obtain ⟨hstart, _, hrest⟩ := h
    rw [← ih hrest, total_cons]
    have hle := hrest.total_le
    have hstop := hrest.le
    simp only [stop] at *
    omega

/-- The total length of an ascending list is the number of positions it covers. -/
theorem Ascending.total_eq_countP {xs : List α} {a b : Nat} {p : Nat → Bool}
    (h : Ascending xs a b) (hp : ∀ i, a ≤ i → i < b → (p i = true ↔ CoveredBy xs i)) :
    total xs = (List.range' a (b - a)).countP p := by
  induction xs generalizing a with
  | nil =>
    rw [total_nil, eq_comm, List.countP_eq_zero]
    intro i hi
    have hmem := List.mem_range'_1.mp hi
    rw [hp i (by omega) (by omega)]
    exact not_coveredBy_nil i
  | cons x xs ih =>
    obtain ⟨hstart, hlen, hrest⟩ := h
    have hle := hrest.le
    have hsplit : List.range' a (b - a) = List.range' a (start x - a) ++
        (List.range' (start x) (len x) ++ List.range' (stop x) (b - stop x)) := by
      have hinner := @List.range'_append_1 (start x) (len x) (b - stop x)
      have houter := @List.range'_append_1 a (start x - a) (len x + (b - stop x))
      have hmid : start x + len x = stop x := rfl
      rw [hmid] at hinner
      rw [Nat.add_sub_cancel' hstart] at houter
      rw [hinner, houter]
      congr 1
      omega
    have hbefore : (List.range' a (start x - a)).countP p = 0 := by
      rw [List.countP_eq_zero]
      intro i hi
      have hmem := List.mem_range'_1.mp hi
      rw [hp i (by omega) (by simp only [stop] at hle; omega), coveredBy_cons]
      rintro (hcovers | hlater)
      · have := hcovers.1
        omega
      · have := (hrest.lt_of_coveredBy hlater).1
        simp only [stop] at this
        omega
    have hinside : (List.range' (start x) (len x)).countP p = len x := by
      have hlength : (List.range' (start x) (len x)).length = len x := List.length_range'
      refine Eq.trans ?_ hlength
      rw [List.countP_eq_length]
      intro i hi
      have hmem := List.mem_range'_1.mp hi
      rw [hp i (by omega) (by simp only [stop] at hle; omega), coveredBy_cons]
      exact .inl ⟨hmem.1, hmem.2⟩
    rw [hsplit, List.countP_append, List.countP_append, hbefore, hinside, total_cons,
      ih hrest fun i hlo hhi => ?_]
    · omega
    · rw [hp i (by simp only [stop] at hlo; omega) hhi, coveredBy_cons]
      constructor
      · rintro (hcovers | hlater)
        · exact absurd hcovers.2 (by omega)
        · exact hlater
      · exact .inr

/-- Disjoint intervals inside `[a, b)` that are sorted by their starts are ascending. -/
theorem ascending_of_sorted {xs : List α} {a b : Nat} (hab : a ≤ b)
    (hsorted : xs.Pairwise fun x y => start x ≤ start y) (hapart : xs.Pairwise Apart)
    (hbounds : ∀ x ∈ xs, a ≤ start x ∧ 0 < len x ∧ stop x ≤ b) : Ascending xs a b := by
  induction xs generalizing a with
  | nil => exact hab
  | cons x xs ih =>
    obtain ⟨hstart, hlen, hstop⟩ := hbounds x List.mem_cons_self
    obtain ⟨horder, hsorted⟩ := List.pairwise_cons.mp hsorted
    obtain ⟨hfirst, hapart⟩ := List.pairwise_cons.mp hapart
    refine ⟨hstart, hlen, ih hstop hsorted hapart fun y hy => ?_⟩
    obtain ⟨_, hylen, hystop⟩ := hbounds y (List.mem_cons_of_mem x hy)
    have hstarts := horder y hy
    refine ⟨?_, hylen, hystop⟩
    rcases hfirst y hy with h | h
    · exact h
    · simp only [stop] at h
      omega

end IntervalLike
