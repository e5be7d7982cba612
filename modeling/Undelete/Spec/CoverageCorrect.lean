import Undelete.ForStd.Coverage
import Undelete.Native.Coverage
import Undelete.Spec.ExtentsCorrect

/-!
# When a candidate has missing ranges

`hasMissingRanges` holds exactly when some position of the file lies in no extent
(`hasMissingRanges_iff`), whatever the order and the overlaps of the extents.
-/

namespace Undelete

open IntervalLike

theorem logicalInterval_eq_some {size : Nat} {e : ExtentRun} {r : Nat × Nat}
    (hsize : size < 2 ^ 64) :
    logicalInterval size e = some r ↔
      r = (e.logicalOffset, min (e.logicalOffset + e.len) size) ∧ r.1 < r.2 := by
  have hstop : min (U64.saturatingAdd e.logicalOffset e.len) size =
      min (e.logicalOffset + e.len) size := by
    simp only [U64.saturatingAdd]
    omega
  rw [logicalInterval, hstop]
  by_cases hinside : min e.logicalOffset size < min (e.logicalOffset + e.len) size
  · rw [if_pos hinside, Option.some.injEq, Prod.ext_iff, Prod.ext_iff]
    simp only
    omega
  · rw [if_neg hinside]
    simp only [reduceCtorEq, Prod.ext_iff, false_iff]
    omega

/-- Clipping the extents keeps the positions of the file they cover. -/
theorem logicalIntervals_coveredBy {size i : Nat} {extents : List ExtentRun}
    (hsize : size < 2 ^ 64) (hi : i < size) :
    CoveredBy (extents.filterMap (logicalInterval size)) i ↔ CoveredBy extents i := by
  simp only [CoveredBy, List.mem_filterMap, logicalInterval_eq_some hsize]
  constructor
  · rintro ⟨r, ⟨e, he, rfl, _⟩, hlo, hhi⟩
    refine ⟨e, he, hlo, ?_⟩
    simp only [stop, start, len] at *
    omega
  · rintro ⟨e, he, hlo, hhi⟩
    simp only [stop, start, len] at hlo hhi
    refine ⟨_, ⟨e, he, rfl, by simp only; omega⟩, hlo, ?_⟩
    simp only [stop, start, len]
    omega

/-! ## Merging -/

instance : Std.Total intervalOrder where
  total a b := by simp only [intervalOrder]; omega

instance : IsTrans (Nat × Nat) intervalOrder where
  trans a b c := by simp only [intervalOrder]; omega

theorem mergeIntervalsFrom_ascending {size : Nat} (last : Nat × Nat) {intervals : List (Nat × Nat)}
    (hlast : last.1 < last.2 ∧ last.2 ≤ size) (h : ∀ r ∈ intervals, r.1 < r.2 ∧ r.2 ≤ size) :
    Ascending (mergeIntervalsFrom last intervals) last.1 size := by
  induction intervals generalizing last with
  | nil =>
    simp only [mergeIntervalsFrom, ascending_singleton, stop, start, len]
    omega
  | cons r intervals ih =>
    have hr := h r List.mem_cons_self
    have hrest := fun s hs => h s (List.mem_cons_of_mem r hs)
    simp only [mergeIntervalsFrom]
    split
    · exact ih (last.1, max last.2 r.2) (by simp only; omega) hrest
    · have hmerged := ih r hr hrest
      refine ⟨Nat.le_refl _, ?_, hmerged.mono_left ?_⟩ <;>
        simp only [stop, start, len] <;> omega

theorem mergeIntervalsFrom_coveredBy (last : Nat × Nat) {intervals : List (Nat × Nat)}
    (hlast : last.1 < last.2) (hsorted : (last :: intervals).Pairwise fun a b => a.1 ≤ b.1)
    (h : ∀ r ∈ intervals, r.1 < r.2) (i : Nat) :
    CoveredBy (mergeIntervalsFrom last intervals) i ↔ CoveredBy (last :: intervals) i := by
  induction intervals generalizing last with
  | nil => rfl
  | cons r intervals ih =>
    obtain ⟨hfirst, hrest⟩ := List.pairwise_cons.mp hsorted
    have hr := h r List.mem_cons_self
    have hlater := fun s hs => h s (List.mem_cons_of_mem r hs)
    have hle := hfirst r List.mem_cons_self
    simp only [mergeIntervalsFrom]
    split
    · next htouch =>
      have hsorted' : ((last.1, max last.2 r.2) :: intervals).Pairwise fun a b => a.1 ≤ b.1 :=
        List.pairwise_cons.mpr ⟨fun s hs => hfirst s (List.mem_cons_of_mem r hs),
          (List.pairwise_cons.mp hrest).2⟩
      rw [ih (last.1, max last.2 r.2) (by simp only; omega) hsorted' hlater]
      simp only [coveredBy_cons, ← or_assoc]
      apply or_congr_left
      simp only [Covers, stop, start, len]
      omega
    · rw [coveredBy_cons, ih r hr hrest hlater, coveredBy_cons last]

/-- The normalized intervals ascend inside the file and cover what the extents cover of it. -/
theorem normalizedLogicalIntervals_ok (extents : List ExtentRun) {size : Nat}
    (hsize : size < 2 ^ 64) :
    Ascending (normalizedLogicalIntervals extents size) 0 size ∧
      ∀ i < size, CoveredBy (normalizedLogicalIntervals extents size) i ↔ CoveredBy extents i := by
  have hbounds : ∀ r ∈ extents.filterMap (logicalInterval size), r.1 < r.2 ∧ r.2 ≤ size := by
    intro r hr
    obtain ⟨e, _, he⟩ := List.mem_filterMap.mp hr
    obtain ⟨rfl, hlt⟩ := (logicalInterval_eq_some hsize).mp he
    exact ⟨hlt, Nat.min_le_right _ _⟩
  have hcovered := fun i hi => @logicalIntervals_coveredBy size i extents hsize hi
  simp only [normalizedLogicalIntervals]
  generalize extents.filterMap (logicalInterval size) = clipped at *
  have hmem : ∀ r, r ∈ clipped.insertionSort intervalOrder ↔ r ∈ clipped :=
    fun r => List.mem_insertionSort intervalOrder
  have hsorted : (clipped.insertionSort intervalOrder).Pairwise fun a b => a.1 ≤ b.1 :=
    (List.pairwise_insertionSort intervalOrder _).imp
      fun hab => by simp only [intervalOrder] at hab; omega
  have hcovered : ∀ i < size,
      CoveredBy (clipped.insertionSort intervalOrder) i ↔ CoveredBy extents i := by
    intro i hi
    rw [← hcovered i hi]
    simp only [CoveredBy, hmem]
  simp only [← hmem] at hbounds
  generalize clipped.insertionSort intervalOrder = sorted at *
  cases sorted with
  | nil => exact ⟨Nat.zero_le _, hcovered⟩
  | cons r rest =>
    have hr := hbounds r List.mem_cons_self
    have hrest := fun s hs => hbounds s (List.mem_cons_of_mem r hs)
    constructor
    · exact (mergeIntervalsFrom_ascending r hr hrest).mono_left (Nat.zero_le _)
    · intro i hi
      rw [← hcovered i hi]
      exact mergeIntervalsFrom_coveredBy r hr.1 hsorted (fun s hs => (hrest s hs).1) i

/-! ## Coverage -/

theorem foldl_saturatingAdd {intervals : List (Nat × Nat)} {covered : Nat}
    (h : covered + total intervals < 2 ^ 64) :
    intervals.foldl (fun covered r => U64.saturatingAdd covered (r.2 - r.1)) covered =
      covered + total intervals := by
  induction intervals generalizing covered with
  | nil => rfl
  | cons r intervals ih =>
    rw [total_cons] at h
    have hlen : len r = r.2 - r.1 := rfl
    rw [List.foldl_cons, U64.saturatingAdd_of_lt (by omega), ih (by omega), total_cons]
    omega

theorem hasMissingRanges_iff {candidate : Candidate} (hsize : candidate.size < 2 ^ 64) :
    candidate.hasMissingRanges = true ↔ Gap candidate.extents 0 candidate.size := by
  obtain ⟨hascending, hcovered⟩ := normalizedLogicalIntervals_ok candidate.extents hsize
  have htotal := hascending.total_le
  have hgap : Gap (normalizedLogicalIntervals candidate.extents candidate.size) 0 candidate.size ↔
      Gap candidate.extents 0 candidate.size := by
    apply exists_congr
    intro i
    rw [and_congr_right_iff]
    intro hi
    rw [hcovered i hi.2]
  rw [← hgap, ← hascending.total_lt_iff, Candidate.hasMissingRanges, decide_eq_true_eq,
    Candidate.coveredLen, foldl_saturatingAdd (by omega)]
  omega

end Undelete
