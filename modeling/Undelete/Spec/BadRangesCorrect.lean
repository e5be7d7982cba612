import Undelete.ForStd.Intervals
import Undelete.Native.Source
import Undelete.Native.Carve.Scan

/-!
# Normalized bad ranges

What `normalize_bad_ranges` makes of the report of a source that reports every
unreadable byte of a read once: with at most 8192 ranges, the result covers exactly
the unreadable bytes; with more, the whole read counts as unreadable.

## Key results

- `isReadable_iff`: `is_readable` is the complement of the covered positions.
- `normalizeBadRanges_coveredBy`, `normalizeBadRanges_overloaded`.
-/

namespace Undelete.Carve

open IntervalLike

theorem isReadable_iff {index : Nat} {ranges : List (Nat × Nat)} :
    isReadable index ranges = true ↔ ¬CoveredBy ranges index := by
  simp only [isReadable, List.all_eq_true, Bool.or_eq_true, decide_eq_true_eq, CoveredBy, Covers,
    start, stop, len, not_exists, not_and]
  constructor
  · intro h r hr hstart
    have := h r hr
    omega
  · intro h r hr
    have := h r hr
    omega

theorem rangesLen_cons (r : Nat × Nat) (ranges : List (Nat × Nat)) :
    rangesLen (r :: ranges) = (r.2 - r.1) + rangesLen ranges := by
  simp [rangesLen]

/-- Merging a range that starts where all others have ended, or later. -/
theorem mergeRange_coveredBy {merged : List (Nat × Nat)} {r : Nat × Nat} (hr : r.1 < r.2)
    (hm : ∀ m ∈ merged, m.1 < m.2 ∧ m.2 ≤ r.1) :
    (∀ i, CoveredBy (mergeRange merged r) i ↔ CoveredBy merged i ∨ Covers r i) ∧
      rangesLen (mergeRange merged r) = rangesLen merged + (r.2 - r.1) ∧
      ∀ m ∈ mergeRange merged r, m.1 < m.2 ∧ m.2 ≤ r.2 := by
  cases merged with
  | nil =>
    refine ⟨fun i => by simp [mergeRange], by simp [mergeRange, rangesLen], ?_⟩
    intro m hmem
    rw [mergeRange, List.mem_singleton] at hmem
    subst hmem
    exact ⟨hr, Nat.le_refl _⟩
  | cons last rest =>
    have hlast := hm last List.mem_cons_self
    have hrest : ∀ m ∈ rest, m.1 < m.2 ∧ m.2 ≤ r.2 := by
      intro m hmem
      have := hm m (List.mem_cons_of_mem last hmem)
      omega
    simp only [mergeRange]
    by_cases htouch : r.1 ≤ last.2
    · rw [if_pos htouch]
      refine ⟨?_, ?_, ?_⟩
      · intro i
        simp only [coveredBy_cons, Covers, start, stop, len, Nat.max_def]
        constructor
        · rintro (h | h)
          · by_cases hi : i < r.1
            · exact Or.inl (Or.inl (by split at h <;> omega))
            · exact Or.inr (by split at h <;> omega)
          · exact Or.inl (Or.inr h)
        · rintro ((h | h) | h)
          · exact Or.inl (by split <;> omega)
          · exact Or.inr h
          · exact Or.inl (by split <;> omega)
      · rw [rangesLen_cons, rangesLen_cons]
        simp only
        omega
      · intro m hmem
        rcases List.mem_cons.mp hmem with rfl | hmem
        · simp only
          omega
        · exact hrest m hmem
    · rw [if_neg htouch]
      refine ⟨?_, ?_, ?_⟩
      · intro i
        rw [coveredBy_cons, or_comm]
      · rw [rangesLen_cons, Nat.add_comm]
      · intro m hmem
        rcases List.mem_cons.mp hmem with rfl | hmem
        · exact ⟨hr, Nat.le_refl _⟩
        · have := hm m hmem
          omega

/-- Merging disjoint ranges in order keeps what they cover and their total length. -/
theorem foldl_mergeRange {ranges merged : List (Nat × Nat)}
    (hranges : ranges.Pairwise fun a b => a.2 ≤ b.1) (hne : ∀ r ∈ ranges, r.1 < r.2)
    (hm : ∀ m ∈ merged, m.1 < m.2 ∧ ∀ r ∈ ranges, m.2 ≤ r.1) :
    (∀ i, CoveredBy (ranges.foldl mergeRange merged) i ↔
        CoveredBy merged i ∨ CoveredBy ranges i) ∧
      rangesLen (ranges.foldl mergeRange merged) = rangesLen merged + rangesLen ranges := by
  induction ranges generalizing merged with
  | nil => exact ⟨fun i => by simp, by simp [rangesLen]⟩
  | cons r rest ih =>
    obtain ⟨hr, hrest⟩ := List.pairwise_cons.mp hranges
    obtain ⟨hcovered, hlen, hends⟩ := mergeRange_coveredBy (hne r List.mem_cons_self)
      (fun m hmem => ⟨(hm m hmem).1, (hm m hmem).2 r List.mem_cons_self⟩)
    obtain ⟨hcovered', hlen'⟩ := ih hrest (fun s hs => hne s (List.mem_cons_of_mem r hs))
      (fun m hmem => ⟨(hends m hmem).1, fun s hs => Nat.le_trans (hends m hmem).2 (hr s hs)⟩)
    refine ⟨?_, ?_⟩
    · intro i
      rw [List.foldl_cons, hcovered', hcovered, coveredBy_cons, or_assoc]
    · rw [List.foldl_cons, hlen', hlen, rangesLen_cons, Nat.add_assoc]

/-- Ranges inside the read pass as they are. -/
theorem readRanges_eq {n : Nat} {ranges : List (Nat × Nat)} (hn : n < 2 ^ 64)
    (h : ∀ r ∈ ranges, 0 < r.2 ∧ r.1 + r.2 ≤ n) :
    readRanges n ranges = some (ranges.map fun r => (r.1, r.1 + r.2)) := by
  induction ranges with
  | nil => rfl
  | cons r rest ih =>
    obtain ⟨hpos, hin⟩ := h r List.mem_cons_self
    rw [readRanges, U64.checkedAdd_of_lt (by omega), ih fun s hs => h s (List.mem_cons_of_mem r hs)]
    simp only [Option.bind_eq_bind, Option.bind_some]
    rw [if_neg (by omega), if_pos (by omega)]
    rfl

instance : Std.Total rangeOrder where
  total a b := by
    unfold rangeOrder
    omega

instance : IsTrans (Nat × Nat) rangeOrder where
  trans a b c hab hbc := by
    unfold rangeOrder at *
    omega

/-- The normalized ranges of an exact report of at most 8192 ranges. -/
theorem normalizeBadRanges_coveredBy {byte : Nat → UInt8} {bad : Nat → Prop} {offset : Nat}
    {slice : Bytes} {outcome : ReadOutcome} (h : Delivers byte bad offset slice outcome)
    (hlen : slice.length < 2 ^ 64) (hcount : outcome.badRanges.length ≤ maxBadRangesPerRead)
    {i : Nat} (hi : i < slice.length) :
    CoveredBy (normalizeBadRanges slice.length outcome) i ↔ bad (offset + i) := by
  unfold normalizeBadRanges
  rw [if_neg (Nat.not_lt.mpr hcount), readRanges_eq hlen h.inside]
  simp only
  let pairs := outcome.badRanges.map fun r => (r.1, r.1 + r.2)
  have hperm := List.perm_insertionSort rangeOrder pairs
  have hdisjoint : (pairs.insertionSort rangeOrder).Pairwise fun a b => a.2 ≤ b.1 ∨ b.2 ≤ a.1 := by
    apply (hperm.pairwise_iff fun hab => hab.symm).mpr
    exact List.pairwise_map.mpr h.disjoint
  have hne : ∀ r ∈ pairs.insertionSort rangeOrder, r.1 < r.2 := by
    intro r hr
    obtain ⟨s, hs, rfl⟩ := List.mem_map.mp (hperm.mem_iff.mp hr)
    have := (h.inside s hs).1
    simp only
    omega
  have hordered : (pairs.insertionSort rangeOrder).Pairwise fun a b => a.2 ≤ b.1 := by
    have hsorted := List.pairwise_insertionSort rangeOrder pairs
    refine (hdisjoint.and hsorted).imp_of_mem ?_
    intro a b ha hb hab
    have := hne a ha
    have := hne b hb
    unfold rangeOrder at hab
    omega
  obtain ⟨hcovered, htotal⟩ := foldl_mergeRange hordered hne (show ∀ m ∈ [], _ by simp)
  have hsum : rangesLen ((pairs.insertionSort rangeOrder).foldl mergeRange []).reverse =
      (outcome.badRanges.map Prod.snd).sum := by
    have hreverse : ∀ l : List (Nat × Nat), rangesLen l.reverse = rangesLen l := by
      intro l
      rw [rangesLen, List.map_reverse, List.sum_reverse, rangesLen]
    have hpairs : rangesLen pairs = (outcome.badRanges.map Prod.snd).sum := by
      simp only [rangesLen, pairs, List.map_map]
      congr 1
      apply List.map_congr_left
      intro r _
      simp
    rw [hreverse, htotal, ← hpairs]
    show 0 + (List.map _ _).sum = _
    rw [Nat.zero_add]
    exact (hperm.map _).sum_nat
  rw [if_neg]
  · have hmem : ∀ l : List (Nat × Nat), CoveredBy l.reverse i ↔ CoveredBy l i := by
      intro l
      simp only [CoveredBy, List.mem_reverse]
    rw [hmem, hcovered]
    simp only [not_coveredBy_nil, false_or]
    rw [h.covers i hi]
    constructor
    · rintro ⟨r, hr, hstart, hstop⟩
      obtain ⟨s, hs, rfl⟩ := List.mem_map.mp (hperm.mem_iff.mp hr)
      simp only [start, stop, len] at hstart hstop
      exact ⟨s, hs, hstart, by omega⟩
    · rintro ⟨s, hs, hstart, hstop⟩
      refine ⟨(s.1, s.1 + s.2), hperm.mem_iff.mpr (List.mem_map_of_mem hs), hstart, ?_⟩
      simp only [start, stop, len]
      omega
  · rw [hsum, not_not]
    have := h.bytesValid
    omega

/-- A report of more ranges makes the whole read unreadable. -/
theorem normalizeBadRanges_overloaded {n : Nat} {outcome : ReadOutcome}
    (h : ¬outcome.badRanges.length ≤ maxBadRangesPerRead) :
    normalizeBadRanges n outcome = [(0, n)] :=
  if_pos (Nat.lt_of_not_le h)

/-- A read without unreadable bytes has no bad ranges. -/
theorem normalizeBadRanges_eq_nil_iff {byte : Nat → UInt8} {bad : Nat → Prop} {offset : Nat}
    {slice : Bytes} {outcome : ReadOutcome} (h : Delivers byte bad offset slice outcome)
    (hlen : slice.length < 2 ^ 64) :
    normalizeBadRanges slice.length outcome = [] ↔ ∀ i < slice.length, ¬bad (offset + i) := by
  constructor
  · intro hnil i hi hbad
    by_cases hcount : outcome.badRanges.length ≤ maxBadRangesPerRead
    · have := (normalizeBadRanges_coveredBy h hlen hcount hi).mpr hbad
      rw [hnil] at this
      exact not_coveredBy_nil i this
    · rw [normalizeBadRanges_overloaded hcount] at hnil
      cases hnil
  · intro hgood
    have hnil : outcome.badRanges = [] := by
      apply List.eq_nil_iff_forall_not_mem.mpr
      intro r hr
      obtain ⟨hpos, hin⟩ := h.inside r hr
      exact hgood r.1 (by omega) ((h.covers r.1 (by omega)).mpr ⟨r, hr, Nat.le_refl _, by omega⟩)
    have hvalid := h.bytesValid
    rw [hnil, List.map_nil, List.sum_nil, Nat.add_zero] at hvalid
    simp [normalizeBadRanges, hnil, readRanges, hvalid, rangesLen]

end Undelete.Carve
