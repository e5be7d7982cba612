import Undelete.ForStd.Coverage
import Undelete.ForStd.Except
import Undelete.ForStd.Intervals
import Undelete.Native.Restore.Stream

/-!
# Range lists of a restore

The three range lists of `crates/restore`: the failed sub-ranges of one read
(`normalizeBadRanges`), the zero-fill evidence of a run (`appendZeroRange`), and
the readable ranges of the manifest (`readableRanges`).

## Key results

- `normalizeBadRanges_ok`: ascending ranges that cover exactly the reported bytes.
- `normalizeBadRanges_reports`: a report of exactly the bad bytes is accepted.
- `appendZeroRange_ok`, `appendZeroRange_coveredBy`: evidence stays well formed and
  grows by exactly the new range.
- `readableRanges_ascending`, `readableRanges_coveredBy`: the complement of the
  evidence.
-/

namespace Undelete.Restore

open Except IntervalLike

instance : IntervalLike ZeroFilledRange where
  start r := r.logicalOffset
  len r := r.len

instance : IntervalLike ContentSegment where
  start s := s.logicalOffset
  len s := s.len

instance : IntervalLike ManifestRange where
  start r := r.logicalOffset
  len r := r.length

/-! ## Zero-fill evidence -/

/-- Zero-fill evidence below `limit`: in order, disjoint, and no two ranges of one
    reason touch. -/
structure EvidenceOk (ranges : List ZeroFilledRange) (limit : Nat) : Prop where
  ascending : Ascending ranges 0 limit
  maximal : ranges.Pairwise fun a b => stop a = start b → a.reason ≠ b.reason

theorem EvidenceOk.mono {ranges : List ZeroFilledRange} {limit limit' : Nat}
    (h : EvidenceOk ranges limit) (hle : limit ≤ limit') : EvidenceOk ranges limit' :=
  ⟨h.ascending.mono_right hle, h.maximal⟩

/-- What `appendZeroRange` can do: grow the last range, or push a new one. -/
theorem appendZeroRange_cases {ranges ranges' : List ZeroFilledRange} {next : ZeroFilledRange}
    (h : appendZeroRange ranges next = .ok ranges') :
    (∃ init last, ranges = init ++ [last] ∧ stop last = start next ∧ last.reason = next.reason ∧
      ranges' = init ++ [{ last with len := last.len + next.len }]) ∨
    ((∀ last ∈ ranges.getLast?, ¬(stop last = start next ∧ last.reason = next.reason)) ∧
      ranges' = ranges ++ [next]) := by
  simp only [appendZeroRange] at h
  cases hlast : ranges.getLast? with
  | none =>
    simp only [hlast] at h
    split at h
    · cases h
    · cases h; exact .inr ⟨by simp, rfl⟩
  | some last =>
    obtain ⟨init, rfl⟩ := List.getLast?_eq_some_iff.mp hlast
    simp only [hlast, List.dropLast_concat] at h
    by_cases hjoin : last.logicalOffset + last.len = next.logicalOffset ∧ last.reason = next.reason
    · simp only [hjoin, and_self, if_true, ok.injEq] at h
      exact .inl ⟨init, last, rfl, hjoin.1, hjoin.2, by rw [← h, hjoin.2]⟩
    · simp only [if_neg hjoin] at h
      split at h
      · cases h
      · cases h
        refine .inr ⟨?_, rfl⟩
        rintro _ ⟨⟩
        exact hjoin

/-- Appending a range past the evidence keeps the evidence well formed. -/
theorem appendZeroRange_ok {ranges ranges' : List ZeroFilledRange} {next : ZeroFilledRange}
    {limit : Nat} (h : appendZeroRange ranges next = .ok ranges') (hok : EvidenceOk ranges limit)
    (hnext : limit ≤ start next) (hlen : 0 < len next) : EvidenceOk ranges' (stop next) := by
  obtain ⟨hasc, hmax⟩ := hok
  rcases appendZeroRange_cases h with ⟨init, last, rfl, hjoin, hreason, rfl⟩ | ⟨hnot, rfl⟩
  · obtain ⟨b, hinit, hstart, hpos, _⟩ := ascending_append.mp hasc
    have hstop : last.logicalOffset + (last.len + next.len) = next.logicalOffset + next.len := by
      have : last.logicalOffset + last.len = next.logicalOffset := hjoin
      omega
    constructor
    · exact ascending_append.mpr
        ⟨b, hinit, hstart, Nat.lt_of_lt_of_le hpos (Nat.le_add_right _ _), Nat.le_of_eq hstop⟩
    · rw [List.pairwise_append] at hmax ⊢
      refine ⟨hmax.1, List.pairwise_singleton _ _, ?_⟩
      intro a ha b hb
      rw [List.mem_singleton.mp hb]
      exact hmax.2.2 a ha last (List.mem_singleton_self last)
  · constructor
    · exact ascending_append.mpr ⟨limit, hasc, hnext, hlen, Nat.le_refl _⟩
    · refine List.pairwise_append.mpr ⟨hmax, List.pairwise_singleton _ _, ?_⟩
      intro a ha b hb hadj
      rw [List.mem_singleton.mp hb] at hadj ⊢
      -- A range that ends where the new one starts can only be the last one.
      obtain ⟨init, last, rfl⟩ := ranges.eq_nil_or_concat'.resolve_left (List.ne_nil_of_mem ha)
      obtain ⟨c, hinit, _, hpos, hstop⟩ := ascending_append.mp hasc
      rcases List.mem_append.mp ha with ha | ha
      · have hbefore := (hinit.bounds ha).2.2
        simp only [stop, Ascending] at *
        omega
      · obtain rfl := List.mem_singleton.mp ha
        intro hreason
        exact hnot a (by simp) ⟨hadj, hreason⟩

theorem appendZeroRange_coveredBy {ranges ranges' : List ZeroFilledRange}
    {next : ZeroFilledRange} (h : appendZeroRange ranges next = .ok ranges') (i : Nat) :
    CoveredBy ranges' i ↔ CoveredBy ranges i ∨ Covers next i := by
  rcases appendZeroRange_cases h with ⟨init, last, rfl, hjoin, _, rfl⟩ | ⟨_, rfl⟩
  · have hjoin : last.logicalOffset + last.len = next.logicalOffset := hjoin
    simp only [coveredBy_append, coveredBy_cons, not_coveredBy_nil, or_false, or_assoc]
    apply or_congr_right
    simp only [Covers, stop, start, len]
    omega
  · simp

/-- Appending adds the new range's reason and no other. -/
theorem appendZeroRange_reason {ranges ranges' : List ZeroFilledRange} {next : ZeroFilledRange}
    (h : appendZeroRange ranges next = .ok ranges') (p : ZeroFillReason → Prop) :
    (∃ r ∈ ranges', p r.reason) ↔ (∃ r ∈ ranges, p r.reason) ∨ p next.reason := by
  rcases appendZeroRange_cases h with ⟨init, last, rfl, _, hreason, rfl⟩ | ⟨_, rfl⟩
  · simp [hreason, or_and_right, exists_or]
  · simp [or_and_right, exists_or]

/-! ## Failed sub-ranges of a read -/

instance : Std.Total badRangeOrder where
  total a b := by simp only [badRangeOrder]; omega

instance : IsTrans (Nat × Nat) badRangeOrder where
  trans a b c := by simp only [badRangeOrder]; omega

/-- The bytes a read reports as failed: its ranges are `(offset, len)` pairs. -/
def ReportedBad (badRanges : List (Nat × Nat)) (i : Nat) : Prop :=
  ∃ r ∈ badRanges, r.1 ≤ i ∧ i < r.1 + r.2

theorem checkBadRanges_ok {requestedLen : Nat} {badRanges : List (Nat × Nat)}
    (h : checkBadRanges requestedLen badRanges = .ok ()) :
    ∀ r ∈ badRanges, 0 < r.2 ∧ r.1 + r.2 ≤ requestedLen := by
  induction badRanges with
  | nil => intro r hr; cases hr
  | cons range ranges ih =>
    simp only [checkBadRanges, bind_eq_ok, throw_bind, ite_throw_eq_ok, okOr_eq_ok] at h
    obtain ⟨stop, hstop, hbounds, hrest⟩ := h
    obtain ⟨_, rfl⟩ := U64.checkedAdd_eq_some.mp hstop
    intro r hr
    rcases List.mem_cons.mp hr with rfl | hr
    · omega
    · exact ih hrest r hr

theorem mergeBadRangesFrom_ascending {requestedLen : Nat} (last : Nat × Nat)
    {ranges : List (Nat × Nat)} (hlast : last.1 < last.2 ∧ last.2 ≤ requestedLen)
    (hranges : ∀ r ∈ ranges, 0 < r.2 ∧ r.1 + r.2 ≤ requestedLen) :
    Ascending (mergeBadRangesFrom last ranges) last.1 requestedLen := by
  induction ranges generalizing last with
  | nil =>
    simp only [mergeBadRangesFrom, ascending_singleton, stop, start, len]
    omega
  | cons range ranges ih =>
    have hrange := hranges range List.mem_cons_self
    have hrest := fun r hr => hranges r (List.mem_cons_of_mem range hr)
    simp only [mergeBadRangesFrom]
    split
    · exact ih (last.1, max last.2 (range.1 + range.2)) (by simp only; omega) hrest
    · have hmerged := ih (range.1, range.1 + range.2) (by simp only; omega) hrest
      refine ⟨Nat.le_refl _, ?_, hmerged.mono_left ?_⟩ <;>
        simp only [stop, start, len] <;> omega

theorem mergeBadRangesFrom_coveredBy (last : Nat × Nat) {ranges : List (Nat × Nat)}
    (hlast : last.1 < last.2) (hsorted : ∀ r ∈ ranges, last.1 ≤ r.1)
    (hpairwise : ranges.Pairwise fun a b => a.1 ≤ b.1) (hlen : ∀ r ∈ ranges, 0 < r.2) (i : Nat) :
    CoveredBy (mergeBadRangesFrom last ranges) i ↔
      (last.1 ≤ i ∧ i < last.2) ∨ ReportedBad ranges i := by
  induction ranges generalizing last with
  | nil =>
    simp only [mergeBadRangesFrom, coveredBy_cons, not_coveredBy_nil, ReportedBad, Covers, stop,
      start, len, List.not_mem_nil, false_and, exists_false, or_false]
    omega
  | cons range ranges ih =>
    obtain ⟨hhead, htail⟩ := List.pairwise_cons.mp hpairwise
    have hpos := hlen range List.mem_cons_self
    have hrest := fun r hr => hlen r (List.mem_cons_of_mem range hr)
    have hstart := hsorted range List.mem_cons_self
    have hreported : ReportedBad (range :: ranges) i ↔
        (range.1 ≤ i ∧ i < range.1 + range.2) ∨ ReportedBad ranges i := by
      simp [ReportedBad]
    rw [hreported]
    simp only [mergeBadRangesFrom]
    split
    · next htouch =>
      rw [ih (last.1, max last.2 (range.1 + range.2)) (by simp only; omega)
        (fun r hr => Nat.le_trans hstart (hhead r hr)) htail hrest, ← or_assoc]
      apply or_congr_left
      simp only
      omega
    · rw [coveredBy_cons, ih (range.1, range.1 + range.2) (by simp only; omega) hhead
        htail hrest]
      apply or_congr_left
      simp only [Covers, stop, start, len]
      omega

/-- Sorting and merging keeps the bytes of the ranges, and puts them in order. -/
theorem mergeBadRanges_ok {requestedLen : Nat} {badRanges : List (Nat × Nat)}
    (hbounds : ∀ r ∈ badRanges, 0 < r.2 ∧ r.1 + r.2 ≤ requestedLen) :
    Ascending (mergeBadRanges (badRanges.insertionSort badRangeOrder)) 0 requestedLen ∧
      ∀ i, CoveredBy (mergeBadRanges (badRanges.insertionSort badRangeOrder)) i ↔
        ReportedBad badRanges i := by
  have hmem : ∀ r, r ∈ badRanges.insertionSort badRangeOrder ↔ r ∈ badRanges :=
    fun r => List.mem_insertionSort badRangeOrder
  have hsorted : (badRanges.insertionSort badRangeOrder).Pairwise fun a b => a.1 ≤ b.1 :=
    (List.pairwise_insertionSort badRangeOrder _).imp
      fun hab => by simp only [badRangeOrder] at hab; omega
  have hreported : ∀ i, ReportedBad (badRanges.insertionSort badRangeOrder) i ↔
      ReportedBad badRanges i := by
    intro i; simp only [ReportedBad, hmem]
  simp only [← hreported, ← hmem] at hbounds ⊢
  generalize badRanges.insertionSort badRangeOrder = sorted at *
  cases sorted with
  | nil => exact ⟨Nat.zero_le _, fun i => by simp [mergeBadRanges, ReportedBad]⟩
  | cons first rest =>
    obtain ⟨hpos, hend⟩ := hbounds first List.mem_cons_self
    have hrest := fun r hr => hbounds r (List.mem_cons_of_mem first hr)
    obtain ⟨hhead, htail⟩ := List.pairwise_cons.mp hsorted
    constructor
    · exact (mergeBadRangesFrom_ascending (first.1, first.1 + first.2)
        (by simp only; omega) hrest).mono_left (Nat.zero_le _)
    · intro i
      rw [mergeBadRanges, mergeBadRangesFrom_coveredBy (first.1, first.1 + first.2)
        (by simp only; omega) hhead htail (fun r hr => (hrest r hr).1)]
      simp [ReportedBad]

/-- Accepted read reports become ascending ranges over exactly the reported bytes. -/
theorem normalizeBadRanges_ok {requestedLen : Nat} {outcome : ReadOutcome}
    {ranges : List (Nat × Nat)} (h : normalizeBadRanges requestedLen outcome = .ok ranges) :
    Ascending ranges 0 requestedLen ∧
      ∀ i, CoveredBy ranges i ↔ ReportedBad outcome.badRanges i := by
  simp only [normalizeBadRanges, bind_eq_ok, throw_bind, ite_throw_eq_ok, okOr_eq_ok,
    pure_eq_ok] at h
  obtain ⟨_, _, hcheck, _, _, _, rfl⟩ := h
  exact mergeBadRanges_ok (checkBadRanges_ok hcheck)

/-! ## Reports of a source -/

/-- The answer of a best-effort read of `requestedLen` bytes tells which of them are bad: its
    ranges lie inside the request and cover exactly these bytes, and the other bytes are
    counted and delivered. -/
structure Reports (byte : Nat → UInt8) (bad : Nat → Prop) [DecidablePred bad]
    (offset requestedLen : Nat) (answer : Bytes × ReadOutcome) : Prop where
  inside : ∀ r ∈ answer.2.badRanges, 0 < r.2 ∧ r.1 + r.2 ≤ requestedLen
  count : answer.2.badRanges.length ≤ requestedLen
  reported : ∀ i < requestedLen, ReportedBad answer.2.badRanges i ↔ bad (offset + i)
  bytesValid : answer.2.bytesValid =
    (List.range requestedLen).countP fun i => ¬bad (offset + i)
  good : ∀ i < requestedLen, ¬bad (offset + i) → answer.1[i]? = some (byte (offset + i))

/-- Ranges inside the request are accepted. -/
theorem checkBadRanges_inside {requestedLen : Nat} {badRanges : List (Nat × Nat)}
    (hlen : requestedLen < 2 ^ 64)
    (h : ∀ r ∈ badRanges, 0 < r.2 ∧ r.1 + r.2 ≤ requestedLen) :
    checkBadRanges requestedLen badRanges = .ok () := by
  induction badRanges with
  | nil => rfl
  | cons range rest ih =>
    obtain ⟨hpos, hend⟩ := h range List.mem_cons_self
    have hbounds : ¬(range.2 = 0 ∨ range.1 + range.2 > requestedLen) := by omega
    rw [checkBadRanges, U64.checkedAdd_of_lt (by omega)]
    simp only [okOr, bind_ok, if_neg hbounds]
    exact ih fun r hr => h r (List.mem_cons_of_mem range hr)

/-- The bytes of ascending ranges are counted without overflow. -/
theorem badBytes_eq {requestedLen first acc : Nat} {ranges : List (Nat × Nat)}
    (hlt : acc + total ranges < 2 ^ 64) (hascending : Ascending ranges first requestedLen) :
    ranges.foldlM (fun total range => U64.checkedAdd total (range.2 - range.1)) acc =
      some (acc + total ranges) := by
  induction ranges generalizing first acc with
  | nil => rfl
  | cons range ranges ih =>
    obtain ⟨_, hlen, hrest⟩ := hascending
    rw [total_cons] at hlt ⊢
    have hadd : U64.checkedAdd acc (range.2 - range.1) = some (acc + len range) :=
      U64.checkedAdd_of_lt (show acc + len range < 2 ^ 64 by omega)
    rw [List.foldlM_cons, hadd]
    show ranges.foldlM _ (acc + len range) = _
    rw [ih (by omega) hrest, Nat.add_assoc]

/-- A report of the bad bytes of a request is accepted, and its ranges are these bytes. -/
theorem normalizeBadRanges_reports {byte : Nat → UInt8} {bad : Nat → Prop} [DecidablePred bad]
    {offset requestedLen : Nat} {answer : Bytes × ReadOutcome}
    (h : Reports byte bad offset requestedLen answer) (hlen : requestedLen < 2 ^ 64) :
    ∃ ranges, normalizeBadRanges requestedLen answer.2 = .ok ranges ∧
      Ascending ranges 0 requestedLen ∧
      ∀ i < requestedLen, CoveredBy ranges i ↔ bad (offset + i) := by
  obtain ⟨hascending, hcovered⟩ := mergeBadRanges_ok h.inside
  generalize hranges : mergeBadRanges (answer.2.badRanges.insertionSort badRangeOrder) = ranges
    at hascending hcovered
  have hbad : ∀ i < requestedLen, CoveredBy ranges i ↔ bad (offset + i) :=
    fun i hi => (hcovered i).trans (h.reported i hi)
  refine ⟨ranges, ?_, hascending, hbad⟩
  have hcount : total ranges =
      (List.range requestedLen).countP fun i => decide (bad (offset + i)) := by
    rw [List.range_eq_range', ← Nat.sub_zero requestedLen]
    exact hascending.total_eq_countP fun i _ hi => by
      rw [decide_eq_true_eq]
      exact (hbad i hi).symm
  have hle := hascending.total_le
  have hvalid : answer.2.bytesValid = requestedLen - total ranges := by
    have hsplit := List.length_eq_countP_add_countP (fun i => decide (bad (offset + i)))
      (l := List.range requestedLen)
    rw [List.length_range, ← hcount] at hsplit
    rw [h.bytesValid]
    simp only [decide_eq_true_eq, decide_not] at hsplit ⊢
    omega
  have hbytes : badBytes ranges = some (total ranges) := by
    have := badBytes_eq (show 0 + total ranges < 2 ^ 64 by omega) hascending
    rwa [Nat.zero_add] at this
  simp only [normalizeBadRanges, throw_bind, checkBadRanges_inside hlen h.inside, bind_ok, hranges,
    hbytes, okOr]
  rw [if_neg (Nat.not_lt.mpr h.count), if_neg (fun hne => hne hvalid)]
  rfl

/-! ## Readable ranges -/

/-- Between ascending evidence ranges that end below `2 ^ 64`, the readable ranges are
    ascending and cover exactly the rest. -/
theorem readableRangesFrom_ok {logicalSize cursor : Nat} {zeroRanges : List ZeroFilledRange}
    (hsize : logicalSize < 2 ^ 64) (h : Ascending zeroRanges cursor logicalSize) :
    Ascending (readableRangesFrom logicalSize zeroRanges cursor) cursor logicalSize ∧
    ∀ i, CoveredBy (readableRangesFrom logicalSize zeroRanges cursor) i ↔
      (cursor ≤ i ∧ i < logicalSize) ∧ ¬CoveredBy zeroRanges i := by
  induction zeroRanges generalizing cursor with
  | nil =>
    have hle : cursor ≤ logicalSize := h
    simp only [readableRangesFrom, not_coveredBy_nil, not_false_eq_true, and_true]
    split
    · next hlt =>
      simp only [ascending_singleton, coveredBy_cons, not_coveredBy_nil, or_false, Covers, stop,
        start, len]
      exact ⟨by omega, fun i => by omega⟩
    · exact ⟨hle, fun i => by simp only [not_coveredBy_nil, false_iff]; omega⟩
  | cons range ranges ih =>
    obtain ⟨hstart, hlen, hrest⟩ := h
    obtain ⟨ihasc, ihcov⟩ := ih hrest
    have hnext : min ((U64.checkedAdd range.logicalOffset range.len).getD logicalSize)
        logicalSize = stop range := by
      have hle : range.logicalOffset + range.len ≤ logicalSize := hrest.le
      rw [U64.checkedAdd_of_lt (Nat.lt_of_le_of_lt hle hsize)]
      exact Nat.min_eq_left hle
    simp only [readableRangesFrom, hnext]
    have hbefore : range.logicalOffset ≤ stop range := Nat.le_add_right _ _
    have hafter : ∀ i, CoveredBy ranges i → stop range ≤ i :=
      fun i hi => (hrest.lt_of_coveredBy hi).1
    have hstart : cursor ≤ range.logicalOffset := hstart
    constructor
    · split
      · exact ascending_append.mpr ⟨range.logicalOffset,
          ⟨Nat.le_refl _, by simp only [len]; omega, by
            simp only [stop, start, len, Ascending]; omega⟩,
          ihasc.mono_left hbefore⟩
      · exact ihasc.mono_left (by omega)
    · intro i
      have hle : stop range ≤ logicalSize := hrest.le
      have hcover : Covers range i ↔ range.logicalOffset ≤ i ∧ i < stop range := Iff.rfl
      rw [coveredBy_append, ihcov, coveredBy_cons, hcover]
      have hgap : CoveredBy (if cursor < range.logicalOffset then
          [(⟨cursor, range.logicalOffset - cursor⟩ : ManifestRange)] else []) i ↔
          cursor ≤ i ∧ i < range.logicalOffset := by
        split
        · simp only [coveredBy_cons, not_coveredBy_nil, or_false, Covers, stop, start, len]
          omega
        · simp only [not_coveredBy_nil, false_iff]
          omega
      rw [hgap]
      by_cases hi : CoveredBy ranges i
      · have := hafter i hi
        simp only [hi, not_true_eq_false, and_false, or_true, or_false, iff_false]
        omega
      · simp only [hi, not_false_eq_true, and_true, or_false]
        omega

theorem readableRanges_ascending {logicalSize : Nat} {zeroRanges : List ZeroFilledRange}
    (hsize : logicalSize < 2 ^ 64) (h : Ascending zeroRanges 0 logicalSize) :
    Ascending (readableRanges logicalSize zeroRanges) 0 logicalSize :=
  (readableRangesFrom_ok hsize h).1

theorem readableRanges_coveredBy {logicalSize : Nat} {zeroRanges : List ZeroFilledRange}
    (hsize : logicalSize < 2 ^ 64) (h : Ascending zeroRanges 0 logicalSize) (i : Nat) :
    CoveredBy (readableRanges logicalSize zeroRanges) i ↔
      i < logicalSize ∧ ¬CoveredBy zeroRanges i := by
  rw [readableRanges, (readableRangesFrom_ok hsize h).2]
  simp

end Undelete.Restore
