import Undelete.Native.Extract
import Undelete.Spec.PlanTargets

/-!
# Direct extraction by byte

`extractCandidate` fills each byte of the file from its target: the byte the source stores
there, or a zero. On a source with a fixed set of bad bytes the missing ranges are exactly
the bytes whose target is bad, or no byte of the source and not sparse.

## Key results

- `extractExtent_extracted`: one extent of the loop.
- `missingRangesFrom_iff`, `missingRangesFrom_maximal`: the scan for missing ranges.
- `extractCandidate_targets`: the whole extraction.
-/

namespace Undelete

open IntervalLike
open Restore (ByteTarget Target extentTarget Mapped ReportedBad fillReason)

/-! ## Sources with bad bytes -/

/-- The answer of a best-effort read of `len` bytes at `offset`: the bad bytes are zeros, and
    the report names exactly them. -/
structure ExactAnswer (byte : Nat → UInt8) (bad : Nat → Bool) (offset len : Nat)
    (answer : Bytes × ReadOutcome) : Prop where
  data : ∀ i < len, answer.1[i]? = some (if bad (offset + i) then 0 else byte (offset + i))
  inside : ∀ r ∈ answer.2.badRanges, 0 < r.2 ∧ r.1 + r.2 ≤ len
  count_le : answer.2.badRanges.length ≤ len
  reported : ∀ i < len, ReportedBad answer.2.badRanges i ↔ bad (offset + i) = true
  bytesValid_eq : answer.2.bytesValid = (List.range len).countP fun i => !bad (offset + i)

theorem ExactAnswer.reports {byte : Nat → UInt8} {bad : Nat → Bool} {offset len : Nat}
    {answer : Bytes × ReadOutcome} (h : ExactAnswer byte bad offset len answer) :
    Restore.Reports byte (bad · = true) offset len answer where
  inside := h.inside
  count := h.count_le
  reported := h.reported
  bytesValid := by
    rw [h.bytesValid_eq]
    congr 1
    funext i
    simp
  good i hi hgood := by
    rw [h.data i hi, if_neg hgood]

/-- A source of the bytes `byte` with a fixed set of bad bytes, reported exactly. -/
def SourceReader.Exact (reader : SourceReader) (byte : Nat → UInt8) (bad : Nat → Bool) : Prop :=
  ∀ offset buffer, offset + buffer.length ≤ reader.len →
    ExactAnswer byte bad offset buffer.length (reader.readBestEffortAt offset buffer)

/-- The byte of the file that a target stands for. -/
def Restore.ByteTarget.value (byte : Nat → UInt8) (bad : Nat → Bool) : ByteTarget → UInt8
  | .stored p _ => if bad p then 0 else byte p
  | .filled _ => 0

/-- The byte is the original one: it was read, or it was never stored. -/
def Restore.ByteTarget.present (bad : Nat → Bool) : ByteTarget → Bool
  | .stored p _ => !bad p
  | .filled reason => reason = .sparse

/-! ## Flag vectors -/

theorem length_setFlags {flags : List Bool} {lo hi : Nat} (hlo : lo ≤ hi)
    (hhi : hi ≤ flags.length) : (setFlags flags lo hi).length = flags.length := by
  simp only [setFlags, List.length_append, List.length_take, List.length_replicate,
    List.length_drop]
  omega

theorem getElem?_setFlags {flags : List Bool} {lo hi : Nat} (hlo : lo ≤ hi)
    (hhi : hi ≤ flags.length) (i : Nat) :
    (setFlags flags lo hi)[i]? = if lo ≤ i ∧ i < hi then some true else flags[i]? := by
  have htake : (flags.take lo).length = lo := by
    rw [List.length_take]
    omega
  have hfront : (flags.take lo ++ List.replicate (hi - lo) true).length = hi := by
    rw [List.length_append, htake, List.length_replicate]
    omega
  rw [setFlags]
  by_cases hbefore : i < hi
  · rw [List.getElem?_append_left (by omega)]
    by_cases hfirst : i < lo
    · rw [List.getElem?_append_left (by omega), List.getElem?_take_of_lt hfirst,
        if_neg (by omega)]
    · rw [List.getElem?_append_right (by omega), htake,
        List.getElem?_replicate_of_lt (by omega), if_pos (by omega)]
  · rw [List.getElem?_append_right (by omega), hfront, List.getElem?_drop,
      if_neg (by omega)]
    congr 1
    omega

/-- The bad flags are those of the reported bytes. -/
theorem badFlags_iff {readLen : Nat} {badRanges : List (Nat × Nat)} (hlt : readLen < 2 ^ 64)
    (hinside : ∀ r ∈ badRanges, 0 < r.2 ∧ r.1 + r.2 ≤ readLen) :
    (badFlags readLen badRanges).length = readLen ∧
      ∀ i < readLen, (badFlags readLen badRanges)[i]? = some true ↔ ReportedBad badRanges i := by
  -- the fold for any flags already set
  have hfold : ∀ (ranges : List (Nat × Nat)) (flags : List Bool), flags.length = readLen →
      (∀ r ∈ ranges, 0 < r.2 ∧ r.1 + r.2 ≤ readLen) →
      (ranges.foldl (fun bad range => setFlags bad (min range.1 readLen)
          (min (U64.saturatingAdd range.1 range.2) readLen)) flags).length = readLen ∧
        ∀ i < readLen, (ranges.foldl (fun bad range => setFlags bad (min range.1 readLen)
            (min (U64.saturatingAdd range.1 range.2) readLen)) flags)[i]? = some true ↔
          flags[i]? = some true ∨ ReportedBad ranges i := by
    intro ranges
    induction ranges with
    | nil =>
      intro flags hlength _
      exact ⟨hlength, fun i _ => by simp [ReportedBad]⟩
    | cons range ranges ih =>
      intro flags hlength hinside
      obtain ⟨hpos, hend⟩ := hinside range List.mem_cons_self
      have hlo : min range.1 readLen = range.1 := by omega
      have hhi : min (U64.saturatingAdd range.1 range.2) readLen = range.1 + range.2 := by
        rw [U64.saturatingAdd_of_lt (by omega)]
        omega
      have hset := @getElem?_setFlags flags _ _ (Nat.le_add_right range.1 range.2)
        (by omega)
      have hsetLength := @length_setFlags flags _ _ (Nat.le_add_right range.1 range.2)
        (by omega)
      rw [List.foldl_cons, hlo, hhi]
      obtain ⟨hrestLength, hrest⟩ := ih (setFlags flags range.1 (range.1 + range.2))
        (hsetLength.trans hlength) fun r hr => hinside r (List.mem_cons_of_mem range hr)
      refine ⟨hrestLength, fun i hi => ?_⟩
      have hcons : ReportedBad (range :: ranges) i ↔
          (range.1 ≤ i ∧ i < range.1 + range.2) ∨ ReportedBad ranges i := by
        simp [ReportedBad]
      rw [hrest i hi, hset, hcons]
      split
      · next hin => simp [hin]
      · next hout => simp [hout]
  obtain ⟨hlength, hiff⟩ := hfold badRanges (List.replicate readLen false)
    List.length_replicate hinside
  refine ⟨hlength, fun i hi => ?_⟩
  rw [badFlags, hiff i hi, List.getElem?_replicate_of_lt hi]
  simp

theorem getElem?_coverGood {covered bad : List Bool} {lo i : Nat} :
    (coverGood covered lo bad)[i]? = covered[i]?.map fun flag =>
      if lo ≤ i ∧ i < lo + bad.length ∧ bad.getD (i - lo) true = false then true else flag := by
  rw [coverGood, List.getElem?_mapIdx]

/-! ## The extent loop -/

variable {reader : SourceReader} {byte : Nat → UInt8} {bad : Nat → Bool} {size : Nat}

/-- The buffer holds the targets of the extents, and the flags say which are original. -/
structure Extracted (byte : Nat → UInt8) (bad : Nat → Bool) (size : Nat)
    (extents : List ExtentRun) (st : ExtractState) : Prop where
  length_bytes : st.bytes.length = size
  length_covered : st.covered.length = size
  targets : ∀ i < size, ∀ t, Target extents i t →
    st.bytes[i]? = some (t.value byte bad) ∧ st.covered[i]? = some (t.present bad)

/-- What extraction reads of an extent: it lies inside the file and, where it is read, inside
    the source. -/
structure Extractable (reader : SourceReader) (size : Nat) (e : ExtentRun) : Prop where
  inside : e.logicalOffset + e.len ≤ size
  available : e.availability = .freeInSnapshot ∨ e.availability = .resident ∨
    e.availability = .sparse
  stored : ∀ p, e.physicalOffset = some p → p + e.len ≤ reader.len

/-- A byte of one more extent was missing before; the other bytes keep their targets. -/
theorem target_of_append {extents : List ExtentRun} {e : ExtentRun} {i : Nat} {t : ByteTarget}
    (hapart : ∀ e' ∈ extents, Apart e' e) (h : Target (extents ++ [e]) i t) :
    (Covers e i ∧ extentTarget e i = t ∧ Target extents i (.filled .missingExtent)) ∨
      ¬Covers e i ∧ Target extents i t := by
  by_cases hcovers : Covers e i
  · have hgap : ¬CoveredBy extents i := by
      rintro ⟨e', he', hcovers'⟩
      have := hapart e' he'
      simp only [Covers, Apart] at hcovers hcovers' this
      omega
    rcases h with ⟨e', he', hcovers', htarget⟩ | ⟨hnone, _⟩
    · rcases List.mem_append.mp he' with he' | he'
      · exact absurd ⟨e', he', hcovers'⟩ hgap
      · rw [List.mem_singleton.mp he'] at htarget
        exact .inl ⟨hcovers, htarget, .inr ⟨hgap, rfl⟩⟩
    · exact absurd ((coveredBy_append _ _ i).mpr (.inr ⟨e, List.mem_cons_self, hcovers⟩)) hnone
  · right
    refine ⟨hcovers, ?_⟩
    rcases h with ⟨e', he', hcovers', htarget⟩ | ⟨hnone, htarget⟩
    · rcases List.mem_append.mp he' with he' | he'
      · exact .inl ⟨e', he', hcovers', htarget⟩
      · rw [List.mem_singleton.mp he'] at hcovers'
        exact absurd hcovers' hcovers
    · exact .inr ⟨fun hcovered => hnone ((coveredBy_append _ _ i).mpr (.inl hcovered)), htarget⟩

/-- The flags after a read: a byte is covered unless it is bad. -/
theorem getElem?_covered {covered : List Bool} {answer : Bytes × ReadOutcome} {lo hi p i : Nat}
    (hlo : lo ≤ hi) (hhi : hi ≤ covered.length) (hlt : hi < 2 ^ 64)
    (hanswer : ExactAnswer byte bad p (hi - lo) answer) (hi' : i < covered.length)
    (hfalse : lo ≤ i → i < hi → covered[i]? = some false) :
    (if answer.2.badRanges.isEmpty then setFlags covered lo hi
      else coverGood covered lo (badFlags (hi - lo) answer.2.badRanges))[i]? =
    if lo ≤ i ∧ i < hi then some (!bad (p + (i - lo))) else covered[i]? := by
  have hreported : lo ≤ i → i < hi →
      (ReportedBad answer.2.badRanges (i - lo) ↔ bad (p + (i - lo)) = true) := fun h h' =>
    hanswer.reported (i - lo) (by omega)
  -- a clean answer covers its whole range at once
  by_cases hempty : answer.2.badRanges = []
  · rw [hempty, List.isEmpty_nil, if_pos rfl, getElem?_setFlags hlo hhi]
    split
    · next hin =>
      have hgood : ¬bad (p + (i - lo)) = true := by
        rw [← hreported hin.1 hin.2, hempty]
        simp [ReportedBad]
      rw [Bool.eq_false_iff.mpr hgood]
      rfl
    · rfl
  · rw [if_neg (by simpa using hempty), getElem?_coverGood]
    obtain ⟨hlength, hflags⟩ := @badFlags_iff (hi - lo) _ (by omega) hanswer.inside
    rw [hlength]
    by_cases hin : lo ≤ i ∧ i < hi
    · rw [if_pos hin, hfalse hin.1 hin.2, Option.map_some]
      have hflag := hflags (i - lo) (by omega)
      rw [hreported hin.1 hin.2, List.getElem?_eq_getElem (by omega), Option.some.injEq] at hflag
      rw [List.getD_eq_getElem?_getD, List.getElem?_eq_getElem (by omega), Option.getD_some]
      cases hbad : bad (p + (i - lo)) with
      | true =>
        rw [hflag.mpr hbad, if_neg (by simp)]
        rfl
      | false =>
        have hclear := Bool.eq_false_iff.mpr fun h => Bool.eq_false_iff.mp hbad (hflag.mp h)
        rw [hclear, if_pos ⟨hin.1, by omega, rfl⟩]
        rfl
    · rw [if_neg hin, List.getElem?_eq_getElem hi', Option.map_some,
        if_neg fun h => hin ⟨h.1, by omega⟩]

/-- The buffer after a read into `bytes[lo..hi]`. -/
theorem getElem?_written {bytes data : Bytes} {lo hi : Nat} (i : Nat) (hlo : lo ≤ hi)
    (hhi : hi ≤ bytes.length) (hdata : data.length = hi - lo) :
    (bytes.take lo ++ data ++ bytes.drop hi)[i]? =
      if lo ≤ i ∧ i < hi then data[i - lo]? else bytes[i]? := by
  have htake : (bytes.take lo).length = lo := by
    rw [List.length_take]
    omega
  by_cases hbefore : i < hi
  · rw [List.getElem?_append_left (by rw [List.length_append]; omega)]
    by_cases hfirst : i < lo
    · rw [List.getElem?_append_left (by omega), List.getElem?_take_of_lt hfirst,
        if_neg (by omega)]
    · rw [List.getElem?_append_right (by omega), htake, if_pos (by omega)]
  · rw [List.getElem?_append_right (by rw [List.length_append]; omega), List.length_append, htake,
      hdata, List.getElem?_drop, if_neg (by omega)]
    congr 1
    omega

/-- One extent of the loop. -/
theorem extractExtent_extracted {extents : List ExtentRun} {e : ExtentRun} {st : ExtractState}
    (hexact : reader.Exact byte bad) (hsize : size < 2 ^ 64) (he : Extractable reader size e)
    (hapart : ∀ e' ∈ extents, Apart e' e) (h : Extracted byte bad size extents st) :
    Extracted byte bad size (extents ++ [e]) (extractExtent reader size st e) := by
  have hinside := he.inside
  have hbytes := h.length_bytes
  have hcovered := h.length_covered
  have hlo : min e.logicalOffset size = e.logicalOffset := by omega
  have hhi : min (U64.saturatingAdd e.logicalOffset e.len) size = e.logicalOffset + e.len := by
    rw [U64.saturatingAdd_of_lt (by omega)]
    omega
  have hsub : e.logicalOffset + e.len - e.logicalOffset = e.len := by omega
  have hcovers : ∀ i, Covers e i ↔ e.logicalOffset ≤ i ∧ i < e.logicalOffset + e.len :=
    fun i => Iff.rfl
  -- the bytes of the extent were missing, the targets of the others stay
  have hmissing : ∀ i < size, Target extents i (.filled .missingExtent) →
      st.bytes[i]? = some 0 ∧ st.covered[i]? = some false := fun i hi ht => h.targets i hi _ ht
  simp only [extractExtent, hlo, hhi]
  split
  · next hempty =>
    refine ⟨hbytes, hcovered, fun i hi t ht => ?_⟩
    rcases target_of_append hapart ht with ⟨hc, _⟩ | ⟨_, ht⟩
    · rw [hcovers] at hc
      omega
    · exact h.targets i hi t ht
  · next hpos =>
    split
    · next havail =>
      refine ⟨hbytes, ?_, fun i hi t ht => ?_⟩
      · rw [← hcovered]
        exact length_setFlags (by omega) (by omega)
      · simp only [getElem?_setFlags (show e.logicalOffset ≤ e.logicalOffset + e.len by omega)
          (show e.logicalOffset + e.len ≤ st.covered.length by omega)]
        rcases target_of_append hapart ht with ⟨hc, rfl, hm⟩ | ⟨hc, ht⟩
        · have htarget : extentTarget e i = .filled .sparse := by
            have hnot : ¬Mapped e := by simp [Mapped, havail]
            rw [extentTarget, if_neg hnot, havail]
            rfl
          rw [if_pos ((hcovers i).mp hc), htarget, (hmissing i hi hm).1]
          exact ⟨rfl, rfl⟩
        · rw [if_neg (mt (hcovers i).mpr hc)]
          exact h.targets i hi t ht
    · next hnot =>
      have havail : e.availability = .freeInSnapshot ∨ e.availability = .resident := by
        rcases he.available with ha | ha | ha
        · exact .inl ha
        · exact .inr ha
        · exact absurd ha hnot
      split
      · next p hp =>
        have hstored := he.stored p hp
        have hslice : (Bytes.slice st.bytes e.logicalOffset
            (e.logicalOffset + e.len)).length = e.len := by
          rw [Bytes.length_slice]
          omega
        have hanswer := hexact p (Bytes.slice st.bytes e.logicalOffset
          (e.logicalOffset + e.len)) (by omega)
        have hdata := reader.length_readBestEffortAt p (Bytes.slice st.bytes e.logicalOffset
          (e.logicalOffset + e.len))
        rw [hslice] at hanswer hdata
        generalize reader.readBestEffortAt p (Bytes.slice st.bytes e.logicalOffset
          (e.logicalOffset + e.len)) = answer at hanswer hdata
        have hwritten := fun i => getElem?_written i
          (show e.logicalOffset ≤ e.logicalOffset + e.len by omega)
          (show _ ≤ st.bytes.length by omega) (show answer.1.length = _ by omega)
        rw [← hsub] at hanswer
        refine ⟨?_, ?_, fun i hi t ht => ?_⟩
        · simp only [List.length_append, List.length_take, List.length_drop]
          omega
        · rw [← hcovered]
          split
          · exact length_setFlags (by omega) (by omega)
          · exact List.length_mapIdx
        · show (st.bytes.take _ ++ answer.1 ++ st.bytes.drop _)[i]? = _ ∧ _
          rcases target_of_append hapart ht with ⟨hc, rfl, hm⟩ | ⟨hc, ht⟩
          · have hmapped : Mapped e := ⟨havail, by rw [hp]; rfl⟩
            have hin := (hcovers i).mp hc
            have hflag := getElem?_covered
              (show e.logicalOffset ≤ e.logicalOffset + e.len by omega)
              (show _ ≤ st.covered.length by omega) (by omega) hanswer
              (show i < st.covered.length by omega) fun _ _ => (hmissing i hi hm).2
            rw [if_pos hin] at hflag
            rw [hwritten, if_pos hin, hanswer.data _ (by omega), extentTarget, if_pos hmapped, hp]
            exact ⟨rfl, hflag⟩
          · have hout := mt (hcovers i).mpr hc
            have hflag := getElem?_covered
              (show e.logicalOffset ≤ e.logicalOffset + e.len by omega)
              (show _ ≤ st.covered.length by omega) (by omega) hanswer
              (show i < st.covered.length by omega) fun hge hlt => absurd ⟨hge, hlt⟩ hout
            rw [if_neg hout] at hflag
            rw [hwritten, if_neg hout]
            have hold := h.targets i hi t ht
            exact ⟨hold.1, hflag.trans hold.2⟩
      · next hp =>
        refine ⟨hbytes, hcovered, fun i hi t ht => ?_⟩
        rcases target_of_append hapart ht with ⟨_, rfl, hm⟩ | ⟨_, ht⟩
        · have hnot : ¬Mapped e := by simp [Mapped, hp]
          have hreason : fillReason e.availability = .unknownAvailability := by
            rcases havail with ha | ha <;> rw [ha] <;> rfl
          rw [extentTarget, if_neg hnot, hreason]
          exact hmissing i hi hm
        · exact h.targets i hi t ht

/-! ## Missing ranges -/

/-- The scan reports the bytes of the run it is in and the uncovered bytes ahead. -/
theorem missingRangesFrom_iff {covered : List Bool} {i : Nat} {opened : Option Nat} (j : Nat)
    (hopened : ∀ start, opened = some start → start ≤ i) :
    ReportedBad (missingRangesFrom covered i opened) j ↔
      (∃ start, opened = some start ∧ start ≤ j ∧ j < i) ∨
        i ≤ j ∧ covered[j - i]? = some false := by
  -- on the flags, with the range that is open before them
  induction covered generalizing i opened with
  | nil =>
    cases opened with
    | none => simp [missingRangesFrom, ReportedBad]
    | some start =>
      have hle := hopened start rfl
      simp [missingRangesFrom, ReportedBad]
      omega
  | cons flag covered ih =>
    -- a position is this flag or one of the later ones
    have hnext : ∀ b : Bool, i ≤ j ∧ (b :: covered)[j - i]? = some false ↔
        j = i ∧ b = false ∨ i + 1 ≤ j ∧ covered[j - (i + 1)]? = some false := by
      intro b
      by_cases hj : j = i
      · subst hj
        simp
      · by_cases hlt : i + 1 ≤ j
        · rw [show j - i = j - (i + 1) + 1 by omega, List.getElem?_cons_succ]
          simp only [hj, hlt, false_and, false_or, true_and, and_iff_right_iff_imp]
          omega
        · simp only [hj, hlt, false_and, false_or, iff_false, not_and]
          omega
    cases flag with
    | true =>
      cases opened with
      | none =>
        rw [missingRangesFrom, ih fun start h => (by cases h), hnext]
        simp
      | some start =>
        have hle := hopened start rfl
        have hcons : ReportedBad ((start, i - start) :: missingRangesFrom covered (i + 1) none) j ↔
            (start ≤ j ∧ j < start + (i - start)) ∨
              ReportedBad (missingRangesFrom covered (i + 1) none) j := by
          simp [ReportedBad]
        rw [missingRangesFrom, hcons, ih fun start h => (by cases h), hnext,
          show start + (i - start) = i by omega]
        simp
    | false =>
      cases opened with
      | none =>
        rw [missingRangesFrom, ih fun start h => (by cases h; omega), hnext]
        simp only [Option.some.injEq, exists_eq_left', reduceCtorEq, false_and, exists_false,
          false_or, and_true, ← or_assoc]
        apply or_congr_left
        omega
      | some start =>
        have hle := hopened start rfl
        rw [missingRangesFrom, ih fun start h => (by cases h; omega), hnext]
        simp only [Option.some.injEq, exists_eq_left', and_true, ← or_assoc]
        apply or_congr_left
        omega

/-- The ranges of the scan are not empty, ascend, and never touch. -/
theorem missingRangesFrom_maximal {covered : List Bool} {i : Nat} {opened : Option Nat}
    (hopened : ∀ start, opened = some start → start < i) :
    (∀ r ∈ missingRangesFrom covered i opened, opened.getD i ≤ r.1 ∧ 0 < r.2) ∧
      (missingRangesFrom covered i opened).Pairwise fun a b => a.1 + a.2 < b.1 := by
  -- on the flags; a set flag separates two ranges
  induction covered generalizing i opened with
  | nil =>
    cases opened with
    | none => exact ⟨fun r hr => (by cases hr), List.Pairwise.nil⟩
    | some start =>
      have hlt := hopened start rfl
      refine ⟨fun r hr => ?_, List.pairwise_singleton _ _⟩
      obtain rfl := List.mem_singleton.mp hr
      exact ⟨Nat.le_refl _, by simp only; omega⟩
  | cons flag covered ih =>
    cases flag with
    | true =>
      obtain ⟨hbounds, hpairwise⟩ := @ih (i + 1) none fun start h => (by cases h)
      cases opened with
      | none =>
        refine ⟨fun r hr => ?_, hpairwise⟩
        have := hbounds r hr
        simp only [Option.getD_none] at this ⊢
        omega
      | some start =>
        have hlt := hopened start rfl
        rw [missingRangesFrom]
        refine ⟨fun r hr => ?_, List.Pairwise.cons (fun r hr => ?_) hpairwise⟩
        · rcases List.mem_cons.mp hr with rfl | hr
          · exact ⟨Nat.le_refl _, by simp only; omega⟩
          · have := hbounds r hr
            simp only [Option.getD_none, Option.getD_some] at this ⊢
            omega
        · have := (hbounds r hr).1
          simp only [Option.getD_none] at this ⊢
          omega
    | false =>
      cases opened with
      | none =>
        obtain ⟨hbounds, hpairwise⟩ := @ih (i + 1) (some i)
          fun start h => (by cases h; omega)
        exact ⟨hbounds, hpairwise⟩
      | some start =>
        have hlt := hopened start rfl
        obtain ⟨hbounds, hpairwise⟩ := @ih (i + 1) (some start)
          fun start h => (by cases h; omega)
        exact ⟨hbounds, hpairwise⟩

/-! ## Whole extractions -/

/-- The extent loop over disjoint extents. -/
theorem foldl_extractExtent {done extents : List ExtentRun} {st : ExtractState}
    (hexact : reader.Exact byte bad) (hsize : size < 2 ^ 64)
    (hall : ∀ e ∈ extents, Extractable reader size e) (hdisjoint : (done ++ extents).Pairwise Apart)
    (h : Extracted byte bad size done st) :
    Extracted byte bad size (done ++ extents) (extents.foldl (extractExtent reader size) st) := by
  induction extents generalizing done st with
  | nil => rwa [List.append_nil]
  | cons e extents ih =>
    have hsplit : done ++ e :: extents = (done ++ [e]) ++ extents := by simp
    rw [hsplit] at hdisjoint ⊢
    have hapart : ∀ e' ∈ done, Apart e' e := fun e' he' =>
      (List.pairwise_append.mp (List.pairwise_append.mp hdisjoint).1).2.2 e' he' e
      List.mem_cons_self
    exact ih (fun e' he' => hall e' (List.mem_cons_of_mem e he')) hdisjoint
      (extractExtent_extracted hexact hsize (hall e List.mem_cons_self) hapart h)

/-- Extraction delivers the targets, and misses exactly the bytes that are not original. -/
theorem extractCandidate_targets {candidate : Candidate} (hexact : reader.Exact byte bad)
    (hsize : candidate.size < 2 ^ 64)
    (hall : ∀ e ∈ candidate.extents, Extractable reader candidate.size e)
    (hdisjoint : candidate.extents.Pairwise Apart) :
    ∃ extraction, extractCandidate reader candidate = .ok extraction ∧
      extraction.bytes.length = candidate.size ∧
      (∀ i < candidate.size, ∀ t, Target candidate.extents i t →
        extraction.bytes[i]? = some (t.value byte bad) ∧
        (ReportedBad extraction.missingRanges i ↔ t.present bad = false)) ∧
      (∀ i, ReportedBad extraction.missingRanges i → i < candidate.size) ∧
      (∀ r ∈ extraction.missingRanges, 0 < r.2) ∧
      extraction.missingRanges.Pairwise fun a b => a.1 + a.2 < b.1 := by
  -- before the first extent nothing is covered
  have hstart : Extracted byte bad candidate.size []
      { bytes := List.replicate candidate.size 0,
        covered := List.replicate candidate.size false } := by
    refine ⟨List.length_replicate, List.length_replicate, fun i hi t ht => ?_⟩
    rcases ht with ⟨e, he, _⟩ | ⟨_, rfl⟩
    · cases he
    · exact ⟨List.getElem?_replicate_of_lt hi, List.getElem?_replicate_of_lt hi⟩
  have hloop := foldl_extractExtent hexact hsize hall (by simpa using hdisjoint) hstart
  rw [List.nil_append] at hloop
  rw [extractCandidate, if_pos hsize]
  dsimp only
  generalize List.foldl (extractExtent reader candidate.size) _ candidate.extents = st at hloop ⊢
  have hmissing : ∀ j, ReportedBad (missingRangesFrom st.covered 0 none) j ↔ _ := fun j =>
    missingRangesFrom_iff j fun start h => (by cases h)
  simp only [reduceCtorEq, false_and, exists_false, Nat.zero_le, true_and, false_or,
    Nat.sub_zero] at hmissing
  refine ⟨_, rfl, hloop.length_bytes, fun i hi t ht => ?_, fun i hi => ?_, fun r hr => ?_, ?_⟩
  · obtain ⟨hvalue, hflag⟩ := hloop.targets i hi t ht
    refine ⟨hvalue, ?_⟩
    rw [hmissing, hflag, Option.some.injEq]
  · rw [hmissing] at hi
    obtain ⟨hlt, _⟩ := List.getElem?_eq_some_iff.mp hi
    rwa [hloop.length_covered] at hlt
  · exact ((missingRangesFrom_maximal fun start h => (by cases h)).1 r hr).2
  · exact (missingRangesFrom_maximal fun start h => (by cases h)).2

end Undelete
