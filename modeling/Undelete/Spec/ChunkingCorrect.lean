import Undelete.ForStd.Follows
import Undelete.Spec.StreamCorrect

/-!
# Streaming does not depend on the chunk length

A source that reports exactly a fixed set of bytes as bad makes `streamCandidate` do what a
byte-by-byte reference run does (`expectedSegments`), whatever the length of the scratch
buffer and however the writer splits its input. A failed range that is cut at the border of a
chunk is joined again by `appendZeroRange`, as each of its bytes is in the reference run.

## Key results

- `appendZeroRange_add`: appending a range is appending its two parts.
- `readChunk_follows`: a chunk does what the reference run does on its bytes.
- `streamCandidate_chunking`: two runs on one source have the same result.
-/

namespace Undelete.Restore

open Except IntervalLike

/-! ## Evidence, byte by byte -/

theorem appendZeroRange_join {ranges : List ZeroFilledRange} {last next : ZeroFilledRange}
    (h : stop last = start next) (hreason : last.reason = next.reason) :
    appendZeroRange (ranges ++ [last]) next =
      .ok (ranges ++ [{ last with len := last.len + next.len }]) := by
  have hstop : last.logicalOffset + last.len = next.logicalOffset := h
  simp only [appendZeroRange, List.getLast?_concat, hstop, hreason, and_self, if_true,
    List.dropLast_concat]

theorem appendZeroRange_push {ranges : List ZeroFilledRange} (next : ZeroFilledRange)
    (h : ∀ last ∈ ranges.getLast?, ¬(stop last = start next ∧ last.reason = next.reason)) :
    appendZeroRange ranges next =
      if ranges.length ≥ maxZeroFilledRanges then
        .error (.zeroFillRangeLimitExceeded maxZeroFilledRanges)
      else .ok (ranges ++ [next]) := by
  unfold appendZeroRange
  cases hlast : ranges.getLast? with
  | none => rfl
  | some last =>
    have hnot : ¬(last.logicalOffset + last.len = next.logicalOffset ∧ last.reason = next.reason) :=
      h last hlast
    dsimp only
    rw [if_neg hnot]

theorem appendZeroRange_error {ranges : List ZeroFilledRange} {next : ZeroFilledRange}
    {e : RestoreError} (h : appendZeroRange ranges next = .error e) :
    e = .zeroFillRangeLimitExceeded maxZeroFilledRanges := by
  unfold appendZeroRange at h
  dsimp only at h
  split at h
  · cases h
  · split at h
    · exact (error.inj h).symm
    · cases h

/-- A range is appended as its two parts are. -/
theorem appendZeroRange_add (ranges : List ZeroFilledRange) (offset m n : Nat)
    (reason : ZeroFillReason) :
    appendZeroRange ranges ⟨offset, m + n, reason⟩ =
      (do
        let ranges ← appendZeroRange ranges ⟨offset, m, reason⟩
        appendZeroRange ranges ⟨offset + m, n, reason⟩) := by
  by_cases hjoin : ∃ last ∈ ranges.getLast?, stop last = offset ∧ last.reason = reason
  · obtain ⟨last, hlast, hstop, hreason⟩ := hjoin
    obtain ⟨init, rfl⟩ := List.getLast?_eq_some_iff.mp hlast
    have hstop' : stop ({ last with len := last.len + m } : ZeroFilledRange) = offset + m := by
      simp only [stop, start, len] at hstop ⊢
      omega
    rw [appendZeroRange_join hstop hreason, appendZeroRange_join hstop hreason, bind_ok,
      appendZeroRange_join hstop' hreason, Nat.add_assoc]
  · have hpush : ∀ last ∈ ranges.getLast?, ¬(stop last = offset ∧ last.reason = reason) :=
      fun last hlast hboth => hjoin ⟨last, hlast, hboth⟩
    rw [appendZeroRange_push ⟨offset, m + n, reason⟩ hpush,
      appendZeroRange_push ⟨offset, m, reason⟩ hpush]
    by_cases hlimit : ranges.length ≥ maxZeroFilledRanges
    · rw [if_pos hlimit, if_pos hlimit]
      rfl
    · have hstop : stop (⟨offset, m, reason⟩ : ZeroFilledRange) =
          start (⟨offset + m, n, reason⟩ : ZeroFilledRange) := rfl
      rw [if_neg hlimit, if_neg hlimit, bind_ok, appendZeroRange_join hstop rfl]

/-! ## Bad bytes of a plan -/

/-- Byte `i` of the file is to be read from a bad byte of the source. -/
def BadAt (segments : List ContentSegment) (bad : Nat → Prop) (i : Nat) : Prop :=
  ∃ logical physical len, .read logical physical len ∈ segments ∧ logical ≤ i ∧
    i < logical + len ∧ bad (physical + (i - logical))

def FirstBad (segments : List ContentSegment) (bad : Nat → Prop) (offset : Nat) : Prop :=
  BadAt segments bad offset ∧ ∀ i < offset, ¬BadAt segments bad i

theorem badAt_cons {bad : Nat → Prop} {segment : ContentSegment} {segments : List ContentSegment}
    {i : Nat} :
    BadAt (segment :: segments) bad i ↔ BadAt [segment] bad i ∨ BadAt segments bad i := by
  simp only [BadAt, List.mem_cons, List.not_mem_nil, or_false, or_and_right, exists_or]

theorem BadAt.bounds {bad : Nat → Prop} {segments : List ContentSegment} {offset finish i : Nat}
    (h : BadAt segments bad i) (htiles : Tiles segments offset finish) :
    offset ≤ i ∧ i < finish := by
  obtain ⟨logical, physical, n, hmem, hlo, hhi, _⟩ := h
  exact htiles.coveredBy_iff.mp ⟨_, hmem, hlo, hhi⟩

theorem badAt_read {bad : Nat → Prop} {logical physical n i : Nat} :
    BadAt [.read logical physical n] bad i ↔
      logical ≤ i ∧ i < logical + n ∧ bad (physical + (i - logical)) := by
  constructor
  · rintro ⟨l, p, m, hmem, h⟩
    cases List.mem_singleton.mp hmem
    exact h
  · exact fun h => ⟨logical, physical, n, List.mem_cons_self, h⟩

/-! ## The reference run -/

/-- What a run has delivered: the bytes, the evidence, and the best-effort flag. -/
structure Expected where
  output : Bytes := []
  ranges : List ZeroFilledRange := []
  requiresBestEffort : Bool

section Reference

variable (policy : PartialPolicy) (byte : Nat → UInt8) (bad : Nat → Prop) [DecidablePred bad]

/-- One byte of a read segment. -/
def expectedByte (logical physical : Nat) (x : Expected) : Except RestoreError Expected :=
  if bad physical then
    if policy = .completeOnly then .error (.readFailure logical 1)
    else do
      let ranges ← appendZeroRange x.ranges ⟨logical, 1, .previouslyReadFailed⟩
      return { output := x.output ++ [0], ranges, requiresBestEffort := true }
  else .ok { x with output := x.output ++ [byte physical] }

def expectedRead (logical physical : Nat) : Nat → Expected → Except RestoreError Expected
  | 0, x => .ok x
  | n + 1, x => do
    expectedByte policy byte bad (logical + n) (physical + n) (← expectedRead logical physical n x)

def expectedSegment (segment : ContentSegment) (x : Expected) : Except RestoreError Expected :=
  match segment with
  | .read logicalOffset physicalOffset len =>
    expectedRead policy byte bad logicalOffset physicalOffset len x
  | .zero logicalOffset len reason => do
    let ranges ← appendZeroRange x.ranges ⟨logicalOffset, len, reason⟩
    return { x with output := x.output ++ List.replicate len 0, ranges }

def expectedSegments (segments : List ContentSegment) (x : Expected) :
    Except RestoreError Expected :=
  segments.foldlM (fun x segment => expectedSegment policy byte bad segment x) x

/-! ## The reference run on several bytes -/

/-- What is delivered for `n` bytes of the source. -/
def content (physical n : Nat) : Bytes :=
  (List.range n).map fun i => if bad (physical + i) then 0 else byte (physical + i)

/-- The evidence for `n` bytes of the source. -/
def evidence (logical physical : Nat) :
    Nat → List ZeroFilledRange → Except RestoreError (List ZeroFilledRange)
  | 0, ranges => .ok ranges
  | n + 1, ranges => do
    let ranges ← evidence logical physical n ranges
    if bad (physical + n) then
      appendZeroRange ranges ⟨logical + n, 1, .previouslyReadFailed⟩
    else .ok ranges

variable {policy byte bad}

theorem content_succ (physical n : Nat) : content byte bad physical (n + 1) =
    content byte bad physical n ++
      [if bad (physical + n) then 0 else byte (physical + n)] := by
  simp only [content, List.range_succ, List.map_append, List.map_singleton]

theorem expectedRead_add (logical physical m n : Nat) (x : Expected) :
    expectedRead policy byte bad logical physical (m + n) x =
      (expectedRead policy byte bad logical physical m x >>=
        expectedRead policy byte bad (logical + m) (physical + m) n) := by
  induction n with
  | zero => cases expectedRead policy byte bad logical physical m x <;> rfl
  | succ n ih =>
    rw [← Nat.add_assoc, expectedRead, ih]
    cases expectedRead policy byte bad logical physical m x with
    | error e => rfl
    | ok y => simp only [bind_ok, expectedRead, Nat.add_assoc]

theorem expectedRead_good {logical physical n : Nat} (h : ∀ i < n, ¬bad (physical + i))
    (x : Expected) : expectedRead policy byte bad logical physical n x =
      .ok { x with output := x.output ++ content byte bad physical n } := by
  induction n with
  | zero => simp [expectedRead, content]
  | succ n ih =>
    have hn := h n (Nat.lt_succ_self n)
    rw [expectedRead, ih fun i hi => h i (Nat.lt_succ_of_lt hi), bind_ok, expectedByte, if_neg hn,
      content_succ, if_neg hn, List.append_assoc]

/-- Under `completeOnly` the reference run fails at the first bad byte. -/
theorem expectedRead_firstBad {logical physical n i : Nat} (hi : i < n) (hbad : bad (physical + i))
    (hfirst : ∀ j < i, ¬bad (physical + j)) (x : Expected) :
    expectedRead .completeOnly byte bad logical physical n x =
      .error (.readFailure (logical + i) 1) := by
  obtain ⟨rest, rfl⟩ : ∃ rest, n = i + 1 + rest := ⟨n - (i + 1), by omega⟩
  rw [expectedRead_add, expectedRead, expectedRead_good hfirst, bind_ok, expectedByte, if_pos hbad,
    if_pos rfl]
  rfl

/-- Under `zeroFillAndMap` the reference run fails only where the evidence is full. -/
theorem expectedRead_zeroFill (logical physical n : Nat) (x : Expected) :
    expectedRead .zeroFillAndMap byte bad logical physical n x = (do
      let ranges ← evidence bad logical physical n x.ranges
      return {
        output := x.output ++ content byte bad physical n
        ranges
        requiresBestEffort := x.requiresBestEffort || decide (∃ i < n, bad (physical + i)) }) := by
  induction n with
  | zero => simp [expectedRead, evidence, content, bind_ok, pure, Except.pure]
  | succ n ih =>
    rw [expectedRead, ih, evidence]
    cases evidence bad logical physical n x.ranges with
    | error e => rfl
    | ok ranges =>
      have hexists : (∃ i < n + 1, bad (physical + i)) ↔
          (∃ i < n, bad (physical + i)) ∨ bad (physical + n) := by
        simp only [Nat.lt_succ_iff_lt_or_eq, or_and_right, exists_or, exists_eq_left]
      simp only [bind_ok, pure, Except.pure, expectedByte, content_succ, hexists]
      by_cases hbad : bad (physical + n)
      · simp only [hbad, if_true, reduceCtorEq, if_false, or_true, decide_true, Bool.or_true]
        cases appendZeroRange ranges ⟨logical + n, 1, .previouslyReadFailed⟩ with
        | error e => rfl
        | ok ranges' => simp only [bind_ok, List.append_assoc]
      · simp only [hbad, if_false, or_false, bind_ok, List.append_assoc]

/-! ## Failed ranges of a chunk -/

theorem evidence_add (logical physical m n : Nat) (ranges : List ZeroFilledRange) :
    evidence bad logical physical (m + n) ranges =
      (evidence bad logical physical m ranges >>=
        evidence bad (logical + m) (physical + m) n) := by
  induction n with
  | zero => cases evidence bad logical physical m ranges <;> rfl
  | succ n ih =>
    rw [← Nat.add_assoc, evidence, ih]
    cases evidence bad logical physical m ranges with
    | error e => rfl
    | ok ranges' => simp only [bind_ok, evidence, Nat.add_assoc]

theorem evidence_good {logical physical n : Nat} (h : ∀ i < n, ¬bad (physical + i))
    (ranges : List ZeroFilledRange) : evidence bad logical physical n ranges = .ok ranges := by
  induction n with
  | zero => rfl
  | succ n ih =>
    rw [evidence, ih fun i hi => h i (Nat.lt_succ_of_lt hi), bind_ok,
      if_neg (h n (Nat.lt_succ_self n))]

/-- A run of bad bytes is one range. -/
theorem evidence_bad {logical physical n : Nat} (hpos : 0 < n)
    (h : ∀ i < n, bad (physical + i)) (ranges : List ZeroFilledRange) :
    evidence bad logical physical n ranges =
      appendZeroRange ranges ⟨logical, n, .previouslyReadFailed⟩ := by
  induction n with
  | zero => cases hpos
  | succ n ih =>
    have hn := h n (Nat.lt_succ_self n)
    rcases Nat.eq_zero_or_pos n with rfl | hn'
    · rw [evidence, evidence, bind_ok, if_pos hn]
      rfl
    · rw [evidence, ih hn' fun i hi => h i (Nat.lt_succ_of_lt hi), appendZeroRange_add]
      simp only [if_pos hn]

/-- The evidence for the failed ranges of a chunk. -/
def recordedRanges (chunkLogical : Nat) (badRanges : List (Nat × Nat))
    (ranges : List ZeroFilledRange) : Except RestoreError (List ZeroFilledRange) :=
  badRanges.foldlM (fun ranges badRange => appendZeroRange ranges
    ⟨chunkLogical + badRange.1, badRange.2 - badRange.1, .previouslyReadFailed⟩) ranges

/-- Ranges that cover exactly the bad bytes of a chunk are recorded as these bytes are. -/
theorem recordedRanges_eq {logical physical first finish : Nat} {badRanges : List (Nat × Nat)}
    (hasc : Ascending badRanges first finish)
    (hcovered : ∀ i, first ≤ i → i < finish → (CoveredBy badRanges i ↔ bad (physical + i)))
    (ranges : List ZeroFilledRange) :
    recordedRanges logical badRanges ranges =
      evidence bad (logical + first) (physical + first) (finish - first) ranges := by
  induction badRanges generalizing first ranges with
  | nil =>
    rw [evidence_good]
    · rfl
    · intro i hi
      rw [Nat.add_assoc, ← hcovered (first + i) (by omega) (by omega)]
      exact not_coveredBy_nil _
  | cons range rest ih =>
    obtain ⟨badStart, badEnd⟩ := range
    obtain ⟨hstart, hpos, hrest⟩ := hasc
    simp only [start, len] at hstart hpos
    have hstop : stop (badStart, badEnd) = badEnd := by simp only [stop, start, len]; omega
    have hcovers : ∀ i, Covers (badStart, badEnd) i ↔ badStart ≤ i ∧ i < badEnd := by
      intro i; simp only [Covers, hstop, start]
    rw [hstop] at hrest
    have hend := hrest.le
    have hafter : ∀ i, CoveredBy rest i → badEnd ≤ i := fun i hi => (hrest.lt_of_coveredBy hi).1
    -- the good bytes in front of the range, the range, and the rest of the chunk
    have hgood : ∀ i < badStart - first, ¬bad (physical + first + i) := by
      intro i hi
      rw [Nat.add_assoc, ← hcovered (first + i) (by omega) (by omega), coveredBy_cons, hcovers]
      rintro (h | h)
      · omega
      · have := hafter _ h
        omega
    have hbad : ∀ i < badEnd - badStart, bad (physical + badStart + i) := by
      intro i hi
      rw [Nat.add_assoc, ← hcovered (badStart + i) (by omega) (by omega), coveredBy_cons, hcovers]
      exact .inl ⟨by omega, by omega⟩
    have hlater : ∀ i, badEnd ≤ i → i < finish → (CoveredBy rest i ↔ bad (physical + i)) := by
      intro i hle hlt
      rw [← hcovered i (by omega) hlt, coveredBy_cons, hcovers]
      constructor
      · exact .inr
      · rintro (h | h)
        · omega
        · exact h
    have hsplit : finish - first = badStart - first + (badEnd - badStart) + (finish - badEnd) := by
      omega
    have hlogical : logical + first + (badStart - first) = logical + badStart := by omega
    have hlogical' : logical + first + (badStart - first + (badEnd - badStart)) =
        logical + badEnd := by omega
    have hphysical : physical + first + (badStart - first) = physical + badStart := by omega
    have hphysical' : physical + first + (badStart - first + (badEnd - badStart)) =
        physical + badEnd := by omega
    rw [hsplit, evidence_add, evidence_add, evidence_good hgood, bind_ok, hlogical, hphysical,
      hlogical', hphysical', evidence_bad hpos hbad, recordedRanges, List.foldlM_cons]
    cases appendZeroRange ranges
        ⟨logical + badStart, badEnd - badStart, .previouslyReadFailed⟩ with
    | error e => rfl
    | ok ranges' => exact ih hrest hlater ranges'

end Reference

variable {byte : Nat → UInt8} {bad : Nat → Prop} [DecidablePred bad]

/-! ## Writing -/

variable {σ : Type} {env : StreamEnv σ} {plan : ContentPlan}

/-- The errors by which the writer or the cancellation probe stops a run. -/
def Interrupted : RestoreError → Prop
  | .cancelled _ => True
  | .outputWrite _ _ _ => True
  | _ => False

/-- Two runs fail alike; under `completeOnly` the length of a failed read may differ. -/
def SameFailure (policy : PartialPolicy) (e e' : RestoreError) : Prop :=
  e = e' ∨ policy = .completeOnly ∧
    ∃ offset n n', e = .readFailure offset n ∧ e' = .readFailure offset n'

/-- The run has delivered what the reference run has, up to a logical offset. -/
structure Matches (scratchLen offset : Nat) (st : StreamState σ) (x : Expected) : Prop where
  output : st.output = x.output
  hashed : st.hashed = x.output
  bytesWritten : st.bytesWritten = x.output.length
  length_output : x.output.length = offset
  ranges : st.zeroFilledRanges = x.ranges
  requiresBestEffort : st.requiresBestEffort = x.requiresBestEffort
  scratch_length : st.scratch.length = scratchLen

theorem Matches.wrote {scratchLen offset : Nat} {bytes : Bytes} {st st' : StreamState σ}
    {x : Expected} (h : Matches scratchLen offset st x) (hwrote : Wrote bytes st st') :
    Matches scratchLen (offset + bytes.length) st' { x with output := x.output ++ bytes } where
  output := by rw [hwrote.output, h.output]
  hashed := by rw [hwrote.hashed, h.hashed]
  bytesWritten := by rw [hwrote.bytesWritten, h.bytesWritten, List.length_append]
  length_output := by rw [List.length_append, h.length_output]
  ranges := by rw [hwrote.zeroFilledRanges, h.ranges]
  requiresBestEffort := by rw [hwrote.requiresBestEffort, h.requiresBestEffort]
  scratch_length := by rw [hwrote.scratch, h.scratch_length]

theorem checkCancel_interrupted {st : StreamState σ} {e : RestoreError}
    (h : checkCancel env st = .error e) : Interrupted e := by
  simp only [checkCancel] at h
  split at h
  · cases h
    trivial
  · cases h

theorem writeOnce_interrupted {bytes : Bytes} {st : StreamState σ} {e : RestoreError}
    (h : writeOnce env bytes st = .error e) : Interrupted e := by
  simp only [writeOnce] at h
  split at h
  · cases h
    trivial
  · split at h
    · cases h
    · cases h
      trivial
  · cases h
    trivial

/-- The write loop fails only where the environment stops it. -/
theorem writeCommittedFrom_interrupted {logicalSize fuel : Nat} {bytes : Bytes}
    {st : StreamState σ} {e : RestoreError}
    (h : writeCommittedFrom env logicalSize fuel bytes st = .error e)
    (hbound : st.bytesWritten + bytes.length < 2 ^ 64) : Interrupted e := by
  induction fuel generalizing bytes st with
  | zero => cases h
  | succ fuel ih =>
    simp only [writeCommittedFrom] at h
    split at h
    · cases h
    · simp only [bind_eq_error, Prod.exists] at h
      rcases h with h | ⟨st₁, hcancel, h | ⟨written, st₂, hwrite, h | ⟨st₃, hcommit, hrest⟩⟩⟩
      · exact checkCancel_interrupted h
      · exact writeOnce_interrupted h
      · obtain ⟨hpos, hle, hwrote⟩ := writeOnce_wrote hwrite
        have hbytes := ((checkCancel_wrote hcancel).trans hwrote).bytesWritten
        have htake : (bytes.take written).length = written := List.length_take_of_le hle
        simp only [List.append_nil, List.length_nil, Nat.add_zero] at hbytes
        -- the counter cannot overflow below the bound
        rw [commit, htake, hbytes, U64.checkedAdd_of_lt (by omega)] at h
        cases h
      · obtain ⟨hpos, hle, hwrote⟩ := writeOnce_wrote hwrite
        have hbytes := (((checkCancel_wrote hcancel).trans hwrote).trans
          (commit_wrote hcommit)).bytesWritten
        simp only [List.nil_append, List.length_take_of_le hle] at hbytes
        exact ih hrest (by rw [hbytes, List.length_drop]; omega)

/-- A run polls the cancellation probe, or writes, and goes on as the reference run does. -/
theorem Matches.poll {scratchLen offset : Nat} {st : StreamState σ} {x : Expected}
    {E : RestoreError → RestoreError → Prop} (h : Matches scratchLen offset st x) :
    Follows Interrupted E (Matches scratchLen offset) (checkCancel env st) (.ok x) := by
  cases hcancel : checkCancel env st with
  | error e => exact .stopped (checkCancel_interrupted hcancel)
  | ok st' =>
    have hpolled := h.wrote (checkCancel_wrote hcancel)
    rw [List.append_nil] at hpolled
    exact .ok hpolled

theorem Matches.write {scratchLen offset logicalSize : Nat} {bytes : Bytes} {st : StreamState σ}
    {x : Expected} {E : RestoreError → RestoreError → Prop}
    (h : Matches scratchLen offset st x) (hbound : offset + bytes.length < 2 ^ 64) :
    Follows Interrupted E (Matches scratchLen (offset + bytes.length))
      (writeCommitted env logicalSize bytes st)
      (.ok { x with output := x.output ++ bytes }) := by
  have hbound : st.bytesWritten + bytes.length < 2 ^ 64 := by
    rw [h.bytesWritten, h.length_output]
    exact hbound
  cases hwrite : writeCommitted env logicalSize bytes st with
  | error e => exact .stopped (writeCommittedFrom_interrupted hwrite hbound)
  | ok st' => exact .ok (h.wrote (writeCommitted_wrote hwrite))

/-! ## Chunks -/

/-- The fill loop records the ranges and zeroes the scratch buffer. -/
theorem fillBadRanges_eq (chunkLogical : Nat) (badRanges : List (Nat × Nat))
    (st : StreamState σ) :
    fillBadRanges chunkLogical badRanges st = (do
      let ranges ← recordedRanges chunkLogical badRanges st.zeroFilledRanges
      return { st with
        scratch := badRanges.foldl (fun scratch range => zeroFill scratch range.1 range.2)
          st.scratch
        zeroFilledRanges := ranges }) := by
  induction badRanges generalizing st with
  | nil => rfl
  | cons range rest ih =>
    obtain ⟨badStart, badEnd⟩ := range
    rw [fillBadRanges, recordedRanges, List.foldlM_cons]
    cases appendZeroRange st.zeroFilledRanges
        ⟨chunkLogical + badStart, badEnd - badStart, .previouslyReadFailed⟩ with
    | error e => rfl
    | ok ranges =>
      rw [bind_ok, bind_ok, ih]
      rfl

theorem getElem?_zeroFilled {first finish : Nat} {badRanges : List (Nat × Nat)} {scratch : Bytes}
    (hasc : Ascending badRanges first finish) (hfinish : finish ≤ scratch.length) :
    (badRanges.foldl (fun scratch range => zeroFill scratch range.1 range.2) scratch).length =
        scratch.length ∧
      ∀ i, (CoveredBy badRanges i → (badRanges.foldl
          (fun scratch range => zeroFill scratch range.1 range.2) scratch)[i]? = some 0) ∧
        (¬CoveredBy badRanges i → (badRanges.foldl
          (fun scratch range => zeroFill scratch range.1 range.2) scratch)[i]? = scratch[i]?) := by
  -- the ranges ascend, so a byte that is zeroed once is not touched again
  induction badRanges generalizing first scratch with
  | nil => exact ⟨rfl, fun i => ⟨fun h => absurd h (not_coveredBy_nil i), fun _ => rfl⟩⟩
  | cons range rest ih =>
    obtain ⟨badStart, badEnd⟩ := range
    obtain ⟨hstart, hpos, hrest⟩ := hasc
    simp only [start, len] at hstart hpos
    have hstop : stop (badStart, badEnd) = badEnd := by simp only [stop, start, len]; omega
    rw [hstop] at hrest
    have hend := hrest.le
    have hle : badStart ≤ badEnd := Nat.le_of_lt (Nat.lt_of_sub_pos hpos)
    have hlength := length_zeroFill scratch hle (Nat.le_trans hend hfinish)
    have hzeroed := getElem?_zeroFill scratch hle (Nat.le_trans hend hfinish)
    have hfinish' : finish ≤ (zeroFill scratch badStart badEnd).length := by
      rw [hlength]
      exact hfinish
    obtain ⟨hlen, hget⟩ := ih hrest hfinish'
    refine ⟨hlen.trans hlength, fun i => ?_⟩
    have hcovers : Covers (badStart, badEnd) i ↔ badStart ≤ i ∧ i < badEnd := by
      simp only [Covers, hstop, start]
    rw [coveredBy_cons, hcovers, List.foldl_cons]
    constructor
    · intro hi
      by_cases hlater : CoveredBy rest i
      · exact (hget i).1 hlater
      · rw [(hget i).2 hlater, hzeroed, if_pos (hi.resolve_right hlater)]
    · intro hi
      rw [(hget i).2 fun hlater => hi (.inr hlater), hzeroed, if_neg fun hhere => hi (.inl hhere)]

/-- Bytes that are zero where they are bad, and the source's elsewhere. -/
theorem eq_content {physical n : Nat} {bytes : Bytes} (hlength : bytes.length = n)
    (hzero : ∀ i < n, bad (physical + i) → bytes[i]? = some 0)
    (hgood : ∀ i < n, ¬bad (physical + i) → bytes[i]? = some (byte (physical + i))) :
    bytes = content byte bad physical n := by
  apply List.ext_getElem?
  intro i
  by_cases hi : i < n
  · rw [content, List.getElem?_map, List.getElem?_range hi, Option.map_some]
    by_cases hbad : bad (physical + i)
    · rw [hzero i hi hbad, if_pos hbad]
    · rw [hgood i hi hbad, if_neg hbad]
  · rw [List.getElem?_eq_none (by omega), List.getElem?_eq_none (by simp [content]; omega)]

/-- What a chunk writes after its failed ranges are zeroed. -/
theorem take_zeroFilled (rest : Bytes) {physical n : Nat} {answer : Bytes × ReadOutcome}
    {ranges : List (Nat × Nat)} (hanswer : Reports byte bad physical n answer)
    (hdata : answer.1.length = n) (hasc : Ascending ranges 0 n)
    (hcovered : ∀ i < n, CoveredBy ranges i ↔ bad (physical + i)) :
    (ranges.foldl (fun scratch range => zeroFill scratch range.1 range.2)
      (answer.1 ++ rest)).take n = content byte bad physical n := by
  have hlength : (answer.1 ++ rest).length = n + rest.length := by rw [List.length_append, hdata]
  have hfinish : n ≤ (answer.1 ++ rest).length := by omega
  obtain ⟨hlen, hget⟩ := getElem?_zeroFilled hasc hfinish
  apply eq_content
  · rw [List.length_take, hlen, hlength]
    omega
  · intro i hi hbad
    rw [List.getElem?_take_of_lt hi]
    exact (hget i).1 ((hcovered i hi).mpr hbad)
  · intro i hi hgood
    rw [List.getElem?_take_of_lt hi, (hget i).2 fun h => hgood ((hcovered i hi).mp h),
      List.getElem?_append_left (by omega)]
    exact hanswer.good i hi hgood

/-- The failed ranges of a chunk are recorded as the reference run records its bad bytes. -/
theorem recordBadRanges_follows {scratchLen logical physical n : Nat} {st : StreamState σ}
    {x : Expected} {ranges : List (Nat × Nat)} {answer : Bytes × ReadOutcome} {rest : Bytes}
    (hmatches : Matches scratchLen logical st x) (hanswer : Reports byte bad physical n answer)
    (hdata : answer.1.length = n) (hscratch : st.scratch = answer.1 ++ rest)
    (hasc : Ascending ranges 0 n) (hcovered : ∀ i < n, CoveredBy ranges i ↔ bad (physical + i)) :
    Follows Interrupted (SameFailure plan.policy)
      (fun st' y => st'.scratch.take n = content byte bad physical n ∧
        ∃ x', Matches scratchLen logical st' x' ∧
          y = { x' with output := x'.output ++ content byte bad physical n })
      (recordBadRanges plan logical ranges st)
      (expectedRead plan.policy byte bad logical physical n x) := by
  have hn : n ≤ st.scratch.length := by
    rw [hscratch, List.length_append, hdata]
    exact Nat.le_add_right _ _
  cases hranges : ranges with
  -- no bad range: the chunk is written as it was read
  | nil =>
    have hgood : ∀ i < n, ¬bad (physical + i) := by
      intro i hi
      rw [← hcovered i hi, hranges]
      exact not_coveredBy_nil i
    have htake := take_zeroFilled rest hanswer hdata hasc hcovered
    rw [hranges, List.foldl_nil, ← hscratch] at htake
    rw [expectedRead_good hgood, recordBadRanges]
    exact .ok ⟨htake, x, hmatches, rfl⟩
  | cons range later =>
    obtain ⟨badStart, badEnd⟩ := range
    -- the first range begins at the first bad byte
    have hfirst : badStart < n ∧ CoveredBy ranges badStart := by
      obtain ⟨_, hpos, hrest⟩ := hranges ▸ hasc
      have hend := hrest.le
      simp only [stop, start, len] at hend hpos
      refine ⟨by omega, ?_⟩
      rw [hranges, coveredBy_cons]
      simp only [Covers, stop, start, len]
      exact .inl ⟨Nat.le_refl _, by omega⟩
    have hbefore : ∀ j < badStart, ¬bad (physical + j) := by
      intro j hj
      rw [← hcovered j (by omega), hranges]
      rintro ⟨range, hmem, hlo, _⟩
      obtain ⟨_, _, hrest⟩ := hranges ▸ hasc
      rcases List.mem_cons.mp hmem with rfl | hmem
      · simp only [start] at hlo
        omega
      · have hstart := (hrest.bounds hmem).1
        simp only [stop, start, len] at hstart hlo
        omega
    simp only [recordBadRanges]
    -- a strict plan fails there, and the failure names that byte
    by_cases hpolicy : plan.policy = .completeOnly
    · rw [hpolicy, if_pos rfl, expectedRead_firstBad hfirst.1
        ((hcovered badStart hfirst.1).mp hfirst.2) hbefore]
      exact .fails (.inr ⟨rfl, _, _, _, rfl, rfl⟩)
    · have hpolicy : plan.policy = .zeroFillAndMap := by
        cases hp : plan.policy with
        | completeOnly => exact absurd hp hpolicy
        | zeroFillAndMap => rfl
      -- otherwise the ranges are recorded and zeroed
      have hrecorded : recordedRanges logical ranges st.zeroFilledRanges =
          evidence bad logical physical n x.ranges := by
        rw [hmatches.ranges]
        exact recordedRanges_eq hasc (fun i _ hi => hcovered i hi) x.ranges
      have hany : decide (∃ i < n, bad (physical + i)) = true :=
        decide_eq_true ⟨badStart, hfirst.1, (hcovered badStart hfirst.1).mp hfirst.2⟩
      rw [← hranges, fillBadRanges_eq, hrecorded, hpolicy, expectedRead_zeroFill, hany,
        Bool.or_true]
      cases evidence bad logical physical n x.ranges with
      | error e => exact .fails (.inl rfl)
      | ok recorded =>
        have htake := take_zeroFilled rest hanswer hdata hasc hcovered
        rw [← hscratch] at htake
        refine .ok ⟨htake, { x with ranges := recorded, requiresBestEffort := true }, ?_, rfl⟩
        exact
          { output := hmatches.output
            hashed := hmatches.hashed
            bytesWritten := hmatches.bytesWritten
            length_output := hmatches.length_output
            ranges := rfl
            requiresBestEffort := rfl
            scratch_length := (getElem?_zeroFilled hasc hn).1.trans hmatches.scratch_length }

/-- A chunk does what the reference run does on its bytes. -/
theorem readChunk_follows {scratchLen logical physical n : Nat} {st : StreamState σ} {x : Expected}
    (hmatches : Matches scratchLen logical st x)
    (hreports : ∀ s buffer, buffer.length = n →
      Reports byte bad physical n (env.readBestEffortAt s physical buffer).1)
    (hn : n ≤ scratchLen) (hbound : logical + n < 2 ^ 64) :
    Follows Interrupted (SameFailure plan.policy) (Matches scratchLen (logical + n))
      (readChunk env plan logical physical n st)
      (expectedRead plan.policy byte bad logical physical n x) := by
  have hbuffer : (st.scratch.take n).length = n :=
    List.length_take_of_le (by rw [hmatches.scratch_length]; exact hn)
  have hanswer := hreports st.env _ hbuffer
  have hdata : (env.readBestEffortAt st.env physical (st.scratch.take n)).1.1.length = n :=
    (env.length_readBestEffortAt _ _ _).trans hbuffer
  -- whatever order the reader reports the ranges in, they are put in order
  obtain ⟨ranges, hnormal, hasc, hcovered⟩ := normalizeBadRanges_reports hanswer (by omega)
  have hread : Matches scratchLen logical { st with
      env := (env.readBestEffortAt st.env physical (st.scratch.take n)).2
      scratch := (env.readBestEffortAt st.env physical (st.scratch.take n)).1.1 ++
        st.scratch.drop n } x :=
    { hmatches with
      scratch_length := by
        have hlength := hmatches.scratch_length
        rw [List.length_append, hdata, List.length_drop]
        omega }
  have hcontent : (content byte bad physical n).length = n := by
    rw [content, List.length_map, List.length_range]
  simp only [readChunk, hnormal, bind_ok]
  refine (recordBadRanges_follows hread hanswer hdata rfl hasc hcovered).bind_left ?_
  rintro st' _ ⟨htake, x', hmatches', rfl⟩
  -- the zeroed chunk is the expected content, and is written
  have hwrite : Follows Interrupted (SameFailure plan.policy)
      (Matches scratchLen (logical + (content byte bad physical n).length))
      (writeCommitted env plan.logicalSize (content byte bad physical n) st')
      (.ok { x' with output := x'.output ++ content byte bad physical n }) :=
    hmatches'.write (by rw [hcontent]; exact hbound)
  rw [hcontent] at hwrite
  rw [htake]
  exact hwrite

/-! ## Segments -/

/-- The source reports, for every request inside it, exactly the bad bytes of the request. -/
def StreamEnv.ReportsBad (env : StreamEnv σ) (byte : Nat → UInt8) (bad : Nat → Prop)
    [DecidablePred bad] : Prop :=
  ∀ s offset buffer, offset + buffer.length ≤ env.sourceLen →
    Reports byte bad offset buffer.length (env.readBestEffortAt s offset buffer).1

theorem streamRead_follows {scratchLen logical physical len fuel position : Nat}
    {st : StreamState σ} {x : Expected} (hreports : env.ReportsBad byte bad)
    (hmatches : Matches scratchLen (logical + position) st x) (hscratch : 0 < scratchLen)
    (hposition : position ≤ len) (hfuel : len - position ≤ fuel)
    (hlogical : logical + len < 2 ^ 64) (hphysical : physical + len ≤ env.sourceLen) :
    Follows Interrupted (SameFailure plan.policy) (Matches scratchLen (logical + len))
      (streamRead env plan logical physical len fuel position st)
      (expectedRead plan.policy byte bad (logical + position) (physical + position)
        (len - position) x) := by
  -- a chunk of any positive length is a step of the expected read
  induction fuel generalizing position st x with
  | zero =>
    obtain rfl : position = len := by omega
    rw [Nat.sub_self, streamRead, expectedRead]
    exact .ok hmatches
  | succ fuel ih =>
    rw [streamRead]
    by_cases hend : position ≥ len
    · obtain rfl : position = len := by omega
      rw [if_pos hend, Nat.sub_self, expectedRead]
      exact .ok hmatches
    · rw [if_neg hend]
      refine Follows.bind (y := .ok x) (g := expectedRead plan.policy byte bad (logical + position)
        (physical + position) (len - position)) hmatches.poll fun st₁ x₁ hpolled => ?_
      have hsize : min (len - position) st₁.scratch.length ≤ scratchLen ∧
          0 < min (len - position) st₁.scratch.length ∧
          min (len - position) st₁.scratch.length ≤ len - position := by
        rw [hpolled.scratch_length]
        omega
      generalize min (len - position) st₁.scratch.length = chunkLen at *
      have hsplit : len - position = chunkLen + (len - (position + chunkLen)) := by omega
      have hchunk : ∀ s buffer, buffer.length = chunkLen → Reports byte bad (physical + position)
          chunkLen (env.readBestEffortAt s (physical + position) buffer).1 := by
        rintro s buffer rfl
        exact hreports s (physical + position) buffer (by omega)
      -- what is expected does not depend on where the chunks are cut
      rw [hsplit, expectedRead_add]
      refine (readChunk_follows hpolled hchunk hsize.1 (by omega)).bind fun st₂ x₂ hread => ?_
      rw [Nat.add_assoc] at hread ⊢
      rw [Nat.add_assoc]
      exact ih hread (by omega) (by omega)

theorem take_zeroFill (buffer : Bytes) (n : Nat) :
    (zeroFill buffer 0 n).take n = List.replicate n 0 := by
  simp only [zeroFill, List.take_zero, List.nil_append, Nat.sub_zero]
  rw [List.take_append_of_le_length (by rw [List.length_replicate]), List.take_replicate,
    Nat.min_self]

theorem streamZero_follows {scratchLen logical len fuel position : Nat} {st : StreamState σ}
    {x : Expected} (hmatches : Matches scratchLen (logical + position) st x)
    (hscratch : 0 < scratchLen) (hposition : position ≤ len) (hfuel : len - position ≤ fuel)
    (hlogical : logical + len < 2 ^ 64) :
    Follows Interrupted (SameFailure plan.policy) (Matches scratchLen (logical + len))
      (streamZero env plan len fuel position st)
      (.ok { x with output := x.output ++ List.replicate (len - position) 0 }) := by
  -- as for a read, with zeros in the buffer
  induction fuel generalizing position st x with
  | zero =>
    obtain rfl : position = len := by omega
    rw [Nat.sub_self, streamZero, List.replicate_zero, List.append_nil]
    exact .ok hmatches
  | succ fuel ih =>
    rw [streamZero]
    by_cases hend : position ≥ len
    · obtain rfl : position = len := by omega
      rw [if_pos hend, Nat.sub_self, List.replicate_zero, List.append_nil]
      exact .ok hmatches
    · rw [if_neg hend]
      refine Follows.bind (y := .ok x) (g := fun x => .ok
        { x with output := x.output ++ List.replicate (len - position) 0 })
        hmatches.poll fun st₁ x₁ hpolled => ?_
      have hsize : min (len - position) st₁.scratch.length ≤ st₁.scratch.length ∧
          0 < min (len - position) st₁.scratch.length ∧
          min (len - position) st₁.scratch.length ≤ len - position := by
        rw [hpolled.scratch_length]
        omega
      dsimp only
      generalize min (len - position) st₁.scratch.length = chunkLen at *
      have hsplit : len - position = chunkLen + (len - (position + chunkLen)) := by omega
      have hzeroed : Matches scratchLen (logical + position)
          { st₁ with scratch := zeroFill st₁.scratch 0 chunkLen } x₁ :=
        { hpolled with
          scratch_length :=
            (length_zeroFill st₁.scratch (Nat.zero_le _) hsize.1).trans hpolled.scratch_length }
      have hwrite : Follows Interrupted (SameFailure plan.policy)
          (Matches scratchLen (logical + position + (List.replicate chunkLen (0 : UInt8)).length))
          (writeCommitted env plan.logicalSize (List.replicate chunkLen 0)
            { st₁ with scratch := zeroFill st₁.scratch 0 chunkLen })
          (.ok { x₁ with output := x₁.output ++ List.replicate chunkLen 0 }) :=
        hzeroed.write (by rw [List.length_replicate]; omega)
      rw [List.length_replicate, Nat.add_assoc] at hwrite
      rw [take_zeroFill, hsplit, ← List.replicate_append_replicate,
        ← List.append_assoc]
      exact hwrite.bind (g := fun x => .ok
        { x with output := x.output ++ List.replicate (len - (position + chunkLen)) 0 })
        fun st₂ x₂ hwritten => ih hwritten (by omega) (by omega)

/-- What is known about the segments of a plan that passed `preflight`. -/
structure Passed (sourceLen : Nat) (segments : List ContentSegment) (offset finish : Nat) :
    Prop where
  tiles : Tiles segments offset finish
  finish_lt : finish < 2 ^ 64
  inside : ∀ logical physical len, .read logical physical len ∈ segments →
    physical + len ≤ sourceLen

theorem streamSegment_follows {scratchLen : Nat} {segment : ContentSegment} {st : StreamState σ}
    {x : Expected} (hreports : env.ReportsBad byte bad)
    (hmatches : Matches scratchLen (start segment) st x) (hscratch : 0 < scratchLen)
    (hstop : stop segment < 2 ^ 64)
    (hinside : ∀ logical physical len, segment = .read logical physical len →
      physical + len ≤ env.sourceLen) :
    Follows Interrupted (SameFailure plan.policy) (Matches scratchLen (stop segment))
      (streamSegment env plan segment st) (expectedSegment plan.policy byte bad segment x) := by
  cases segment with
  | read logical physical n =>
    exact streamRead_follows hreports hmatches hscratch (Nat.zero_le _) (Nat.le_refl _) hstop
      (hinside logical physical n rfl)
  | zero logical n reason =>
    simp only [streamSegment, expectedSegment, hmatches.ranges]
    cases appendZeroRange x.ranges ⟨logical, n, reason⟩ with
    | error e => exact .fails (.inl rfl)
    | ok ranges =>
      have hbooked : Matches scratchLen (logical + 0) { st with zeroFilledRanges := ranges }
          { x with ranges } := { hmatches with ranges := rfl }
      exact streamZero_follows hbooked hscratch (Nat.zero_le _) (Nat.le_refl _) hstop

theorem streamSegments_follows {scratchLen offset finish : Nat} {segments : List ContentSegment}
    {st : StreamState σ} {x : Expected} (hreports : env.ReportsBad byte bad)
    (hmatches : Matches scratchLen offset st x) (hscratch : 0 < scratchLen)
    (hpassed : Passed env.sourceLen segments offset finish) :
    Follows Interrupted (SameFailure plan.policy) (Matches scratchLen finish)
      (streamSegments env plan segments st)
      (expectedSegments plan.policy byte bad segments x) := by
  induction segments generalizing offset st x with
  | nil =>
    obtain rfl : offset = finish := hpassed.tiles
    exact .ok hmatches
  | cons segment segments ih =>
    obtain ⟨rfl, _, htiles⟩ := hpassed.tiles
    have hfinish := hpassed.finish_lt
    have hstop := htiles.le
    rw [streamSegments, expectedSegments, List.foldlM_cons]
    refine (streamSegment_follows hreports hmatches hscratch (by omega) ?_).bind
      fun st₁ x₁ hmatches₁ => ih hmatches₁ ⟨htiles, hfinish, ?_⟩
    · rintro logical physical n rfl
      exact hpassed.inside logical physical n List.mem_cons_self
    · intro logical physical n hmem
      exact hpassed.inside logical physical n (List.mem_cons_of_mem _ hmem)

/-! ## The first bad byte -/

/-- Under `completeOnly` a segment has no bad byte, or the reference run fails at its first. -/
theorem expectedRead_completeOnly (logical physical n : Nat) (x : Expected) :
    ((∀ i < n, ¬bad (physical + i)) ∧ expectedRead .completeOnly byte bad logical physical n x =
        .ok { x with output := x.output ++ content byte bad physical n }) ∨
      ∃ i < n, bad (physical + i) ∧ (∀ j < i, ¬bad (physical + j)) ∧
        expectedRead .completeOnly byte bad logical physical n x =
          .error (.readFailure (logical + i) 1) := by
  by_cases hbad : ∃ i, i < n ∧ bad (physical + i)
  · obtain ⟨hi, hfound⟩ := Nat.find_spec hbad
    have hfirst : ∀ j < Nat.find hbad, ¬bad (physical + j) :=
      fun j hj hbad' => Nat.find_min hbad hj ⟨Nat.lt_trans hj hi, hbad'⟩
    exact .inr ⟨Nat.find hbad, hi, hfound, hfirst, expectedRead_firstBad hi hfound hfirst x⟩
  · have hgood : ∀ i < n, ¬bad (physical + i) := fun i hi hbad' => hbad ⟨i, hi, hbad'⟩
    exact .inl ⟨hgood, expectedRead_good hgood x⟩

/-- A read failure of the reference run is at the first bad byte of the plan. -/
theorem expectedSegments_firstBad {segments : List ContentSegment} {offset finish first n : Nat}
    {x : Expected} (htiles : Tiles segments offset finish)
    (h : expectedSegments .completeOnly byte bad segments x = .error (.readFailure first n)) :
    FirstBad segments bad first := by
  induction segments generalizing offset x with
  | nil => cases h
  | cons segment segments ih =>
    obtain ⟨rfl, _, hrest⟩ := htiles
    rw [expectedSegments, List.foldlM_cons, bind_eq_error] at h
    cases segment with
    -- zeros touch no device byte, and their failure is of another kind
    | zero logical m reason =>
      have hnone : ∀ i, ¬BadAt [.zero logical m reason] bad i := by
        rintro i ⟨l, p, k, hmem, _⟩
        cases List.mem_singleton.mp hmem
      have hskip : FirstBad segments bad first →
          FirstBad (.zero logical m reason :: segments) bad first := by
        rintro ⟨hbad, hfirst⟩
        refine ⟨badAt_cons.mpr (.inr hbad), fun i hi hbad' => ?_⟩
        exact (badAt_cons.mp hbad').elim (hnone i) (hfirst i hi)
      rcases h with h | ⟨y, _, h⟩
      · simp only [expectedSegment, bind_eq_error, pure_eq_error, and_false, exists_false,
          or_false] at h
        cases appendZeroRange_error h
      · exact hskip (ih hrest h)
    | read logical physical m =>
      have hlater : ∀ i, BadAt segments bad i → logical + m ≤ i := fun i hi => (hi.bounds hrest).1
      -- a read fails at its first bad byte, which comes before those of later segments
      rcases @expectedRead_completeOnly byte bad _ logical physical m x with
        ⟨hgood, hok⟩ | ⟨i, hi, hbad, hfirst, herror⟩
      · have hnone : ∀ i, ¬BadAt [.read logical physical m] bad i := by
          intro i hi
          obtain ⟨hlo, hhi, hbad⟩ := badAt_read.mp hi
          exact hgood (i - logical) (by omega) hbad
        rw [expectedSegment, hok] at h
        rcases h with h | ⟨y, _, h⟩
        · cases h
        · obtain ⟨hbad, hfirst⟩ := ih hrest h
          refine ⟨badAt_cons.mpr (.inr hbad), fun i hi hbad' => ?_⟩
          exact (badAt_cons.mp hbad').elim (hnone i) (hfirst i hi)
      · rw [expectedSegment, herror] at h
        rcases h with h | ⟨y, hy, _⟩
        · cases h
          refine ⟨badAt_cons.mpr (.inl (badAt_read.mpr ⟨by omega, by omega, ?_⟩)), ?_⟩
          · rw [Nat.add_sub_cancel_left]
            exact hbad
          · intro j hj hbad'
            rcases badAt_cons.mp hbad' with hhere | hthere
            · obtain ⟨hlo, _, hbadj⟩ := badAt_read.mp hhere
              exact hfirst (j - logical) (by omega) hbadj
            · have := hlater j hthere
              omega
        · cases hy

/-! ## Whole runs -/

theorem preflightSegments_inside {sourceLen : Nat} {segments : List ContentSegment}
    {index offset finish : Nat} {flag flag' : Bool}
    (h : preflightSegments sourceLen plan segments index offset flag = .ok (finish, flag')) :
    ∀ logical physical len, .read logical physical len ∈ segments →
      physical + len ≤ sourceLen := by
  induction segments generalizing index offset flag with
  | nil =>
    intro _ _ _ hmem
    cases hmem
  | cons segment segments ih =>
    simp only [preflightSegments, bind_eq_ok, throw_bind, ite_throw_eq_ok, okOr_eq_ok] at h
    obtain ⟨_, _, _, _, _, bestEffort, hsegment, hrest⟩ := h
    intro logical physical n hmem
    rcases List.mem_cons.mp hmem with rfl | hmem
    · simp only [preflightSegment, bind_eq_ok, throw_bind, ite_throw_eq_ok, okOr_eq_ok] at hsegment
      obtain ⟨physicalEnd, hend, hle, _⟩ := hsegment
      obtain ⟨_, rfl⟩ := U64.checkedAdd_eq_some.mp hend
      omega
    · exact ih hrest logical physical n hmem

theorem preflight_passed {sourceLen scratchLen : Nat}
    (h : preflight sourceLen plan scratchLen = .ok ()) :
    Passed sourceLen plan.segments 0 plan.logicalSize := by
  obtain ⟨_, hsize, htiles, _⟩ := preflight_ok h
  simp only [preflight, bind_eq_ok, throw_bind, ite_throw_eq_ok, Prod.exists] at h
  obtain ⟨_, _, finish, flag, hsegments, _⟩ := h
  exact ⟨htiles, hsize, preflightSegments_inside hsegments⟩

/-- A scratch buffer `preflight` accepts. -/
def ScratchLen (n : Nat) : Prop := 0 < n ∧ n ≤ maxStreamBufferBytes

theorem preflight_scratchLen {sourceLen m n : Nat} (hm : ScratchLen m) (hn : ScratchLen n) :
    preflight sourceLen plan m = preflight sourceLen plan n := by
  obtain ⟨hm, hm'⟩ := hm
  obtain ⟨hn, hn'⟩ := hn
  have hm : ¬(m = 0 ∨ m > maxStreamBufferBytes) := by omega
  have hn : ¬(n = 0 ∨ n > maxStreamBufferBytes) := by omega
  simp only [preflight, if_neg hm, if_neg hn]

/-- The whole reference run: the outcome, and the bytes of the output. -/
def expectedOutcome (sha256 : Bytes → Digest) (sourceLen : Nat) (plan : ContentPlan)
    (byte : Nat → UInt8) (bad : Nat → Prop) [DecidablePred bad] :
    Except RestoreError (StreamOutcome × Bytes) := do
  preflight sourceLen plan 1
  let _ ← plannedZeroRanges plan
  let x ← expectedSegments plan.policy byte bad plan.segments
    { requiresBestEffort := plan.requiresBestEffort }
  let actual := sha256 x.output
  if let some expected := plan.expectedSha256 then
    if expected ≠ actual then throw (.hashMismatch expected actual)
  return (⟨x.output.length, actual, x.ranges, x.requiresBestEffort⟩, x.output)

theorem streamCandidate_follows {sha256 : Bytes → Digest} {scratch : Bytes} {s : σ}
    (hreports : env.ReportsBad byte bad) (hscratch : ScratchLen scratch.length) :
    Follows Interrupted (SameFailure plan.policy)
      (fun result expected => result.1 = expected.1 ∧ result.2.output = expected.2)
      (streamCandidate env sha256 plan scratch s)
      (expectedOutcome sha256 env.sourceLen plan byte bad) := by
  have hone : ScratchLen 1 := ⟨Nat.one_pos, by decide⟩
  rw [streamCandidate, expectedOutcome, ← preflight_scratchLen hscratch hone]
  cases hpreflight : preflight env.sourceLen plan scratch.length with
  | error e => exact .fails (.inl rfl)
  | ok _ =>
    cases plannedZeroRanges plan with
    | error e => exact .fails (.inl rfl)
    | ok planned =>
      have hstart : Matches scratch.length 0
          { env := s, scratch, requiresBestEffort := plan.requiresBestEffort }
          { requiresBestEffort := plan.requiresBestEffort } :=
        ⟨rfl, rfl, rfl, rfl, rfl, rfl, rfl⟩
      -- both start empty, so every segment keeps the run and what is expected in step
      refine (streamSegments_follows hreports hstart hscratch.1
        (preflight_passed hpreflight)).bind fun st x hmatches => ?_
      have hlength : st.bytesWritten = plan.logicalSize :=
        hmatches.bytesWritten.trans hmatches.length_output
      rw [if_neg (not_not_intro hlength), hmatches.hashed, hmatches.bytesWritten, hmatches.ranges,
        hmatches.requiresBestEffort]
      -- equal bytes have equal hashes
      cases plan.expectedSha256 with
      | none => exact .ok ⟨rfl, hmatches.output⟩
      | some expected =>
        dsimp only
        by_cases hhash : expected ≠ sha256 x.output
        · rw [if_pos hhash, if_pos hhash]
          exact .fails (.inl rfl)
        · rw [if_neg hhash, if_neg hhash]
          exact .ok ⟨rfl, hmatches.output⟩

/-- Two runs have the same result: the same outcome and output, or the same failure; a read
    failure under `completeOnly` is at the first bad byte of the plan. -/
def SameResult {σ₁ σ₂ : Type} (plan : ContentPlan) (bad : Nat → Prop)
    (r₁ : Except RestoreError (StreamOutcome × StreamState σ₁))
    (r₂ : Except RestoreError (StreamOutcome × StreamState σ₂)) : Prop :=
  (∃ outcome st₁ st₂, r₁ = .ok (outcome, st₁) ∧ r₂ = .ok (outcome, st₂) ∧
      st₁.output = st₂.output) ∨
    ∃ e₁ e₂, r₁ = .error e₁ ∧ r₂ = .error e₂ ∧
      (plan.policy = .zeroFillAndMap → e₁ = e₂) ∧
      (plan.policy = .completeOnly →
        (e₁ = e₂ ∧ ∀ offset n, e₁ ≠ .readFailure offset n) ∨
          ∃ offset n₁ n₂, e₁ = .readFailure offset n₁ ∧ e₂ = .readFailure offset n₂ ∧
            FirstBad plan.segments bad offset)

theorem preflight_ne_readFailure {sourceLen scratchLen offset n : Nat} :
    preflight sourceLen plan scratchLen ≠ .error (.readFailure offset n) := by
  have hsegments : ∀ segments index start flag,
      preflightSegments sourceLen plan segments index start flag ≠
        .error (.readFailure offset n) := by
    intro segments
    -- the checks before the first read know no device
    induction segments with
    | nil =>
      intro index start flag h
      cases h
    | cons segment segments ih =>
      intro index start flag h
      simp only [preflightSegments, bind_eq_error, throw_bind, ite_throw_eq_error, okOr_eq_error,
        reduceCtorEq, and_false, false_or] at h
      obtain ⟨_, _, _, _, _, h | ⟨bestEffort, _, h⟩⟩ := h
      · cases segment with
        | read logical physical m =>
          simp only [preflightSegment, bind_eq_error, throw_bind, ite_throw_eq_error,
            okOr_eq_error, pure_eq_error, reduceCtorEq, and_false, false_or, exists_false] at h
        | zero logical m reason =>
          simp only [preflightSegment] at h
          split at h
          · simp only [ite_throw_eq_error, pure_eq_error, reduceCtorEq, and_false, or_self] at h
          · simp only [pure_eq_error] at h
      · exact ih _ _ _ h
  intro h
  simp only [preflight, bind_eq_error, throw_bind, ite_throw_eq_error, pure_eq_error, hsegments,
    reduceCtorEq, and_false, exists_false, or_self] at h

theorem plannedZeroRanges_ne_readFailure {offset n : Nat} :
    plannedZeroRanges plan ≠ .error (.readFailure offset n) := by
  have hsegments : ∀ segments ranges,
      plannedZeroRangesFrom segments ranges ≠ .error (.readFailure offset n) := by
    intro segments
    induction segments with
    | nil =>
      intro ranges h
      cases h
    | cons segment segments ih =>
      intro ranges h
      cases segment with
      | read logical physical m => exact ih ranges h
      | zero logical m reason =>
        rw [plannedZeroRangesFrom, bind_eq_error] at h
        rcases h with h | ⟨ranges', _, h⟩
        · cases appendZeroRange_error h
        · exact ih ranges' h
  exact hsegments plan.segments []

/-- A read failure of the reference run is at the first bad byte. -/
theorem expectedOutcome_firstBad {sha256 : Bytes → Digest} {sourceLen offset n : Nat}
    (hpolicy : plan.policy = .completeOnly)
    (h : expectedOutcome sha256 sourceLen plan byte bad = .error (.readFailure offset n)) :
    FirstBad plan.segments bad offset := by
  rw [expectedOutcome, bind_eq_error] at h
  rcases h with h | ⟨_, hpreflight, h⟩
  · exact absurd h preflight_ne_readFailure
  rw [bind_eq_error] at h
  rcases h with h | ⟨planned, _, h⟩
  · exact absurd h plannedZeroRanges_ne_readFailure
  rw [bind_eq_error] at h
  rcases h with h | ⟨x, _, h⟩
  · rw [hpolicy] at h
    exact expectedSegments_firstBad (preflight_ok hpreflight).2.2.1 h
  · dsimp only at h
    split at h
    · simp only [throw_bind, ite_throw_eq_error, pure_eq_error, reduceCtorEq, and_false,
        or_self] at h
    · cases h

/-- A failure that follows a failure of the reference run: the same one, or a read failure at the
    same offset. -/
theorem SameFailure.cases {policy : PartialPolicy} {e e' : RestoreError}
    (h : SameFailure policy e e') :
    (e = e' ∧ ∀ offset n, e' ≠ .readFailure offset n) ∨
      ∃ offset n n', e = .readFailure offset n ∧ e' = .readFailure offset n' := by
  rcases h with rfl | ⟨_, h⟩
  · by_cases hread : ∃ offset n, e = .readFailure offset n
    · obtain ⟨offset, n, rfl⟩ := hread
      exact .inr ⟨offset, n, n, rfl, rfl⟩
    · exact .inl ⟨rfl, fun offset n he => hread ⟨offset, n, he⟩⟩
  · exact .inr h

/-- Two runs on one source whose bad bytes are fixed, with scratch buffers of any two lengths,
    have the same result unless the environment stops them. -/
theorem streamCandidate_chunking {σ₁ σ₂ : Type} (env₁ : StreamEnv σ₁) (env₂ : StreamEnv σ₂)
    (sha256 : Bytes → Digest) (byte : Nat → UInt8) (bad : Nat → Prop) [DecidablePred bad]
    (plan : ContentPlan) (scratch₁ scratch₂ : Bytes) (s₁ : σ₁) (s₂ : σ₂)
    (hsource : env₁.sourceLen = env₂.sourceLen)
    (hreports₁ : env₁.ReportsBad byte bad) (hreports₂ : env₂.ReportsBad byte bad)
    (hscratch₁ : ScratchLen scratch₁.length) (hscratch₂ : ScratchLen scratch₂.length)
    (hrun₁ : ∀ e, streamCandidate env₁ sha256 plan scratch₁ s₁ = .error e → ¬Interrupted e)
    (hrun₂ : ∀ e, streamCandidate env₂ sha256 plan scratch₂ s₂ = .error e → ¬Interrupted e) :
    SameResult plan bad (streamCandidate env₁ sha256 plan scratch₁ s₁)
      (streamCandidate env₂ sha256 plan scratch₂ s₂) := by
  have hfollows₁ := @streamCandidate_follows byte bad _ σ₁ env₁ plan sha256 scratch₁ s₁
    hreports₁ hscratch₁
  have hfollows₂ := @streamCandidate_follows byte bad _ σ₂ env₂ plan sha256 scratch₂ s₂
    hreports₂ hscratch₂
  rw [hsource] at hfollows₁
  -- both runs follow one expected run, which knows of no scratch length
  rcases hfollows₁.both hfollows₂ hrun₁ hrun₂ with
    ⟨⟨outcome₁, st₁⟩, ⟨outcome₂, st₂⟩, expected, h₁, h₂, _, hsame₁, hsame₂⟩ |
    ⟨e₁, e₂, e, h₁, h₂, h, hsame₁, hsame₂⟩
  · obtain ⟨houtcome₁, houtput₁⟩ := hsame₁
    obtain ⟨houtcome₂, houtput₂⟩ := hsame₂
    refine .inl ⟨outcome₁, st₁, st₂, h₁, ?_, houtput₁.trans houtput₂.symm⟩
    rw [h₂]
    congr 2
    exact houtcome₂.trans houtcome₁.symm
  · refine .inr ⟨e₁, e₂, h₁, h₂, fun hpolicy => ?_, fun hpolicy => ?_⟩
    · rw [hpolicy] at hsame₁ hsame₂
      rcases hsame₁, hsame₂ with ⟨rfl | ⟨hcomplete, _⟩, rfl | ⟨hcomplete, _⟩⟩
      · rfl
      · cases hcomplete
      · cases hcomplete
      · cases hcomplete
    · rcases hsame₁.cases, hsame₂.cases with
        ⟨⟨rfl, hread₁⟩ | ⟨offset, n₁, m₁, rfl, rfl⟩, ⟨rfl, hread₂⟩ | ⟨offset₂, n₂, m₂, rfl, hm⟩⟩
      · exact .inl ⟨rfl, hread₁⟩
      · exact absurd hm (hread₁ _ _)
      · exact absurd rfl (hread₂ offset m₁)
      · cases hm
        exact .inr ⟨offset, n₁, n₂, rfl, rfl, expectedOutcome_firstBad hpolicy h⟩

/-! ## Two runs on one source -/

theorem stutteringEnv_reportsBad :
    stutteringEnv.ReportsBad (fun i => UInt8.ofNat (i + 1)) (· = 3) := by
  intro s offset buffer hinside
  have hbounds : offset + buffer.length ≤ 8 := hinside
  have hcount : ∀ offset < 9, ∀ n < 9, (List.range n).countP (fun i => ¬offset + i = 3) =
      if offset ≤ 3 ∧ 3 < offset + n then n - 1 else n := by decide
  have hgood : ∀ i < buffer.length, ¬offset + i = 3 →
      (buffer.mapIdx fun i _ => if offset + i = 3 then 0 else UInt8.ofNat (offset + i + 1))[i]? =
        some (UInt8.ofNat (offset + i + 1)) := by
    intro i hi hne
    rw [List.getElem?_mapIdx, List.getElem?_eq_getElem hi, Option.map_some, if_neg hne]
  have hcount := hcount offset (by omega) buffer.length (by omega)
  -- the request holds byte 3 or it does not
  by_cases hbad : offset ≤ 3 ∧ 3 < offset + buffer.length
  · rw [if_pos hbad] at hcount
    simp only [stutteringEnv, if_pos hbad]
    constructor
    · intro r hr
      rw [List.mem_singleton.mp hr]
      dsimp only
      omega
    · dsimp only [List.length_singleton]
      omega
    · intro i hi
      simp only [ReportedBad, List.mem_singleton, exists_eq_left]
      omega
    · exact hcount.symm
    · exact hgood
  · rw [if_neg hbad] at hcount
    simp only [stutteringEnv, if_neg hbad]
    constructor
    · intro r hr
      cases hr
    · exact Nat.zero_le _
    · intro i hi
      simp only [ReportedBad, List.not_mem_nil, false_and, exists_false, false_iff]
      omega
    · exact hcount.symm
    · exact hgood

theorem streamCandidate_chunking_stuttering :
    SameResult ⟨0, 8, [.read 0 1 6, .zero 6 2 .sparse], none, false, .zeroFillAndMap⟩ (· = 3)
      (streamCandidate stutteringEnv (fun _ => stutteringDigest)
        ⟨0, 8, [.read 0 1 6, .zero 6 2 .sparse], none, false, .zeroFillAndMap⟩ [0, 0, 0, 0] ())
      (streamCandidate stutteringEnv (fun _ => stutteringDigest)
        ⟨0, 8, [.read 0 1 6, .zero 6 2 .sparse], none, false, .zeroFillAndMap⟩ [0, 0] ()) :=
  streamCandidate_chunking stutteringEnv stutteringEnv _ _ _ _ _ _ () () rfl
    stutteringEnv_reportsBad stutteringEnv_reportsBad ⟨by decide, by decide⟩
    ⟨by decide, by decide⟩ (fun e h => by cases h) (fun e h => by cases h)

/-- The SHA-256 digest of the bytes `5, 6, 7, 8`. -/
def mismatchDigest : Digest :=
  #v[85, 229, 80, 159, 128, 82, 153, 130, 148, 38, 110, 229, 181, 12, 181, 146,
    147, 129, 145, 251, 93, 103, 247, 60, 172, 46, 96, 176, 39, 107, 27, 221]

/-- Four good bytes, under `completeOnly`, with a digest they do not have. -/
def mismatchPlan : ContentPlan :=
  ⟨0, 4, [.read 0 4 4], some (Vector.replicate 32 0), false, .completeOnly⟩

/-- A failure under `completeOnly` need not be a read failure. -/
theorem streamCandidate_hashMismatch :
    mismatchPlan.policy = .completeOnly ∧
      streamCandidate stutteringEnv (fun _ => mismatchDigest) mismatchPlan [0, 0] () =
        .error (.hashMismatch (Vector.replicate 32 0) mismatchDigest) ∧
      streamCandidate stutteringEnv (fun _ => mismatchDigest) mismatchPlan [0, 0, 0, 0] () =
        .error (.hashMismatch (Vector.replicate 32 0) mismatchDigest) :=
  ⟨rfl, rfl, rfl⟩

end Undelete.Restore
