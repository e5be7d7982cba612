import Undelete.Spec.EvidenceCorrect

/-!
# Streaming writes exactly the planned content

A successful run of `streamCandidate` delivers the plan: the writer has received
`logicalSize` bytes, the zero-fill evidence describes exactly the bytes that are
not source bytes, and the hash and the counters describe what was written.

The invariant `StreamInv` holds between any two writes. It is carried through the
write loop (`writeCommittedFrom_wrote`), through a chunk (`readChunk_inv`), through
the chunk loops (`streamRead_inv`, `streamZero_inv`) and through the segments
(`streamSegments_inv`).
-/

namespace Undelete.Restore

open Except IntervalLike

/-! ## Preflight -/

/-- A segment that is filled with zeros for a reason other than sparseness. -/
def ContentSegment.Lossy : ContentSegment → Prop
  | .read .. => False
  | .zero _ _ reason => reason ≠ .sparse

theorem preflightSegment_ok {sourceLen : Nat} {policy : PartialPolicy} {segment : ContentSegment}
    {bestEffort : Bool} (h : preflightSegment sourceLen policy segment = .ok bestEffort) :
    (bestEffort = true ↔ segment.Lossy) ∧ (policy = .completeOnly → ¬segment.Lossy) := by
  cases segment with
  | read o p n =>
    simp only [preflightSegment, bind_eq_ok, throw_bind, ite_throw_eq_ok, pure_eq_ok] at h
    obtain ⟨_, _, _, rfl⟩ := h
    simp [ContentSegment.Lossy]
  | zero o n reason =>
    simp only [preflightSegment] at h
    split at h
    · next hreason =>
      simp only [ite_throw_eq_ok, pure_eq_ok] at h
      obtain ⟨hpolicy, rfl⟩ := h
      exact ⟨by simp [ContentSegment.Lossy, hreason], fun hp => absurd hp hpolicy⟩
    · next hreason =>
      rw [pure_eq_ok] at h
      subst h
      simp [ContentSegment.Lossy, Decidable.not_not.mp hreason]

/-- Accepted segments tile the file, and the flag and the policy fit them. -/
theorem preflightSegments_ok {sourceLen : Nat} {plan : ContentPlan}
    {segments : List ContentSegment} {index offset finish : Nat} {flag flag' : Bool}
    (h : preflightSegments sourceLen plan segments index offset flag = .ok (finish, flag'))
    (hoffset : offset < 2 ^ 64) :
    Tiles segments offset finish ∧ finish < 2 ^ 64 ∧
    (flag' = true ↔ flag = true ∨ ∃ s ∈ segments, s.Lossy) ∧
    (plan.policy = .completeOnly → ∀ s ∈ segments, ¬s.Lossy) := by
  -- the loop carries the offset that the next segment must start at
  induction segments generalizing index offset flag with
  | nil =>
    simp only [preflightSegments, ok.injEq, Prod.mk.injEq] at h
    obtain ⟨rfl, rfl⟩ := h
    exact ⟨rfl, hoffset, by simp, by simp⟩
  | cons segment segments ih =>
    simp only [preflightSegments, bind_eq_ok, throw_bind, ite_throw_eq_ok, okOr_eq_ok] at h
    obtain ⟨hlen, hstart, logicalEnd, hend, _, bestEffort, hsegment, hrest⟩ := h
    obtain ⟨hlt, rfl⟩ := U64.checkedAdd_eq_some.mp hend
    obtain ⟨hbest, hpolicy⟩ := preflightSegment_ok hsegment
    obtain ⟨htiles, hfinish, hflag, hcomplete⟩ := ih hrest hlt
    refine ⟨⟨Decidable.not_not.mp hstart, Nat.pos_of_ne_zero hlen, htiles⟩, hfinish, ?_, ?_⟩
    · rw [hflag, Bool.or_eq_true, hbest, or_assoc]
      simp
    · intro hp s hs
      rcases List.mem_cons.mp hs with rfl | hs
      · exact hpolicy hp
      · exact hcomplete hp s hs

/-- What `preflight` accepts. -/
theorem preflight_ok {sourceLen scratchLen : Nat} {plan : ContentPlan}
    (h : preflight sourceLen plan scratchLen = .ok ()) :
    0 < scratchLen ∧ plan.logicalSize < 2 ^ 64 ∧ Tiles plan.segments 0 plan.logicalSize ∧
    (plan.requiresBestEffort = true ↔ ∃ s ∈ plan.segments, s.Lossy) ∧
    (plan.policy = .completeOnly → ∀ s ∈ plan.segments, ¬s.Lossy) := by
  simp only [preflight, bind_eq_ok, throw_bind, ite_throw_eq_ok, Prod.exists] at h
  obtain ⟨hscratch, _, finish, flag, hsegments, hfinish, hflag, _⟩ := h
  obtain ⟨htiles, hlt, hlossy, hcomplete⟩ := preflightSegments_ok hsegments (by decide)
  obtain rfl := Decidable.not_not.mp hfinish
  rw [← Decidable.not_not.mp hflag]
  exact ⟨by omega, hlt, htiles, by simpa using hlossy, hcomplete⟩

/-! ## Writing -/

variable {σ : Type} {env : StreamEnv σ} {plan : ContentPlan}

/-- The writer accepted exactly `bytes` between `st` and `st'`. -/
structure Wrote (bytes : Bytes) (st st' : StreamState σ) : Prop where
  output : st'.output = st.output ++ bytes
  hashed : st'.hashed = st.hashed ++ bytes
  bytesWritten : st'.bytesWritten = st.bytesWritten + bytes.length
  scratch : st'.scratch = st.scratch
  zeroFilledRanges : st'.zeroFilledRanges = st.zeroFilledRanges
  requiresBestEffort : st'.requiresBestEffort = st.requiresBestEffort

theorem Wrote.refl (st : StreamState σ) : Wrote [] st st := by
  constructor <;> simp

theorem Wrote.trans {a b : Bytes} {st st' st'' : StreamState σ} (h : Wrote a st st')
    (h' : Wrote b st' st'') : Wrote (a ++ b) st st'' where
  output := by rw [h'.output, h.output, List.append_assoc]
  hashed := by rw [h'.hashed, h.hashed, List.append_assoc]
  bytesWritten := by rw [h'.bytesWritten, h.bytesWritten, List.length_append, Nat.add_assoc]
  scratch := h'.scratch.trans h.scratch
  zeroFilledRanges := h'.zeroFilledRanges.trans h.zeroFilledRanges
  requiresBestEffort := h'.requiresBestEffort.trans h.requiresBestEffort

theorem checkCancel_wrote {st st' : StreamState σ} (h : checkCancel env st = .ok st') :
    Wrote [] st st' := by
  simp only [checkCancel] at h
  split at h
  · cases h
  · cases h; constructor <;> simp

/-- An accepted write takes at least one byte and no more than it was given. -/
theorem writeOnce_wrote {bytes : Bytes} {st st' : StreamState σ} {written : Nat}
    (h : writeOnce env bytes st = .ok (written, st')) :
    0 < written ∧ written ≤ bytes.length ∧ Wrote [] st st' := by
  simp only [writeOnce] at h
  split at h
  · cases h
  · next n s hzero _ =>
    split at h
    · next hle =>
      cases h
      refine ⟨Nat.pos_of_ne_zero fun hn => hzero (by rw [hn]), hle, by constructor <;> simp⟩
    · cases h
  · cases h

theorem commit_wrote {logicalSize : Nat} {accepted : Bytes} {st st' : StreamState σ}
    (h : commit logicalSize accepted st = .ok st') : Wrote accepted st st' := by
  simp only [commit, bind_eq_ok, okOr_eq_ok, pure_eq_ok] at h
  obtain ⟨_, hadd, rfl⟩ := h
  obtain ⟨_, rfl⟩ := U64.checkedAdd_eq_some.mp hadd
  constructor <;> simp

/-- The write loop delivers its argument whole, however the writer splits it. -/
theorem writeCommittedFrom_wrote {logicalSize fuel : Nat} {bytes : Bytes} {st st' : StreamState σ}
    (h : writeCommittedFrom env logicalSize fuel bytes st = .ok st')
    (hfuel : bytes.length ≤ fuel) : Wrote bytes st st' := by
  induction fuel generalizing bytes st with
  | zero =>
    obtain rfl := List.eq_nil_of_length_eq_zero (Nat.le_zero.mp hfuel)
    cases h
    exact Wrote.refl _
  | succ fuel ih =>
    simp only [writeCommittedFrom] at h
    split at h
    · next hempty =>
      obtain rfl := List.isEmpty_iff.mp hempty
      cases h
      exact Wrote.refl _
    · simp only [bind_eq_ok, Prod.exists] at h
      obtain ⟨st₁, hcancel, written, st₂, hwrite, st₃, hcommit, hrest⟩ := h
      obtain ⟨hpos, hle, hwrote⟩ := writeOnce_wrote hwrite
      have hdrop := ih hrest (by rw [List.length_drop]; omega)
      have hall := (((checkCancel_wrote hcancel).trans hwrote).trans (commit_wrote hcommit)).trans
        hdrop
      simpa using hall

theorem writeCommitted_wrote {logicalSize : Nat} {bytes : Bytes} {st st' : StreamState σ}
    (h : writeCommitted env logicalSize bytes st = .ok st') : Wrote bytes st st' :=
  writeCommittedFrom_wrote h (Nat.le_refl _)

/-! ## The invariant -/

/-- Best-effort reads deliver the bytes of `byte` wherever they report no failure. -/
def StreamEnv.Honest (env : StreamEnv σ) (byte : Nat → UInt8) : Prop :=
  ∀ s offset buffer i, i < buffer.length →
    ¬ReportedBad (env.readBestEffortAt s offset buffer).1.2.badRanges i →
    (env.readBestEffortAt s offset buffer).1.1[i]? = some (byte (offset + i))

/-- Byte `i` of the output is the source byte its read segment assigns to it. -/
def SourceByte (plan : ContentPlan) (byte : Nat → UInt8) (i : Nat) (b : Option UInt8) : Prop :=
  ∃ logicalOffset physicalOffset len,
    .read logicalOffset physicalOffset len ∈ plan.segments ∧
    logicalOffset ≤ i ∧ i < logicalOffset + len ∧
    b = some (byte (physicalOffset + (i - logicalOffset)))

/-- Some byte was zero-filled for a reason other than sparseness. -/
def LossyEvidence (ranges : List ZeroFilledRange) : Prop := ∃ r ∈ ranges, r.reason ≠ .sparse

/-- The state between two writes: the evidence is complete up to `limit`, and every
    byte written so far is a zero of the evidence or the planned source byte. -/
structure StreamInv (env : StreamEnv σ) (plan : ContentPlan) (scratchLen limit : Nat)
    (st : StreamState σ) : Prop where
  scratch_length : st.scratch.length = scratchLen
  hashed_eq : st.hashed = st.output
  bytesWritten_eq : st.bytesWritten = st.output.length
  evidence : EvidenceOk st.zeroFilledRanges limit
  flag_iff : st.requiresBestEffort = true ↔
    plan.requiresBestEffort = true ∨ LossyEvidence st.zeroFilledRanges
  completeOnly : plan.policy = .completeOnly → ¬LossyEvidence st.zeroFilledRanges
  zero_filled : ∀ i < st.output.length, CoveredBy st.zeroFilledRanges i → st.output[i]? = some 0
  source_bytes : ∀ byte, env.Honest byte → ∀ i < st.output.length,
    ¬CoveredBy st.zeroFilledRanges i → SourceByte plan byte i st.output[i]?

/-- A write keeps the invariant when each byte it delivers is what the evidence and
    the plan say. -/
theorem StreamInv.write {scratchLen limit : Nat} {bytes : Bytes} {st st' : StreamState σ}
    (h : StreamInv env plan scratchLen limit st) (hwrote : Wrote bytes st st')
    (hzero : ∀ i < bytes.length,
      CoveredBy st.zeroFilledRanges (st.output.length + i) → bytes[i]? = some 0)
    (hsource : ∀ byte, env.Honest byte → ∀ i < bytes.length,
      ¬CoveredBy st.zeroFilledRanges (st.output.length + i) →
      SourceByte plan byte (st.output.length + i) bytes[i]?) :
    StreamInv env plan scratchLen limit st' := by
  -- a byte of the longer output is new or old
  have hnew : ∀ i, st.output.length ≤ i → i < st'.output.length →
      ∃ j < bytes.length, i = st.output.length + j ∧ st'.output[i]? = bytes[j]? := by
    intro i hle hlt
    rw [hwrote.output, List.length_append] at hlt
    refine ⟨i - st.output.length, by omega, by omega, ?_⟩
    rw [hwrote.output, List.getElem?_append_right hle]
  have hold : ∀ i < st.output.length, st'.output[i]? = st.output[i]? := by
    intro i hlt
    rw [hwrote.output, List.getElem?_append_left hlt]
  constructor
  · rw [hwrote.scratch, h.scratch_length]
  · rw [hwrote.hashed, hwrote.output, h.hashed_eq]
  · rw [hwrote.bytesWritten, hwrote.output, List.length_append, h.bytesWritten_eq]
  · rw [hwrote.zeroFilledRanges]; exact h.evidence
  · rw [hwrote.requiresBestEffort, hwrote.zeroFilledRanges]; exact h.flag_iff
  · rw [hwrote.zeroFilledRanges]; exact h.completeOnly
  · rw [hwrote.zeroFilledRanges]
    intro i hi hcov
    by_cases hlt : i < st.output.length
    · rw [hold i hlt]; exact h.zero_filled i hlt hcov
    · obtain ⟨j, hj, rfl, hget⟩ := hnew i (Nat.le_of_not_lt hlt) hi
      rw [hget]; exact hzero j hj hcov
  · rw [hwrote.zeroFilledRanges]
    intro byte hbyte i hi hcov
    by_cases hlt : i < st.output.length
    · rw [hold i hlt]; exact h.source_bytes byte hbyte i hlt hcov
    · obtain ⟨j, hj, rfl, hget⟩ := hnew i (Nat.le_of_not_lt hlt) hi
      rw [hget]; exact hsource byte hbyte j hj hcov

/-- The invariant at an offset up to which everything has been written. -/
structure StreamedTo (env : StreamEnv σ) (plan : ContentPlan) (scratchLen offset : Nat)
    (st : StreamState σ) : Prop extends StreamInv env plan scratchLen offset st where
  output_length : st.output.length = offset

/-! ## Chunks of a read segment -/

theorem length_zeroFill (buffer : Bytes) {a b : Nat} (hab : a ≤ b) (hb : b ≤ buffer.length) :
    (zeroFill buffer a b).length = buffer.length := by
  simp only [zeroFill, List.length_append, List.length_take, List.length_replicate,
    List.length_drop]
  omega

theorem getElem?_zeroFill (buffer : Bytes) {a b : Nat} (hab : a ≤ b) (hb : b ≤ buffer.length)
    (i : Nat) : (zeroFill buffer a b)[i]? = if a ≤ i ∧ i < b then some 0 else buffer[i]? := by
  have htake : (buffer.take a).length = a := by rw [List.length_take]; omega
  have hzeros : (buffer.take a ++ List.replicate (b - a) (0 : UInt8)).length = b := by
    rw [List.length_append, htake, List.length_replicate]; omega
  rw [zeroFill]
  by_cases hi : i < b
  · rw [List.getElem?_append_left (by omega)]
    by_cases ha : i < a
    · rw [List.getElem?_append_left (by omega), List.getElem?_take_of_lt ha, if_neg (by omega)]
    · rw [List.getElem?_append_right (by omega), htake, if_pos ⟨by omega, hi⟩,
        List.getElem?_replicate_of_lt (by omega)]
  · rw [List.getElem?_append_right (by omega), hzeros, List.getElem?_drop, if_neg (by omega),
      Nat.add_sub_cancel' (by omega)]

/-- What the fill loop changes: the scratch buffer is zeroed in the bad ranges and the
    evidence gains exactly them. -/
structure Filled (chunkLogical finish : Nat) (badRanges : List (Nat × Nat))
    (st st' : StreamState σ) : Prop where
  output : st'.output = st.output
  hashed : st'.hashed = st.hashed
  bytesWritten : st'.bytesWritten = st.bytesWritten
  requiresBestEffort : st'.requiresBestEffort = st.requiresBestEffort
  evidence : EvidenceOk st'.zeroFilledRanges (chunkLogical + finish)
  coveredBy : ∀ i, CoveredBy st'.zeroFilledRanges i ↔ CoveredBy st.zeroFilledRanges i ∨
    chunkLogical ≤ i ∧ CoveredBy badRanges (i - chunkLogical)
  lossy : LossyEvidence st'.zeroFilledRanges ↔
    LossyEvidence st.zeroFilledRanges ∨ badRanges ≠ []
  scratch_length : st'.scratch.length = st.scratch.length
  scratch : ∀ i, (CoveredBy badRanges i → st'.scratch[i]? = some 0) ∧
    (¬CoveredBy badRanges i → st'.scratch[i]? = st.scratch[i]?)

theorem fillBadRanges_filled {chunkLogical first finish : Nat} {badRanges : List (Nat × Nat)}
    {st st' : StreamState σ} (h : fillBadRanges chunkLogical badRanges st = .ok st')
    (hasc : Ascending badRanges first finish) (hfinish : finish ≤ st.scratch.length)
    (hok : EvidenceOk st.zeroFilledRanges (chunkLogical + first)) :
    Filled chunkLogical finish badRanges st st' := by
  -- the ranges ascend, so each is behind the evidence so far
  induction badRanges generalizing first st with
  | nil =>
    cases h
    have hle : first ≤ finish := hasc
    exact
      { output := rfl
        hashed := rfl
        bytesWritten := rfl
        requiresBestEffort := rfl
        evidence := hok.mono (by omega)
        coveredBy := by simp
        lossy := by simp
        scratch_length := rfl
        scratch := by simp }
  | cons range ranges ih =>
    obtain ⟨badStart, badEnd⟩ := range
    obtain ⟨hstart, hpos, hrest⟩ := hasc
    simp only [fillBadRanges, bind_eq_ok] at h
    obtain ⟨evidence, happend, hfill⟩ := h
    simp only [start, len] at hstart hpos
    have hlt : badStart < badEnd := by omega
    have hstop : stop (badStart, badEnd) = badEnd := by simp only [stop, start, len]; omega
    have hend : badEnd ≤ finish := by rw [← hstop]; exact hrest.le
    have hcovers : ∀ i, Covers (badStart, badEnd) i ↔ badStart ≤ i ∧ i < badEnd := by
      intro i; simp only [Covers, hstop, start]
    have hnext : stop (⟨chunkLogical + badStart, badEnd - badStart, .previouslyReadFailed⟩ :
        ZeroFilledRange) = chunkLogical + badEnd := by
      simp only [stop, start, len]; omega
    -- the first range joins the evidence, and its bytes are zeroed
    have hevidence := appendZeroRange_ok happend hok (by simp only [start]; omega) hpos
    rw [hnext] at hevidence
    rw [hstop] at hrest
    have hlength := length_zeroFill st.scratch (Nat.le_of_lt hlt) (Nat.le_trans hend hfinish)
    have hzeroed := getElem?_zeroFill st.scratch (Nat.le_of_lt hlt) (Nat.le_trans hend hfinish)
    have hfilled := ih hfill hrest (by simp only [hlength]; exact hfinish) hevidence
    refine
      { output := hfilled.output
        hashed := hfilled.hashed
        bytesWritten := hfilled.bytesWritten
        requiresBestEffort := hfilled.requiresBestEffort
        evidence := hfilled.evidence
        coveredBy := ?_
        lossy := ?_
        scratch_length := hfilled.scratch_length.trans hlength
        scratch := ?_ }
    · intro i
      rw [hfilled.coveredBy, appendZeroRange_coveredBy happend, coveredBy_cons, hcovers, or_assoc]
      apply or_congr_right
      rw [Covers, hnext]
      simp only [start]
      by_cases hi : CoveredBy ranges (i - chunkLogical) <;>
        simp only [hi, and_true, or_true, and_false, or_false] <;> omega
    · have hreason := appendZeroRange_reason happend (· ≠ .sparse)
      rw [hfilled.lossy]
      simp only [LossyEvidence, hreason]
      simp
    · intro i
      obtain ⟨hin, hout⟩ := hfilled.scratch i
      rw [coveredBy_cons, hcovers]
      constructor
      · intro hi
        by_cases hlater : CoveredBy ranges i
        · exact hin hlater
        · rw [hout hlater, hzeroed, if_pos (hi.resolve_right hlater)]
      · intro hi
        rw [hout (fun hlater => hi (.inr hlater)), hzeroed, if_neg (fun hhere => hi (.inl hhere))]

/-- What a chunk's failed ranges do to the state; under `completeOnly` there are none. -/
theorem recordBadRanges_ok {chunkLogical finish : Nat} {badRanges : List (Nat × Nat)}
    {st st' : StreamState σ} (h : recordBadRanges plan chunkLogical badRanges st = .ok st')
    (hasc : Ascending badRanges 0 finish) (hfinish : finish ≤ st.scratch.length)
    (hok : EvidenceOk st.zeroFilledRanges chunkLogical) :
    Filled chunkLogical finish badRanges { st with requiresBestEffort := st'.requiresBestEffort }
      st' ∧
    (st'.requiresBestEffort = true ↔ st.requiresBestEffort = true ∨ badRanges ≠ []) ∧
    (plan.policy = .completeOnly → badRanges = []) := by
  cases badRanges with
  | nil =>
    cases h
    exact ⟨fillBadRanges_filled rfl hasc hfinish hok, by simp, fun _ => rfl⟩
  | cons range ranges =>
    simp only [recordBadRanges, bind_eq_ok, throw_bind, ite_throw_eq_ok, pure_eq_ok] at h
    obtain ⟨hpolicy, st₁, hfill, rfl⟩ := h
    obtain ⟨houtput, hhashed, hwritten, _, hevidence, hcovered, hlossy, hlength, hscratch⟩ :=
      fillBadRanges_filled hfill hasc hfinish hok
    exact ⟨⟨houtput, hhashed, hwritten, rfl, hevidence, hcovered, hlossy, hlength, hscratch⟩,
      by simp, fun hp => absurd hp hpolicy⟩

/-- Recording the failed ranges of the next chunk keeps the invariant. -/
theorem StreamedTo.recordBadRanges {scratchLen offset chunkLen : Nat} {badRanges : List (Nat × Nat)}
    {st st' : StreamState σ} (h : StreamedTo env plan scratchLen offset st)
    (hrecord : recordBadRanges plan offset badRanges st = .ok st')
    (hasc : Ascending badRanges 0 chunkLen) (hchunk : chunkLen ≤ scratchLen) :
    StreamInv env plan scratchLen (offset + chunkLen) st' ∧
    Filled offset chunkLen badRanges { st with requiresBestEffort := st'.requiresBestEffort }
      st' := by
  obtain ⟨hfilled, hflag, hcomplete⟩ := recordBadRanges_ok hrecord hasc
    (by rw [h.scratch_length]; exact hchunk) h.evidence
  -- what was written before is covered as it was
  have hcovered : ∀ i < offset,
      (CoveredBy st'.zeroFilledRanges i ↔ CoveredBy st.zeroFilledRanges i) := by
    intro i hi
    rw [hfilled.coveredBy]
    constructor
    · rintro (hi' | ⟨hle, _⟩)
      · exact hi'
      · omega
    · exact .inl
  refine ⟨?_, hfilled⟩
  constructor
  · rw [hfilled.scratch_length, h.scratch_length]
  · rw [hfilled.hashed, hfilled.output, h.hashed_eq]
  · rw [hfilled.bytesWritten, hfilled.output, h.bytesWritten_eq]
  · exact hfilled.evidence
  · rw [hflag, h.flag_iff, hfilled.lossy, or_assoc]
  · intro hp
    rw [hfilled.lossy]
    simp [h.completeOnly hp, hcomplete hp]
  · rw [hfilled.output]
    intro i hi
    rw [hcovered i (by rw [← h.output_length]; exact hi)]
    exact h.zero_filled i hi
  · rw [hfilled.output]
    intro byte hbyte i hi
    rw [hcovered i (by rw [← h.output_length]; exact hi)]
    exact h.source_bytes byte hbyte i hi

/-- One chunk of the read segment `(logicalOffset, physicalOffset, len)`. -/
theorem readChunk_inv {scratchLen logicalOffset physicalOffset len position chunkLen : Nat}
    {st st' : StreamState σ}
    (h : readChunk env plan (logicalOffset + position) (physicalOffset + position) chunkLen st
      = .ok st')
    (hinv : StreamedTo env plan scratchLen (logicalOffset + position) st)
    (hmem : .read logicalOffset physicalOffset len ∈ plan.segments)
    (hle : position + chunkLen ≤ len) (hchunk : chunkLen ≤ scratchLen) :
    StreamedTo env plan scratchLen (logicalOffset + position + chunkLen) st' ∧
    (LossyEvidence st.zeroFilledRanges → LossyEvidence st'.zeroFilledRanges) := by
  simp only [readChunk, bind_eq_ok] at h
  obtain ⟨badRanges, hnormalize, st₁, hrecord, hwrite⟩ := h
  have htake : (st.scratch.take chunkLen).length = chunkLen := by
    rw [List.length_take, hinv.scratch_length]; omega
  have hhonest := fun byte (hbyte : env.Honest byte) =>
    hbyte st.env (physicalOffset + position) (st.scratch.take chunkLen)
  have hlength := env.length_readBestEffortAt st.env (physicalOffset + position)
    (st.scratch.take chunkLen)
  rw [htake] at hlength
  generalize env.readBestEffortAt st.env (physicalOffset + position) (st.scratch.take chunkLen)
    = answer at hnormalize hrecord hhonest hlength
  obtain ⟨hasc, hreported⟩ := normalizeBadRanges_ok hnormalize
  -- The read leaves the invariant alone: it only fills the scratch buffer.
  have hread : StreamedTo env plan scratchLen (logicalOffset + position)
      { st with env := answer.2, scratch := answer.1.1 ++ st.scratch.drop chunkLen } :=
    { hinv with
      scratch_length := by
        have := hinv.scratch_length
        simp only [List.length_append, List.length_drop, hlength]
        omega }
  obtain ⟨hrecorded, hfilled⟩ := hread.recordBadRanges hrecord hasc hchunk
  have hwrote := writeCommitted_wrote hwrite
  have houtput : st₁.output.length = logicalOffset + position := by
    rw [hfilled.output]; exact hinv.output_length
  have hbytes : (st₁.scratch.take chunkLen).length = chunkLen := by
    rw [List.length_take, hrecorded.scratch_length]; omega
  have hcovered : ∀ i, CoveredBy st₁.zeroFilledRanges (logicalOffset + position + i) ↔
      CoveredBy badRanges i := by
    intro i
    rw [hfilled.coveredBy, Nat.add_sub_cancel_left]
    constructor
    · rintro (hi | ⟨_, hi⟩)
      · have := (hinv.evidence.ascending.lt_of_coveredBy hi).2
        omega
      · exact hi
    · exact fun hi => .inr ⟨Nat.le_add_right _ _, hi⟩
  have hscratch : ∀ i < chunkLen, (st₁.scratch.take chunkLen)[i]? = st₁.scratch[i]? :=
    fun i hi => List.getElem?_take_of_lt hi
  refine ⟨{ toStreamInv := hrecorded.write hwrote ?_ ?_, output_length := ?_ }, ?_⟩
  · rw [houtput, hbytes]
    intro i hi hcov
    rw [hscratch i hi]
    exact (hfilled.scratch i).1 ((hcovered i).mp hcov)
  · rw [houtput, hbytes]
    intro byte hbyte i hi hcov
    rw [hcovered] at hcov
    have hsource := hhonest byte hbyte i (by rw [htake]; exact hi)
      (fun hbad => hcov ((hreported i).mpr hbad))
    refine ⟨logicalOffset, physicalOffset, len, hmem, by omega, by omega, ?_⟩
    rw [hscratch i hi, (hfilled.scratch i).2 hcov]
    have hshift : physicalOffset + (logicalOffset + position + i - logicalOffset) =
        physicalOffset + position + i := by omega
    rw [List.getElem?_append_left (by rw [hlength]; exact hi), hsource, hshift]
  · rw [hwrote.output, List.length_append, houtput, hbytes]
  · rw [hwrote.zeroFilledRanges, hfilled.lossy]
    exact .inl

theorem streamRead_inv {scratchLen logicalOffset physicalOffset len fuel position : Nat}
    {st st' : StreamState σ}
    (h : streamRead env plan logicalOffset physicalOffset len fuel position st = .ok st')
    (hinv : StreamedTo env plan scratchLen (logicalOffset + position) st)
    (hmem : .read logicalOffset physicalOffset len ∈ plan.segments) (hscratch : 0 < scratchLen)
    (hle : position ≤ len) (hfuel : len - position ≤ fuel) :
    StreamedTo env plan scratchLen (logicalOffset + len) st' ∧
    (LossyEvidence st.zeroFilledRanges → LossyEvidence st'.zeroFilledRanges) := by
  -- one chunk for each unit of fuel
  induction fuel generalizing position st with
  | zero =>
    obtain rfl : position = len := by omega
    cases h
    exact ⟨hinv, id⟩
  | succ fuel ih =>
    simp only [streamRead] at h
    split at h
    · obtain rfl : position = len := by omega
      cases h
      exact ⟨hinv, id⟩
    · next hlt =>
      simp only [bind_eq_ok] at h
      obtain ⟨st₁, hcancel, st₂, hchunk, hrest⟩ := h
      have hpolled := checkCancel_wrote hcancel
      -- the poll for a cancellation writes nothing
      have hinv₁ : StreamedTo env plan scratchLen (logicalOffset + position) st₁ :=
        { toStreamInv := hinv.write hpolled (by simp) (by simp)
          output_length := by rw [hpolled.output]; simpa using hinv.output_length }
      have hlength := hinv₁.scratch_length
      obtain ⟨hinv₂, hmono₂⟩ := readChunk_inv hchunk hinv₁ hmem (by omega) (by omega)
      rw [Nat.add_assoc] at hinv₂
      obtain ⟨hinv', hmono⟩ := ih hrest hinv₂ (by omega) (by omega)
      refine ⟨hinv', fun hlossy => hmono (hmono₂ ?_)⟩
      rwa [hpolled.zeroFilledRanges]

/-! ## Zero segments -/

/-- Booking the next zero segment as evidence keeps the invariant. -/
theorem StreamedTo.appendZeroRange {scratchLen offset : Nat} {next : ZeroFilledRange}
    {ranges : List ZeroFilledRange} {st : StreamState σ}
    (h : StreamedTo env plan scratchLen offset st)
    (happend : appendZeroRange st.zeroFilledRanges next = .ok ranges)
    (hstart : start next = offset) (hlen : 0 < len next)
    (hlossy : next.reason ≠ .sparse →
      plan.requiresBestEffort = true ∧ plan.policy ≠ .completeOnly) :
    StreamInv env plan scratchLen (stop next) { st with zeroFilledRanges := ranges } := by
  -- the new range is behind all that was written
  have hcovered : ∀ i < st.output.length,
      (CoveredBy ranges i ↔ CoveredBy st.zeroFilledRanges i) := by
    intro i hi
    rw [h.output_length] at hi
    rw [appendZeroRange_coveredBy happend]
    constructor
    · rintro (hi' | ⟨hle, _⟩)
      · exact hi'
      · omega
    · exact .inl
  have hreason : LossyEvidence ranges ↔
      LossyEvidence st.zeroFilledRanges ∨ next.reason ≠ .sparse :=
    appendZeroRange_reason happend (· ≠ .sparse)
  constructor
  · exact h.scratch_length
  · exact h.hashed_eq
  · exact h.bytesWritten_eq
  · exact appendZeroRange_ok happend h.evidence (Nat.le_of_eq hstart.symm) hlen
  · rw [h.flag_iff, hreason]
    constructor
    · rintro (hplan | hev)
      · exact .inl hplan
      · exact .inr (.inl hev)
    · rintro (hplan | hev | hnext)
      · exact .inl hplan
      · exact .inr hev
      · exact .inl (hlossy hnext).1
  · intro hp
    rw [hreason]
    rintro (hev | hnext)
    · exact h.completeOnly hp hev
    · exact (hlossy hnext).2 hp
  · intro i hi
    rw [hcovered i hi]
    exact h.zero_filled i hi
  · intro byte hbyte i hi
    rw [hcovered i hi]
    exact h.source_bytes byte hbyte i hi

/-- The chunk loop of a zero segment whose bytes are all covered by the evidence. -/
theorem streamZero_inv {scratchLen logicalOffset len fuel position : Nat} {st st' : StreamState σ}
    (h : streamZero env plan len fuel position st = .ok st')
    (hinv : StreamInv env plan scratchLen (logicalOffset + len) st)
    (houtput : st.output.length = logicalOffset + position)
    (hcovered : ∀ i, logicalOffset ≤ i → i < logicalOffset + len →
      CoveredBy st.zeroFilledRanges i)
    (hscratch : 0 < scratchLen) (hle : position ≤ len) (hfuel : len - position ≤ fuel) :
    StreamedTo env plan scratchLen (logicalOffset + len) st' ∧
    st'.zeroFilledRanges = st.zeroFilledRanges := by
  induction fuel generalizing position st with
  | zero =>
    obtain rfl : position = len := by omega
    cases h
    exact ⟨{ hinv with output_length := houtput }, rfl⟩
  | succ fuel ih =>
    simp only [streamZero] at h
    split at h
    · obtain rfl : position = len := by omega
      cases h
      exact ⟨{ hinv with output_length := houtput }, rfl⟩
    · next hlt =>
      simp only [bind_eq_ok] at h
      obtain ⟨st₁, hcancel, st₂, hwrite, hrest⟩ := h
      have hpolled := checkCancel_wrote hcancel
      have hlength : st₁.scratch.length = scratchLen := by
        rw [hpolled.scratch, hinv.scratch_length]
      have hchunk : min (len - position) st₁.scratch.length ≤ st₁.scratch.length :=
        Nat.min_le_right _ _
      generalize hsize : min (len - position) st₁.scratch.length = chunkLen at *
      -- the buffer is zeroed as far as it is written
      have hpoll : StreamInv env plan scratchLen (logicalOffset + len)
          { st₁ with scratch := zeroFill st₁.scratch 0 chunkLen } :=
        { hinv.write hpolled (by simp) (by simp) with
          scratch_length := by
            rw [← hlength]; exact length_zeroFill st₁.scratch (Nat.zero_le _) hchunk }
      have hwrote := writeCommitted_wrote hwrite
      have hpolled_output : st₁.output.length = logicalOffset + position := by
        rw [hpolled.output]; simpa using houtput
      have hbytes : ((zeroFill st₁.scratch 0 chunkLen).take chunkLen).length = chunkLen := by
        rw [List.length_take, length_zeroFill st₁.scratch (Nat.zero_le _) hchunk]; omega
      have hranges : st₁.zeroFilledRanges = st.zeroFilledRanges := hpolled.zeroFilledRanges
      have hinv₂ : StreamInv env plan scratchLen (logicalOffset + len) st₂ := by
        refine hpoll.write hwrote ?_ ?_
        · rw [hbytes]
          intro i hi _
          rw [List.getElem?_take_of_lt hi, getElem?_zeroFill st₁.scratch (Nat.zero_le _) hchunk,
            if_pos ⟨Nat.zero_le _, hi⟩]
        · rw [hbytes]
          intro byte _ i hi hcov
          -- every byte of the segment is covered, so none must be a source byte
          refine absurd ?_ hcov
          rw [hpolled_output]
          simp only [hranges]
          exact hcovered _ (by omega) (by omega)
      have hranges₂ : st₂.zeroFilledRanges = st.zeroFilledRanges := by
        rw [hwrote.zeroFilledRanges]; exact hranges
      obtain ⟨hinv', hranges'⟩ := ih hrest hinv₂
        (by rw [hwrote.output, List.length_append, hbytes, hpolled_output]; omega)
        (by rw [hranges₂]; exact hcovered) (by omega) (by omega)
      exact ⟨hinv', hranges'.trans hranges₂⟩

/-! ## Segments -/

/-- One segment that starts where the output ends. -/
theorem streamSegment_inv {scratchLen : Nat} {segment : ContentSegment} {st st' : StreamState σ}
    (h : streamSegment env plan segment st = .ok st')
    (hinv : StreamedTo env plan scratchLen (start segment) st) (hmem : segment ∈ plan.segments)
    (hlen : 0 < len segment) (hscratch : 0 < scratchLen)
    (hlossy : segment.Lossy → plan.requiresBestEffort = true ∧ plan.policy ≠ .completeOnly) :
    StreamedTo env plan scratchLen (stop segment) st' ∧
    (LossyEvidence st.zeroFilledRanges → LossyEvidence st'.zeroFilledRanges) ∧
    (segment.Lossy → LossyEvidence st'.zeroFilledRanges) := by
  cases segment with
  | read logicalOffset physicalOffset n =>
    obtain ⟨hinv', hmono⟩ := streamRead_inv h hinv hmem hscratch (Nat.zero_le _) (Nat.le_refl _)
    exact ⟨hinv', hmono, False.elim⟩
  | zero logicalOffset n reason =>
    simp only [streamSegment, bind_eq_ok] at h
    obtain ⟨ranges, happend, hzero⟩ := h
    have hreason : LossyEvidence ranges ↔ LossyEvidence st.zeroFilledRanges ∨ reason ≠ .sparse :=
      appendZeroRange_reason happend (· ≠ .sparse)
    have hbooked := hinv.appendZeroRange happend rfl hlen hlossy
    obtain ⟨hinv', hranges⟩ := streamZero_inv hzero hbooked hinv.output_length
      (fun i hlo hhi => (appendZeroRange_coveredBy happend i).mpr (.inr ⟨hlo, hhi⟩))
      hscratch (Nat.zero_le _) (Nat.le_refl _)
    refine ⟨hinv', ?_, ?_⟩
    · rw [hranges]; exact fun hev => hreason.mpr (.inl hev)
    · rw [hranges]; exact fun hseg => hreason.mpr (.inr hseg)

theorem streamSegments_inv {scratchLen offset finish : Nat} {segments : List ContentSegment}
    {st st' : StreamState σ} (h : streamSegments env plan segments st = .ok st')
    (hinv : StreamedTo env plan scratchLen offset st) (htiles : Tiles segments offset finish)
    (hmem : ∀ s ∈ segments, s ∈ plan.segments) (hscratch : 0 < scratchLen)
    (hlossy : ∀ s ∈ segments, s.Lossy →
      plan.requiresBestEffort = true ∧ plan.policy ≠ .completeOnly) :
    StreamedTo env plan scratchLen finish st' ∧
    (LossyEvidence st.zeroFilledRanges → LossyEvidence st'.zeroFilledRanges) ∧
    (∀ s ∈ segments, s.Lossy → LossyEvidence st'.zeroFilledRanges) := by
  -- the segments tile, so each starts where the output ends
  induction segments generalizing offset st with
  | nil =>
    cases h
    obtain rfl : offset = finish := htiles
    exact ⟨hinv, id, by simp⟩
  | cons segment segments ih =>
    simp only [streamSegments, bind_eq_ok] at h
    obtain ⟨st₁, hsegment, hrest⟩ := h
    obtain ⟨rfl, hlen, htail⟩ := htiles
    obtain ⟨hinv₁, hmono₁, hseen⟩ := streamSegment_inv hsegment hinv
      (hmem segment List.mem_cons_self) hlen hscratch (hlossy segment List.mem_cons_self)
    obtain ⟨hinv', hmono, hrest_seen⟩ := ih hrest hinv₁ htail
      (fun s hs => hmem s (List.mem_cons_of_mem segment hs))
      (fun s hs => hlossy s (List.mem_cons_of_mem segment hs))
    refine ⟨hinv', fun hev => hmono (hmono₁ hev), fun s hs hl => ?_⟩
    rcases List.mem_cons.mp hs with rfl | hs
    · exact hmono (hseen hl)
    · exact hrest_seen s hs hl

/-! ## The whole stream -/

/-- A stream that succeeds passed the checks and ran over all its segments. -/
theorem streamCandidate_ok {sha256 : Bytes → Digest} {scratch : Bytes} {s : σ}
    {outcome : StreamOutcome} {st : StreamState σ}
    (h : streamCandidate env sha256 plan scratch s = .ok (outcome, st)) :
    preflight env.sourceLen plan scratch.length = .ok () ∧
      streamSegments env plan plan.segments
        { env := s, scratch, requiresBestEffort := plan.requiresBestEffort } = .ok st ∧
      outcome = ⟨st.bytesWritten, sha256 st.hashed, st.zeroFilledRanges,
        st.requiresBestEffort⟩ := by
  simp only [streamCandidate, bind_eq_ok, throw_bind, ite_throw_eq_ok] at h
  obtain ⟨_, hpreflight, _, _, st', hsegments, _, hhash⟩ := h
  have hresult : (⟨⟨st'.bytesWritten, sha256 st'.hashed, st'.zeroFilledRanges,
      st'.requiresBestEffort⟩, st'⟩ : StreamOutcome × StreamState σ) = (outcome, st) := by
    split at hhash
    · simp only [ite_throw_eq_ok, pure_eq_ok] at hhash
      exact hhash.2
    · exact pure_eq_ok.mp hhash
  obtain ⟨rfl, rfl⟩ := Prod.mk.inj hresult
  exact ⟨hpreflight, hsegments, rfl⟩

theorem StreamedTo.start (env : StreamEnv σ) (plan : ContentPlan) (scratch : Bytes) (s : σ) :
    StreamedTo env plan scratch.length 0
      { env := s, scratch, requiresBestEffort := plan.requiresBestEffort } where
  scratch_length := rfl
  hashed_eq := rfl
  bytesWritten_eq := rfl
  evidence := ⟨Nat.le_refl 0, List.Pairwise.nil⟩
  flag_iff := by simp [LossyEvidence]
  completeOnly := by simp [LossyEvidence]
  zero_filled := by simp
  source_bytes := by simp
  output_length := rfl

/-- A stream that succeeds keeps the invariant to the end of the file, and its flag says whether
    its evidence is lossy. -/
theorem streamCandidate_streamed {sha256 : Bytes → Digest} {scratch : Bytes} {s : σ}
    {outcome : StreamOutcome} {st : StreamState σ}
    (h : streamCandidate env sha256 plan scratch s = .ok (outcome, st)) :
    plan.logicalSize < 2 ^ 64 ∧ StreamedTo env plan scratch.length plan.logicalSize st ∧
      (st.requiresBestEffort = true ↔ LossyEvidence st.zeroFilledRanges) := by
  obtain ⟨hpreflight, hsegments, _⟩ := streamCandidate_ok h
  obtain ⟨hscratch, hsize, htiles, hflag, hcomplete⟩ := preflight_ok hpreflight
  obtain ⟨hinv, _, hseen⟩ := streamSegments_inv hsegments (.start env plan scratch s) htiles
    (fun _ hs => hs) hscratch
    (fun s hs hl => ⟨hflag.mpr ⟨s, hs, hl⟩, fun hp => hcomplete hp s hs hl⟩)
  refine ⟨hsize, hinv, ?_⟩
  -- a segment that is lossy leaves lossy evidence
  rw [hinv.flag_iff, hflag]
  constructor
  · rintro (⟨segment, hmem, hlossy⟩ | hlossy)
    · exact hseen segment hmem hlossy
    · exact hlossy
  · exact .inr

/-- What the outcome of a successful stream says about the bytes the writer received. -/
structure Delivered (env : StreamEnv σ) (sha256 : Bytes → Digest) (plan : ContentPlan)
    (output : Bytes) (outcome : StreamOutcome) : Prop where
  length_output : output.length = plan.logicalSize
  bytesWritten : outcome.bytesWritten = output.length
  sha256_output : outcome.sha256 = sha256 output
  evidence : EvidenceOk outcome.zeroFilledRanges plan.logicalSize
  zero_filled : ∀ i, CoveredBy outcome.zeroFilledRanges i → output[i]? = some 0
  source_bytes : ∀ byte, env.Honest byte → ∀ i < plan.logicalSize,
    ¬CoveredBy outcome.zeroFilledRanges i → SourceByte plan byte i output[i]?
  requiresBestEffort : outcome.requiresBestEffort = true ↔
    ∃ r ∈ outcome.zeroFilledRanges, r.reason ≠ .sparse
  completeOnly : plan.policy = .completeOnly →
    ∀ r ∈ outcome.zeroFilledRanges, r.reason = .sparse
  readable : Ascending (readableRanges plan.logicalSize outcome.zeroFilledRanges) 0
    plan.logicalSize
  partition : ∀ i,
    (i < plan.logicalSize ↔
      CoveredBy (readableRanges plan.logicalSize outcome.zeroFilledRanges) i ∨
      CoveredBy outcome.zeroFilledRanges i) ∧
    ¬(CoveredBy (readableRanges plan.logicalSize outcome.zeroFilledRanges) i ∧
      CoveredBy outcome.zeroFilledRanges i)

/-- A stream that succeeds delivered its plan. -/
theorem streamCandidate_delivered (env : StreamEnv σ) (sha256 : Bytes → Digest)
    (plan : ContentPlan) (scratch : Bytes) (s : σ) (outcome : StreamOutcome) (st : StreamState σ)
    (h : streamCandidate env sha256 plan scratch s = .ok (outcome, st)) :
    Delivered env sha256 plan st.output outcome := by
  obtain ⟨_, _, rfl⟩ := streamCandidate_ok h
  obtain ⟨hsize, hinv, hflag⟩ := streamCandidate_streamed h
  have hascending := hinv.evidence.ascending
  have hcovered := readableRanges_coveredBy hsize hascending
  -- no range reaches behind the file
  have hbounds : ∀ i, CoveredBy st.zeroFilledRanges i → i < plan.logicalSize :=
    fun i hi => (hascending.lt_of_coveredBy hi).2
  constructor
  · exact hinv.output_length
  · exact hinv.bytesWritten_eq
  · exact congrArg sha256 hinv.hashed_eq
  · exact hinv.evidence
  · intro i hi
    exact hinv.zero_filled i (by rw [hinv.output_length]; exact hbounds i hi) hi
  · intro byte hbyte i hi
    exact hinv.source_bytes byte hbyte i (by rw [hinv.output_length]; exact hi)
  · exact hflag
  · intro hp r hr
    exact Decidable.not_not.mp fun hne => hinv.completeOnly hp ⟨r, hr, hne⟩
  · exact readableRanges_ascending hsize hascending
  · intro i
    rw [hcovered]
    constructor
    · constructor
      · intro hi
        by_cases hz : CoveredBy st.zeroFilledRanges i
        · exact .inr hz
        · exact .inl ⟨hi, hz⟩
      · rintro (⟨hi, _⟩ | hz)
        · exact hi
        · exact hbounds i hz
    · rintro ⟨⟨_, hz⟩, hz'⟩
      exact hz hz'

/-- A source of eight bytes whose fourth byte is unreadable, and a writer that takes
    one byte at a time. -/
def stutteringEnv : StreamEnv Unit where
  sourceLen := 8
  readBestEffortAt _ offset buffer :=
    ((buffer.mapIdx fun i _ => if offset + i = 3 then 0 else UInt8.ofNat (offset + i + 1),
      if offset ≤ 3 ∧ 3 < offset + buffer.length then ⟨buffer.length - 1, [(3 - offset, 1)]⟩
      else ⟨buffer.length, []⟩), ())
  write _ _ := (.ok 1, ())
  isCancelled _ := (false, ())
  length_readBestEffortAt _ _ _ := by simp

/-- The SHA-256 digest of the bytes `2, 3, 0, 5, 6, 7, 0, 0`. -/
def stutteringDigest : Digest :=
  #v[87, 87, 46, 239, 98, 110, 154, 250, 16, 45, 132, 175, 79, 242, 173, 93,
    159, 154, 184, 253, 148, 49, 216, 193, 34, 15, 102, 27, 148, 102, 65, 23]

/-- Six source bytes and two sparse ones through a scratch buffer of four bytes. -/
theorem streamCandidate_delivered_stuttering :
    Delivered stutteringEnv (fun _ => stutteringDigest)
      ⟨0, 8, [.read 0 1 6, .zero 6 2 .sparse], none, false, .zeroFillAndMap⟩
      [2, 3, 0, 5, 6, 7, 0, 0]
      ⟨8, stutteringDigest, [⟨2, 1, .previouslyReadFailed⟩, ⟨6, 2, .sparse⟩], true⟩ :=
  streamCandidate_delivered stutteringEnv _ _ [0, 0, 0, 0] () _
    { env := (), scratch := [0, 0, 0, 5], output := [2, 3, 0, 5, 6, 7, 0, 0],
      hashed := [2, 3, 0, 5, 6, 7, 0, 0],
      progress := (List.range 8).map fun i => ⟨i + 1, 8⟩, bytesWritten := 8,
      zeroFilledRanges := [⟨2, 1, .previouslyReadFailed⟩, ⟨6, 2, .sparse⟩],
      requiresBestEffort := true } rfl

end Undelete.Restore
