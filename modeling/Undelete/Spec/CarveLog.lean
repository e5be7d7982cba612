import Undelete.ForStd.Except
import Undelete.Native.Carve.Scan
import Undelete.Spec.JpegCorrect

/-!
# The log of a carving run

Every run of the scan is accounted for by a log with one entry per signature that was
attempted: the counters, the candidates and the partial flag of the report are those
of the log (`Logged`).

## Key results

- `inspectLoop_spec`, `readAndInspectCandidate_spec`: a validation stays inside the
  budgets, and only counts what it reads.
- `processSignature_spec`: one more signature is one more entry.
-/

namespace Undelete.Carve

open Except

/-! ## Coverage -/

/-- `c'` is `c` with more read issues, and partial if `c` was. -/
def Issues (c c' : CarveCoverage) : Prop :=
  ∃ isPartial readErrors readErrorsOmitted partialReasons,
    c' = { c with isPartial, readErrors, readErrorsOmitted, partialReasons } ∧
    (c.isPartial = true → isPartial = true)

theorem Issues.refl (c : CarveCoverage) : Issues c c := ⟨_, _, _, _, rfl, id⟩

theorem Issues.trans {c c₁ c₂ : CarveCoverage} (h : Issues c c₁) (h' : Issues c₁ c₂) :
    Issues c c₂ := by
  obtain ⟨p, e, o, r, rfl, hp⟩ := h
  obtain ⟨p', e', o', r', rfl, hp'⟩ := h'
  exact ⟨p', e', o', r', rfl, fun h => hp' (hp h)⟩

theorem issues_pushReadIssue (c : CarveCoverage) (issue : CarveReadIssue) :
    Issues c (pushReadIssue c issue) ∧ (pushReadIssue c issue).isPartial = true := by
  simp only [pushReadIssue, appendIssue]
  repeat' split
  all_goals exact ⟨⟨true, _, _, _, rfl, fun _ => rfl⟩, rfl⟩

/-- Reporting the bad ranges of a read makes the coverage partial, unless there are none. -/
theorem issues_pushReadIssues (c : CarveCoverage) (absolute : Nat) (badRanges : List (Nat × Nat)) :
    Issues c (pushReadIssues c absolute badRanges) ∧
      (badRanges ≠ [] → (pushReadIssues c absolute badRanges).isPartial = true) := by
  unfold pushReadIssues
  induction badRanges generalizing c with
  | nil => exact ⟨Issues.refl c, fun h => absurd rfl h⟩
  | cons r rest ih =>
    rw [List.foldl_cons]
    obtain ⟨hone, hincomplete⟩ := issues_pushReadIssue c ⟨absolute + r.1, r.2 - r.1⟩
    obtain ⟨hrest, -⟩ := ih (pushReadIssue c ⟨absolute + r.1, r.2 - r.1⟩)
    refine ⟨hone.trans hrest, ?_⟩
    intro _
    obtain ⟨p, e, o, rs, heq, hp⟩ := hrest
    rw [heq]
    exact hp hincomplete

/-! ## Validating one signature -/

/-- A validator counts the bytes it consumes. -/
theorem feedFrom_processedBytes_le (v : JpegValidator) (index : Nat) (bytes : Bytes) :
    (v.feedFrom index bytes).2.processedBytes ≤ v.processedBytes + bytes.length := by
  induction bytes generalizing v index with
  | nil => exact Nat.le_refl _
  | cons byte rest ih =>
    simp only [JpegValidator.feedFrom, List.length_cons]
    split
    · show (v.consume byte).2.processedBytes ≤ _
      rw [consume_processedBytes]
      omega
    · next processed hprocessed =>
      obtain ⟨-, rfl⟩ := U64.checkedAdd_eq_some.mp hprocessed
      rw [consume_processedBytes]
      split
      · have := ih { (v.consume byte).2 with processedBytes := v.processedBytes + 1 } (index + 1)
        simp only at this
        omega
      · show v.processedBytes + 1 ≤ _
        omega
      · show v.processedBytes + 1 ≤ _
        omega

theorem feed_processedBytes_le (v : JpegValidator) (bytes : Bytes) :
    (v.feed bytes).2.processedBytes ≤ v.processedBytes + bytes.length := by
  by_cases h : v.status = .needMore
  · rw [feed_of_needMore h]
    exact feedFrom_processedBytes_le v 0 bytes
  · rw [feed_of_settled h]
    omega

/-- What a validation does to the coverage: it reads at most `budget` bytes more, and
    reports read issues. -/
def Inspected (budget : Nat) (c c' : CarveCoverage) : Prop :=
  ∃ n, n ≤ budget ∧ Issues { c with validationBytesRead := c.validationBytesRead + n } c'

theorem Inspected.validationBytesRead {budget : Nat} {c c' : CarveCoverage}
    (h : Inspected budget c c') : c.validationBytesRead ≤ c'.validationBytesRead ∧
      c'.validationBytesRead ≤ c.validationBytesRead + budget := by
  obtain ⟨n, hn, p, e, o, r, rfl, -⟩ := h
  exact ⟨Nat.le_add_right _ _, Nat.add_le_add_left hn _⟩

/-- The verdicts of the validation loop: a length inside the permitted bytes, and a
    read failure only with a report of it. -/
inductive LoopVerdict (permitted : Nat) (c : CarveCoverage) : Option CandidateRead → Prop where
  | valid {len : Nat} {digest : Vector UInt8 32} : len ≤ permitted →
      LoopVerdict permitted c (some (.valid len digest))
  | invalid : LoopVerdict permitted c (some .invalid)
  | readFailure : c.isPartial = true → LoopVerdict permitted c (some .readFailure)
  | none : LoopVerdict permitted c none

theorem validationReadLen_bounds {chunkSize permitted consumed : Nat} (hchunk : 0 < chunkSize)
    (h : consumed < permitted) :
    0 < validationReadLen chunkSize permitted consumed ∧
      validationReadLen chunkSize permitted consumed ≤ permitted - consumed := by
  simp only [validationReadLen, initialValidationReadBytes]
  split <;> omega

theorem inspectLoop_spec (reader : SourceReader) (sha256 : Bytes → Vector UInt8 32)
    {chunkSize start permitted fuel : Nat} {st : InspectState} {c : CarveCoverage}
    (hchunk : 0 < chunkSize) (hstart : start + permitted < 2 ^ 64)
    (hvalidation : c.validationBytesRead + (permitted - st.consumed) < 2 ^ 64)
    (hfuel : permitted - st.consumed ≤ fuel) (hconsumed : st.consumed ≤ permitted)
    (hprocessed : st.validator.processedBytes ≤ st.consumed) :
    ∃ verdict c', inspectLoop reader sha256 chunkSize start permitted fuel st c =
        .ok (verdict, c') ∧
      Inspected (permitted - st.consumed) c c' ∧ LoopVerdict permitted c' verdict := by
  induction fuel generalizing st c with
  | zero =>
    exact ⟨none, c, rfl, ⟨0, Nat.zero_le _, Issues.refl c⟩, .none⟩
  | succ fuel ih =>
    rw [inspectLoop]
    by_cases hlt : st.consumed < permitted
    swap
    · rw [if_neg hlt]
      exact ⟨none, c, rfl, ⟨0, Nat.zero_le _, Issues.refl c⟩, .none⟩
    rw [if_pos hlt]
    obtain ⟨hpos, hle⟩ := validationReadLen_bounds hchunk hlt
    simp only
    generalize validationReadLen chunkSize permitted st.consumed = readLen at hpos hle ⊢
    generalize hread : reader.readBestEffortAt (start + st.consumed) (st.buffer.take readLen) = read
    obtain ⟨slice, outcome⟩ := read
    have hslice : slice.length ≤ readLen := by
      have := reader.length_readBestEffortAt (start + st.consumed) (st.buffer.take readLen)
      rw [hread, List.length_take] at this
      exact this ▸ Nat.min_le_left _ _
    simp only [U64.checkedAdd_of_lt (show start + st.consumed < 2 ^ 64 by omega),
      U64.checkedAdd_of_lt (show c.validationBytesRead + readLen < 2 ^ 64 by omega),
      U64.checkedAdd_of_lt (show st.consumed + readLen < 2 ^ 64 by omega), okOr, bind_ok, hread]
    have hcount : Inspected (permitted - st.consumed) c
        { c with validationBytesRead := c.validationBytesRead + readLen } :=
      ⟨readLen, hle, Issues.refl _⟩
    by_cases hbad : normalizeBadRanges readLen outcome = []
    swap
    · rw [if_pos hbad]
      obtain ⟨hissues, hincomplete⟩ := issues_pushReadIssues
        { c with validationBytesRead := c.validationBytesRead + readLen } (start + st.consumed)
        (normalizeBadRanges readLen outcome)
      exact ⟨_, _, rfl, ⟨readLen, hle, hissues⟩, .readFailure (hincomplete hbad)⟩
    rw [if_neg (not_not_intro hbad)]
    have hfed := feed_processedBytes_le st.validator slice
    split
    · exact ⟨_, _, rfl, hcount, .valid (by omega)⟩
    · exact ⟨_, _, rfl, hcount, .invalid⟩
    · obtain ⟨verdict, c', hrun, ⟨n, hn, hissues⟩, hverdict⟩ := @ih
        ⟨st.consumed + readLen, slice ++ st.buffer.drop readLen, (st.validator.feed slice).2,
          st.hashed ++ slice.take (st.validator.feed slice).1.consumed⟩
        { c with validationBytesRead := c.validationBytesRead + readLen }
        (by simp only; omega) (by simp only; omega) (by simp only; omega) (by simp only; omega)
      refine ⟨verdict, c', hrun, ⟨readLen + n, ?_, ?_⟩, hverdict⟩
      · simp only at hn
        omega
      · rw [← Nat.add_assoc]
        exact hissues

/-- Limits accepted by `validateLimits`. -/
structure CarveLimits.Valid (limits : CarveLimits) : Prop where
  chunkSize_ge : 2 ≤ limits.chunkSize
  chunkSize_le : limits.chunkSize ≤ Carve.maxChunkSize
  candidateBytes_le : limits.maxCandidateBytes ≤ Carve.maxCandidateBytes
  candidates_pos : 0 < limits.maxCandidates
  attempts_le : limits.maxSignatureAttempts ≤ Carve.maxSignatureAttempts
  validation_le : limits.maxValidationBytes ≤ Carve.maxValidationBytes

theorem validateLimits_valid {limits : CarveLimits} (h : validateLimits limits = .ok ()) :
    limits.Valid := by
  simp only [validateLimits, throw_bind, ite_throw_eq_ok, pure_eq_ok, not_or,
    not_not] at h
  obtain ⟨hchunk, ⟨-, hbytes⟩, ⟨hcandidates, -⟩, -, -, ⟨-, hattempts⟩,
    ⟨-, hvalidation⟩, -⟩ := h
  exact ⟨hchunk.1, hchunk.2, Nat.le_of_not_lt hbytes, Nat.pos_of_ne_zero hcandidates,
    Nat.le_of_not_lt hattempts, Nat.le_of_not_lt hvalidation⟩

theorem CarveLimits.Valid.validation_lt {limits : CarveLimits} (h : limits.Valid) :
    limits.maxValidationBytes < 2 ^ 64 := by
  have := h.validation_le
  unfold Carve.maxValidationBytes at this
  omega

/-- The verdicts on one signature, with the coverage they leave. -/
inductive Verdict (limits : CarveLimits) (available : Nat) (c : CarveCoverage) :
    CandidateRead → Prop where
  | valid {len : Nat} {digest : Vector UInt8 32} : len ≤ limits.maxCandidateBytes →
      len ≤ available → Verdict limits available c (.valid len digest)
  | invalid : Verdict limits available c .invalid
  | truncated : Verdict limits available c .truncated
  | byteLimit : Verdict limits available c .byteLimit
  | validationByteLimit : Verdict limits available c .validationByteLimit
  | readFailure : c.isPartial = true → Verdict limits available c .readFailure

theorem readAndInspectCandidate_spec (reader : SourceReader) (sha256 : Bytes → Vector UInt8 32)
    {limits : CarveLimits} (hlimits : limits.Valid) {start regionEnd : Nat} {c : CarveCoverage}
    (hstart : start ≤ regionEnd) (hend : regionEnd < 2 ^ 64)
    (hvalidation : c.validationBytesRead ≤ limits.maxValidationBytes) :
    ∃ verdict c', readAndInspectCandidate reader sha256 start regionEnd limits c =
        .ok (verdict, c') ∧
      Inspected (limits.maxValidationBytes - c.validationBytesRead) c c' ∧
      Verdict limits (regionEnd - start) c' verdict := by
  have hlt := hlimits.validation_lt
  have hchunk := hlimits.chunkSize_ge
  simp only [readAndInspectCandidate, throw_bind]
  rw [if_neg (by omega)]
  by_cases hzero : limits.maxValidationBytes - c.validationBytesRead = 0
  · rw [if_pos hzero]
    exact ⟨_, c, rfl, ⟨0, Nat.zero_le _, Issues.refl c⟩, .validationByteLimit⟩
  rw [if_neg hzero]
  generalize hpermitted : min (min (regionEnd - start) limits.maxCandidateBytes)
    (limits.maxValidationBytes - c.validationBytesRead) = permitted
  have hbounds : permitted ≤ regionEnd - start ∧ permitted ≤ limits.maxCandidateBytes ∧
      permitted ≤ limits.maxValidationBytes - c.validationBytesRead := by omega
  obtain ⟨verdict, c', hrun, ⟨n, hn, hissues⟩, hverdict⟩ := @inspectLoop_spec reader sha256
    limits.chunkSize start permitted permitted
    ⟨0, List.replicate (min limits.chunkSize permitted) 0, .new, []⟩ c
    (by omega) (by omega) (by simp only; omega) (by simp only; omega) (Nat.zero_le _)
    (Nat.le_refl _)
  have hcount : Inspected (limits.maxValidationBytes - c.validationBytesRead) c c' :=
    ⟨n, by simp only at hn; omega, hissues⟩
  rw [hrun, bind_ok]
  cases hverdict with
  | valid hlen => exact ⟨_, c', rfl, hcount, .valid (by omega) (by omega)⟩
  | invalid => exact ⟨_, c', rfl, hcount, .invalid⟩
  | readFailure hincomplete => exact ⟨_, c', rfl, hcount, .readFailure hincomplete⟩
  | none =>
    simp only
    split
    · exact ⟨_, c', rfl, hcount, .validationByteLimit⟩
    · split
      · exact ⟨_, c', rfl, hcount, .byteLimit⟩
      · exact ⟨_, c', rfl, hcount, .truncated⟩

/-! ## The log -/

/-- One signature that was attempted, and the verdict on it. -/
structure Attempt where
  region : CarveRegion
  offset : Nat
  verdict : CandidateRead
deriving DecidableEq, Repr

/-- The verdicts that settle a signature. -/
def CandidateRead.Final : CandidateRead → Prop
  | .valid .. | .invalid | .truncated => True
  | .byteLimit | .validationByteLimit | .readFailure => False

/-- The candidate of an accepted signature. -/
def Attempt.candidate? (a : Attempt) : Option Candidate :=
  match a.verdict with
  | .valid len _ => some (carvedCandidate a.offset len a.region.availability)
  | _ => none

/-- The evidence of an accepted signature. -/
def Attempt.evidence? (a : Attempt) : Option CarveEvidence :=
  match a.verdict with
  | .valid len digest => some ⟨a.offset, a.offset, len, digest, jpegValidatorVersion⟩
  | _ => none

/-- The verdict of an attempt is the one its validation gave, inside the validation
    bytes read so far. -/
def Attempt.Genuine (reader : SourceReader) (sha256 : Bytes → Vector UInt8 32)
    (limits : CarveLimits) (validationBytesRead : Nat) (a : Attempt) : Prop :=
  ∃ c c', readAndInspectCandidate reader sha256 a.offset a.region.region.stop limits c =
      .ok (a.verdict, c') ∧ c'.validationBytesRead ≤ validationBytesRead

/-- The report of a run with this log. -/
structure Logged (reader : SourceReader) (sha256 : Bytes → Vector UInt8 32)
    (limits : CarveLimits) (log : List Attempt) (report : CarveReport) : Prop where
  genuine : ∀ a ∈ log,
    a.Genuine reader sha256 limits report.coverage.validationBytesRead
  attempted : report.coverage.signaturesAttempted = log.length
  attempted_le : log.length ≤ limits.maxSignatureAttempts
  validation_le : report.coverage.validationBytesRead ≤ limits.maxValidationBytes
  candidates : report.candidates = log.filterMap Attempt.candidate?
  evidence : report.evidence = log.filterMap Attempt.evidence?
  candidates_le : report.candidates.length ≤ limits.maxCandidates
  size_le : ∀ cand ∈ report.candidates, cand.size ≤ limits.maxCandidateBytes
  rejected : report.coverage.rejectedSignatures = log.countP (·.verdict = .invalid)
  truncated : report.coverage.truncatedSignatures = log.countP (·.verdict = .truncated)
  byteLimit : report.coverage.candidateByteLimitHits = log.countP (·.verdict = .byteLimit)
  final : report.coverage.isPartial = false → ∀ a ∈ log, a.verdict.Final

/-- A budget ended the scan. -/
def Exhausted (report : CarveReport) : Prop :=
  report.coverage.isPartial = true ∧ (report.coverage.candidateLimitReached = true ∨
    report.coverage.signatureAttemptLimitReached = true ∨
    report.coverage.validationByteLimitReached = true)

theorem Attempt.Genuine.mono {reader : SourceReader} {sha256 : Bytes → Vector UInt8 32}
    {limits : CarveLimits} {n m : Nat} {a : Attempt} (h : a.Genuine reader sha256 limits n)
    (hle : n ≤ m) : a.Genuine reader sha256 limits m := by
  obtain ⟨c, c', hrun, hc'⟩ := h
  exact ⟨c, c', hrun, Nat.le_trans hc' hle⟩

/-- Reading more of a region leaves the log as it is. -/
theorem Logged.issues {reader : SourceReader} {sha256 : Bytes → Vector UInt8 32}
    {limits : CarveLimits} {log : List Attempt} {report : CarveReport}
    (h : Logged reader sha256 limits log report) {c : CarveCoverage} (n : Nat)
    (hc : Issues { report.coverage with bytesScanned := n } c) :
    Logged reader sha256 limits log { report with coverage := c } := by
  obtain ⟨p, e, o, r, rfl, hp⟩ := hc
  refine { h with final := ?_ }
  intro hincomplete
  apply h.final
  simp only at hp hincomplete
  rw [hincomplete] at hp
  simpa using hp

/-- What a validation leaves of the coverage. -/
theorem Inspected.fields {budget : Nat} {c c' : CarveCoverage} (h : Inspected budget c c') :
    ∃ n isPartial readErrors readErrorsOmitted partialReasons,
      c' = { c with
        isPartial, readErrors, readErrorsOmitted, partialReasons,
        validationBytesRead := c.validationBytesRead + n } ∧
      n ≤ budget ∧ (c.isPartial = true → isPartial = true) := by
  obtain ⟨n, hn, p, e, o, r, heq, hp⟩ := h
  exact ⟨n, p, e, o, r, heq, hn, hp⟩

theorem saturatingAdd_countP {log : List Attempt} {n : Nat} {p : Attempt → Bool}
    (hlen : log.length < 2 ^ 63) (h : n = log.countP p) :
    U64.saturatingAdd n 1 = log.countP p + 1 := by
  have := List.countP_le_length (p := p) (l := log)
  rw [U64.saturatingAdd_of_lt (by omega), h]

/-- Recording a verdict adds it to the log. -/
theorem Logged.record {reader : SourceReader} {sha256 : Bytes → Vector UInt8 32}
    {limits : CarveLimits} (hlimits : limits.Valid) {carveRegion : CarveRegion}
    {offset available budget : Nat} {log : List Attempt} {report : CarveReport}
    (h : Logged reader sha256 limits log report)
    (hcandidates : report.candidates.length < limits.maxCandidates)
    (hattempts : report.coverage.signaturesAttempted < limits.maxSignatureAttempts)
    {c : CarveCoverage} {verdict : CandidateRead}
    (hc : Inspected budget
      { report.coverage with signaturesAttempted := report.coverage.signaturesAttempted + 1 } c)
    (hvalidation : c.validationBytesRead ≤ limits.maxValidationBytes)
    (hverdict : Verdict limits available c verdict)
    (hgenuine : Attempt.Genuine reader sha256 limits c.validationBytesRead
      ⟨carveRegion, offset, verdict⟩) :
    ∃ stop report',
      recordVerdict offset carveRegion limits { report with coverage := c } verdict =
        (stop, report') ∧
      Logged reader sha256 limits (log ++ [⟨carveRegion, offset, verdict⟩]) report' ∧
      report'.coverage.bytesRequested = report.coverage.bytesRequested ∧
      report'.coverage.bytesScanned = report.coverage.bytesScanned ∧
      (report.coverage.isPartial = true → report'.coverage.isPartial = true) ∧
      if stop then Exhausted report' else report'.candidates.length < limits.maxCandidates := by
  have hlen : log.length < 2 ^ 63 := by
    have := hlimits.attempts_le
    have := h.attempted_le
    unfold Carve.maxSignatureAttempts at *
    omega
  have hread := hc.validationBytesRead.1
  obtain ⟨n, p, e, o, rs, rfl, -, hp⟩ := hc.fields
  simp only at hp hvalidation hread
  -- the entries of the log do not depend on the verdict
  have hgenuine' : ∀ a ∈ log ++ [⟨carveRegion, offset, verdict⟩],
      a.Genuine reader sha256 limits (report.coverage.validationBytesRead + n) := by
    intro a ha
    rcases List.mem_append.mp ha with ha | ha
    · exact (h.genuine a ha).mono (Nat.le_add_right _ n)
    · rw [List.mem_singleton.mp ha]
      exact hgenuine
  have hattempted : report.coverage.signaturesAttempted + 1 =
      (log ++ [(⟨carveRegion, offset, verdict⟩ : Attempt)]).length := by
    rw [h.attempted, List.length_append, List.length_singleton]
  have hattempted_le : (log ++ [(⟨carveRegion, offset, verdict⟩ : Attempt)]).length ≤
      limits.maxSignatureAttempts := by omega
  have hfinal : verdict.Final → p = false →
      ∀ a ∈ log ++ [(⟨carveRegion, offset, verdict⟩ : Attempt)], a.verdict.Final := by
    intro hverdict hincomplete a ha
    rcases List.mem_append.mp ha with ha | ha
    · apply h.final _ a ha
      rw [hincomplete] at hp
      simpa using hp
    · rw [List.mem_singleton.mp ha]
      exact hverdict
  cases hverdict with
  | @valid len digest hlen_le _ =>
    have hlength : (report.candidates ++ [carvedCandidate offset len
        carveRegion.availability]).length = report.candidates.length + 1 := by
      rw [List.length_append, List.length_singleton]
    have hlogged : Logged reader sha256 limits
        (log ++ [⟨carveRegion, offset, .valid len digest⟩])
        { candidates := report.candidates ++
            [carvedCandidate offset len carveRegion.availability]
          evidence := report.evidence ++ [⟨offset, offset, len, digest, jpegValidatorVersion⟩]
          coverage := { report.coverage with
            signaturesAttempted := report.coverage.signaturesAttempted + 1
            validationBytesRead := report.coverage.validationBytesRead + n
            isPartial := p, readErrors := e, readErrorsOmitted := o, partialReasons := rs } } := by
      refine { h with
        genuine := hgenuine', attempted := hattempted, attempted_le := hattempted_le,
        validation_le := hvalidation, candidates := ?_, evidence := ?_, candidates_le := ?_,
        size_le := ?_, rejected := ?_, truncated := ?_, byteLimit := ?_,
        final := hfinal trivial }
      · simp [h.candidates, Attempt.candidate?]
      · simp [h.evidence, Attempt.evidence?]
      · rw [hlength]
        exact hcandidates
      · intro cand hcand
        rcases List.mem_append.mp hcand with hcand | hcand
        · exact h.size_le cand hcand
        · rw [List.mem_singleton.mp hcand]
          exact hlen_le
      · simp [h.rejected]
      · simp [h.truncated]
      · simp [h.byteLimit]
    simp only [recordVerdict, hlength]
    split
    · exact ⟨true, _, rfl, { hlogged with final := by simp [markPartial] }, rfl, rfl,
        fun _ => rfl, rfl, Or.inl rfl⟩
    · next hne => exact ⟨false, _, rfl, hlogged, rfl, rfl, hp, by
        rw [if_neg (by decide), hlength]; omega⟩
  | invalid =>
    refine ⟨false, _, rfl, { h with
      genuine := hgenuine', attempted := hattempted, attempted_le := hattempted_le,
      validation_le := hvalidation, candidates := ?_, evidence := ?_, rejected := ?_,
      truncated := ?_, byteLimit := ?_, final := hfinal trivial }, rfl, rfl, hp, hcandidates⟩
    · simp [h.candidates, Attempt.candidate?]
    · simp [h.evidence, Attempt.evidence?]
    · simp [saturatingAdd_countP hlen h.rejected]
    · simp [h.truncated]
    · simp [h.byteLimit]
  | truncated =>
    refine ⟨false, _, rfl, { h with
      genuine := hgenuine', attempted := hattempted, attempted_le := hattempted_le,
      validation_le := hvalidation, candidates := ?_, evidence := ?_, rejected := ?_,
      truncated := ?_, byteLimit := ?_, final := hfinal trivial }, rfl, rfl, hp, hcandidates⟩
    · simp [h.candidates, Attempt.candidate?]
    · simp [h.evidence, Attempt.evidence?]
    · simp [h.rejected]
    · simp [saturatingAdd_countP hlen h.truncated]
    · simp [h.byteLimit]
  | byteLimit =>
    refine ⟨false, _, rfl, { h with
      genuine := hgenuine', attempted := hattempted, attempted_le := hattempted_le,
      validation_le := hvalidation, candidates := ?_, evidence := ?_, rejected := ?_,
      truncated := ?_, byteLimit := ?_, final := by simp [markPartial] }, rfl, rfl,
      fun _ => rfl, hcandidates⟩
    · simp [h.candidates, Attempt.candidate?]
    · simp [h.evidence, Attempt.evidence?]
    · simp [markPartial, h.rejected]
    · simp [markPartial, h.truncated]
    · simp [markPartial, saturatingAdd_countP hlen h.byteLimit]
  | validationByteLimit =>
    refine ⟨true, _, rfl, { h with
      genuine := hgenuine', attempted := hattempted, attempted_le := hattempted_le,
      validation_le := hvalidation, candidates := ?_, evidence := ?_, rejected := ?_,
      truncated := ?_, byteLimit := ?_, final := by simp [markPartial] }, rfl, rfl,
      fun _ => rfl, rfl, Or.inr (Or.inr rfl)⟩
    · simp [h.candidates, Attempt.candidate?]
    · simp [h.evidence, Attempt.evidence?]
    · simp [markPartial, h.rejected]
    · simp [markPartial, h.truncated]
    · simp [markPartial, h.byteLimit]
  | readFailure hincomplete =>
    simp only at hincomplete
    refine ⟨false, _, rfl, { h with
      genuine := hgenuine', attempted := hattempted, attempted_le := hattempted_le,
      validation_le := hvalidation, candidates := ?_, evidence := ?_, rejected := ?_,
      truncated := ?_, byteLimit := ?_, final := by simp [hincomplete] }, rfl, rfl, hp, hcandidates⟩
    · simp [h.candidates, Attempt.candidate?]
    · simp [h.evidence, Attempt.evidence?]
    · simp [h.rejected]
    · simp [h.truncated]
    · simp [h.byteLimit]

/-- One more signature is one more entry of the log. -/
theorem processSignature_spec (reader : SourceReader) (sha256 : Bytes → Vector UInt8 32)
    {limits : CarveLimits} (hlimits : limits.Valid) {carveRegion : CarveRegion} {offset : Nat}
    (hoffset : offset ≤ carveRegion.region.stop) {log : List Attempt} {report : CarveReport}
    (h : Logged reader sha256 limits log report)
    (hcandidates : report.candidates.length < limits.maxCandidates) :
    ∃ stop report' log',
      processSignature reader sha256 carveRegion limits offset report = .ok (stop, report') ∧
      Logged reader sha256 limits (log ++ log') report' ∧
      report'.coverage.bytesRequested = report.coverage.bytesRequested ∧
      report'.coverage.bytesScanned = report.coverage.bytesScanned ∧
      (report.coverage.isPartial = true → report'.coverage.isPartial = true) ∧
      if stop then Exhausted report' else
        (∃ verdict, log' = [⟨carveRegion, offset, verdict⟩]) ∧
        report'.candidates.length < limits.maxCandidates := by
  unfold processSignature
  by_cases hattempts : report.coverage.signaturesAttempted ≥ limits.maxSignatureAttempts
  · rw [if_pos hattempts]
    refine ⟨true, _, [], rfl, ?_, rfl, rfl, fun _ => rfl, rfl, Or.inr (Or.inl rfl)⟩
    rw [List.append_nil]
    exact { h with final := by simp [markPartial] }
  rw [if_neg hattempts]
  obtain ⟨verdict, c, hrun, hc, hverdict⟩ := readAndInspectCandidate_spec reader sha256 hlimits
    (c := { report.coverage with
      signaturesAttempted := report.coverage.signaturesAttempted + 1 })
    hoffset carveRegion.region.fits h.validation_le
  have hvalidation : c.validationBytesRead ≤ limits.maxValidationBytes := by
    have := hc.validationBytesRead.2
    have := h.validation_le
    simp only at *
    omega
  obtain ⟨stop, report', hrecord, hlogged, hrequested, hscanned, hincomplete, hstop⟩ :=
    h.record hlimits
    hcandidates (Nat.lt_of_not_le hattempts) hc hvalidation hverdict
    ⟨_, c, hrun, Nat.le_refl _⟩
  refine ⟨stop, report', _, ?_, hlogged, hrequested, hscanned, hincomplete, ?_⟩
  · simp only [hrun, bind_ok, hrecord]
    rfl
  · cases stop with
    | true => exact hstop
    | false => exact ⟨⟨verdict, rfl⟩, hstop⟩

end Undelete.Carve
