import Mathlib.Algebra.GroupWithZero.Nat
import Mathlib.Data.List.Sort
import Undelete.ForStd.UntilStop
import Undelete.Native.Core
import Undelete.Native.Carve.Jpeg

/-!
# Bounded signature carving

Model of `crates/carving/src/lib.rs`: the scan of caller-approved regions for JPEG
signatures, the validation of each one, and the coverage report. The hasher is the
bytes it was fed; `sha256` is their digest.
-/

namespace Undelete

/-- `um_core::Region`; `Region::new` is what keeps its end in range. -/
structure Region where
  offset : Nat
  len : Nat
  fits : offset + len < 2 ^ 64
deriving DecidableEq, Repr

/-- The offset just after the region. -/
def Region.stop (r : Region) : Nat := r.offset + r.len

namespace Carve

def maxChunkSize : Nat := 4 * 1024 * 1024
def maxCandidateBytes : Nat := 512 * 1024 * 1024
def maxCandidates : Nat := 100000
def maxRegions : Nat := 1000000
def maxSignatureAttempts : Nat := 100000000
def maxValidationBytes : Nat := 16 * 1024 * 1024 * 1024 * 1024
def initialValidationReadBytes : Nat := 256
def maxBadRangesPerRead : Nat := 8192
def maxReportedReadIssues : Nat := 1024
def jpegValidatorVersion : String := "jpeg-structural-v1"

structure CarveLimits where
  chunkSize : Nat
  maxCandidateBytes : Nat
  maxCandidates : Nat
  maxRegions : Nat
  maxScanBytes : Nat
  maxSignatureAttempts : Nat
  maxValidationBytes : Nat
deriving DecidableEq, Repr

/-- A region plus the allocation evidence already established by the caller. -/
structure CarveRegion where
  region : Region
  availability : ExtentAvailability
deriving DecidableEq, Repr

structure CarveReadIssue where
  offset : Nat
  len : Nat
deriving DecidableEq, Repr

inductive CarvePartialReason where
  | readError | candidateLimit | candidateByteLimit | signatureAttemptLimit | validationByteLimit
deriving DecidableEq, Repr

structure CarveCoverage where
  bytesRequested : Nat
  bytesScanned : Nat := 0
  isPartial : Bool := false
  readErrors : List CarveReadIssue := []
  readErrorsOmitted : Nat := 0
  candidateLimitReached : Bool := false
  candidateByteLimitHits : Nat := 0
  rejectedSignatures : Nat := 0
  truncatedSignatures : Nat := 0
  signaturesAttempted : Nat := 0
  validationBytesRead : Nat := 0
  signatureAttemptLimitReached : Bool := false
  validationByteLimitReached : Bool := false
  partialReasons : List CarvePartialReason := []
deriving DecidableEq, Repr

structure CarveEvidence where
  candidateId : Nat
  physicalOffset : Nat
  len : Nat
  contentSha256 : Vector UInt8 32
  validator : String
deriving DecidableEq, Repr

structure CarveReport where
  candidates : List Candidate
  evidence : List CarveEvidence
  coverage : CarveCoverage
deriving DecidableEq, Repr

inductive CarveError where
  | invalidLimits (message : String)
  | regionLimitExceeded (requested max : Nat)
  | regionSizeOverflow
  | scanByteLimitExceeded (requested max : Nat)
  | regionOutOfBounds (index : Nat) (region : Region) (sourceLen : Nat)
  | overlappingRegions (firstIndex secondIndex : Nat)
deriving DecidableEq, Repr

/-! ## Limits and regions -/

def validateLimits (limits : CarveLimits) : Except CarveError Unit := do
  if ¬(2 ≤ limits.chunkSize ∧ limits.chunkSize ≤ maxChunkSize) then
    throw (.invalidLimits "chunk_size must be between 2 bytes and 4 MiB")
  if limits.maxCandidateBytes = 0 ∨ limits.maxCandidateBytes > maxCandidateBytes then
    throw (.invalidLimits "max_candidate_bytes must be between 1 byte and 512 MiB")
  if limits.maxCandidates = 0 ∨ limits.maxCandidates > maxCandidates then
    throw (.invalidLimits "max_candidates must be between 1 and 100000")
  if limits.maxRegions = 0 ∨ limits.maxRegions > maxRegions then
    throw (.invalidLimits "max_regions must be between 1 and 1000000")
  if limits.maxScanBytes = 0 then
    throw (.invalidLimits "max_scan_bytes must be greater than zero")
  if limits.maxSignatureAttempts = 0 ∨ limits.maxSignatureAttempts > maxSignatureAttempts then
    throw (.invalidLimits "max_signature_attempts must be between 1 and 100000000")
  if limits.maxValidationBytes = 0 ∨ limits.maxValidationBytes > maxValidationBytes then
    throw (.invalidLimits "max_validation_bytes must be between 1 byte and 16 TiB")

/-- `(offset, end, index)` of one region. -/
structure OrderedRegion where
  start : Nat
  stop : Nat
  index : Nat
deriving DecidableEq, Repr

/-- The order `sort_unstable` sorts the triples by. -/
def regionOrder (a b : OrderedRegion) : Prop :=
  a.start < b.start ∨ (a.start = b.start ∧
    (a.stop < b.stop ∨ (a.stop = b.stop ∧ a.index ≤ b.index)))

instance : DecidableRel regionOrder := fun _ _ => inferInstanceAs (Decidable (_ ∨ _))

/-- The bounds check and running total over the regions from `index` on. -/
def measureRegions (reader : SourceReader) (index requested : Nat) :
    List CarveRegion → Except CarveError (Nat × List OrderedRegion)
  | [] => .ok (requested, [])
  | r :: rest => do
    if r.region.stop > reader.len then
      throw (.regionOutOfBounds index r.region reader.len)
    let requested ← okOr (U64.checkedAdd requested r.region.len) .regionSizeOverflow
    let (total, ordered) ← measureRegions reader (index + 1) requested rest
    return (total, ⟨r.region.offset, r.region.stop, index⟩ :: ordered)

/-- The first overlap of two neighbours, in the sorted order. -/
def checkOverlaps : List OrderedRegion → Except CarveError Unit
  | a :: b :: rest => do
    if b.start < a.stop then throw (.overlappingRegions a.index b.index)
    checkOverlaps (b :: rest)
  | _ => .ok ()

def validateRegions (reader : SourceReader) (regions : List CarveRegion) (limits : CarveLimits) :
    Except CarveError Nat := do
  if regions.length > limits.maxRegions then
    throw (.regionLimitExceeded regions.length limits.maxRegions)
  let (requested, ordered) ← measureRegions reader 0 0 regions
  if requested > limits.maxScanBytes then
    throw (.scanByteLimitExceeded requested limits.maxScanBytes)
  checkOverlaps (ordered.insertionSort regionOrder)
  return requested

/-! ## Coverage -/

def markPartial (coverage : CarveCoverage) (reason : CarvePartialReason) : CarveCoverage :=
  { coverage with
    isPartial := true
    partialReasons :=
      if reason ∈ coverage.partialReasons then coverage.partialReasons
      else coverage.partialReasons ++ [reason] }

/-- A new issue next to the last one extends it; the list is bounded. -/
def appendIssue (coverage : CarveCoverage) (issue : CarveReadIssue) : CarveCoverage :=
  if coverage.readErrors.length < maxReportedReadIssues then
    { coverage with readErrors := coverage.readErrors ++ [issue] }
  else
    { coverage with readErrorsOmitted := U64.saturatingAdd coverage.readErrorsOmitted 1 }

def pushReadIssue (coverage : CarveCoverage) (issue : CarveReadIssue) : CarveCoverage :=
  let coverage := markPartial coverage .readError
  match coverage.readErrors.getLast? with
  | some last =>
    let lastEnd := U64.saturatingAdd last.offset last.len
    let issueEnd := U64.saturatingAdd issue.offset issue.len
    if issue.offset ≤ lastEnd ∧ issueEnd ≥ last.offset then
      let mergedStart := min last.offset issue.offset
      let mergedEnd := max lastEnd issueEnd
      { coverage with
        readErrors := coverage.readErrors.dropLast ++ [⟨mergedStart, mergedEnd - mergedStart⟩] }
    else appendIssue coverage issue
  | none => appendIssue coverage issue

/-- The issues of one read at `absolute`. -/
def pushReadIssues (coverage : CarveCoverage) (absolute : Nat) (badRanges : List (Nat × Nat)) :
    CarveCoverage :=
  badRanges.foldl (fun coverage r => pushReadIssue coverage ⟨absolute + r.1, r.2 - r.1⟩) coverage

/-! ## Bad ranges -/

/-- The ranges as `(start, end)`, or `none` when one of them does not fit the read. -/
def readRanges (requestedLen : Nat) : List (Nat × Nat) → Option (List (Nat × Nat))
  | [] => some []
  | (offset, len) :: rest => do
    let stop ← U64.checkedAdd offset len
    if offset > stop ∨ stop > requestedLen then none
    else
      let ranges ← readRanges requestedLen rest
      return if offset < stop then (offset, stop) :: ranges else ranges

def rangeOrder (a b : Nat × Nat) : Prop := a.1 < b.1 ∨ (a.1 = b.1 ∧ a.2 ≤ b.2)

instance : DecidableRel rangeOrder := fun _ _ => inferInstanceAs (Decidable (_ ∨ _))

/-- One more range, given in sorted order; `merged` is in reverse. -/
def mergeRange (merged : List (Nat × Nat)) (r : Nat × Nat) : List (Nat × Nat) :=
  match merged with
  | last :: rest => if r.1 ≤ last.2 then (last.1, max last.2 r.2) :: rest else r :: last :: rest
  | [] => [r]

def rangesLen (ranges : List (Nat × Nat)) : Nat := (ranges.map fun r => r.2 - r.1).sum

def normalizeBadRanges (requestedLen : Nat) (outcome : ReadOutcome) : List (Nat × Nat) :=
  if outcome.badRanges.length > maxBadRangesPerRead then [(0, requestedLen)]
  else
    match readRanges requestedLen outcome.badRanges with
    | none => [(0, requestedLen)]
    | some ranges =>
      let merged := ((ranges.insertionSort rangeOrder).foldl mergeRange []).reverse
      if outcome.bytesValid ≠ requestedLen - rangesLen merged then [(0, requestedLen)] else merged

def isReadable (index : Nat) (badRanges : List (Nat × Nat)) : Bool :=
  badRanges.all fun r => decide (index < r.1) || decide (r.2 ≤ index)

/-! ## Validation of one signature -/

inductive CandidateRead where
  | valid (len : Nat) (contentSha256 : Vector UInt8 32)
  | invalid | truncated | byteLimit | validationByteLimit | readFailure
deriving DecidableEq, Repr

/-- What the validation loop carries from one read to the next. -/
structure InspectState where
  consumed : Nat
  buffer : Bytes
  validator : JpegValidator
  hashed : Bytes
deriving DecidableEq, Repr

/-- The length of the read after `consumed` bytes: the first one is short. -/
def validationReadLen (chunkSize permitted consumed : Nat) : Nat :=
  let remaining := permitted - consumed
  let preferred := if consumed = 0 then min initialValidationReadBytes chunkSize else chunkSize
  min preferred remaining

/-- The validation loop, up to `permitted` bytes from `start`; `none` when they give no
    verdict. Every read takes at least one byte, so `permitted` is enough fuel. -/
def inspectLoop (reader : SourceReader) (sha256 : Bytes → Vector UInt8 32) (chunkSize : Nat)
    (start permitted : Nat) : Nat → InspectState → CarveCoverage →
    Except CarveError (Option CandidateRead × CarveCoverage)
  | 0, _, coverage => .ok (none, coverage)
  | fuel + 1, st, coverage =>
    if st.consumed < permitted then do
      let readLen := validationReadLen chunkSize permitted st.consumed
      let absolute ← okOr (U64.checkedAdd start st.consumed) .regionSizeOverflow
      let (slice, outcome) := reader.readBestEffortAt absolute (st.buffer.take readLen)
      let validationBytesRead ←
        okOr (U64.checkedAdd coverage.validationBytesRead readLen) .regionSizeOverflow
      let coverage := { coverage with validationBytesRead }
      let badRanges := normalizeBadRanges readLen outcome
      -- one unreadable byte ends the candidate
      if badRanges ≠ [] then
        return (some .readFailure, pushReadIssues coverage absolute badRanges)
      let (feed, validator) := st.validator.feed slice
      -- the digest covers what the validator consumed
      let hashed := st.hashed ++ slice.take feed.consumed
      let consumed ← okOr (U64.checkedAdd st.consumed readLen) .regionSizeOverflow
      match feed.status with
      | .valid => return (some (.valid validator.processedBytes (sha256 hashed)), coverage)
      | .invalid => return (some .invalid, coverage)
      | .needMore =>
        inspectLoop reader sha256 chunkSize start permitted fuel
          ⟨consumed, slice ++ st.buffer.drop readLen, validator, hashed⟩ coverage
    else .ok (none, coverage)

def readAndInspectCandidate (reader : SourceReader) (sha256 : Bytes → Vector UInt8 32)
    (start regionEnd : Nat) (limits : CarveLimits) (coverage : CarveCoverage) :
    Except CarveError (CandidateRead × CarveCoverage) := do
  if regionEnd < start then throw .regionSizeOverflow
  let available := regionEnd - start
  let candidatePermitted := min available limits.maxCandidateBytes
  let validationRemaining := limits.maxValidationBytes - coverage.validationBytesRead
  if validationRemaining = 0 then return (.validationByteLimit, coverage)
  let permitted := min candidatePermitted validationRemaining
  let buffer := List.replicate (min limits.chunkSize permitted) 0
  let (verdict, coverage) ← inspectLoop reader sha256 limits.chunkSize start permitted permitted
    ⟨0, buffer, .new, []⟩ coverage
  match verdict with
  | some verdict => return (verdict, coverage)
  | none =>
    if permitted < candidatePermitted then return (.validationByteLimit, coverage)
    else if candidatePermitted < available then return (.byteLimit, coverage)
    else return (.truncated, coverage)

/-! ## The scan -/

/-- `{n:016X}`. -/
def hexUpper16 (n : Nat) : String :=
  let digits := (Nat.toDigits 16 n).map Char.toUpper
  String.ofList (List.replicate (16 - digits.length) '0' ++ digits)

def carvedCandidate (physicalOffset len : Nat) (availability : ExtentAvailability) : Candidate where
  id := physicalOffset
  kind := .file
  method := .carving
  state := .structurallyValid
  name := "carved-" ++ hexUpper16 physicalOffset ++ ".jpg"
  nameCertain := false
  parentPath := []
  metadataConfidence := .low
  size := len
  timestamps := {}
  extents := [⟨0, some physicalOffset, len, availability⟩]
  recordRef := physicalOffset
  sequence := none
  warnings :=
    ["Signature carving cannot establish the original file name, path, or timestamps."]

/-- What a verdict on the signature at `signatureOffset` does to the report; `true` ends
    the scan. -/
def recordVerdict (signatureOffset : Nat) (carveRegion : CarveRegion) (limits : CarveLimits)
    (report : CarveReport) : CandidateRead → Bool × CarveReport
  | .valid len contentSha256 =>
    let candidate := carvedCandidate signatureOffset len carveRegion.availability
    let report := { report with
      evidence := report.evidence ++
        [⟨candidate.id, signatureOffset, len, contentSha256, jpegValidatorVersion⟩]
      candidates := report.candidates ++ [candidate] }
    -- the limit is checked after the candidate was kept
    if report.candidates.length = limits.maxCandidates then
      let coverage := { report.coverage with candidateLimitReached := true }
      (true, { report with coverage := markPartial coverage .candidateLimit })
    else (false, report)
  | .invalid =>
    (false, { report with coverage := { report.coverage with
      rejectedSignatures := U64.saturatingAdd report.coverage.rejectedSignatures 1 } })
  | .truncated =>
    (false, { report with coverage := { report.coverage with
      truncatedSignatures := U64.saturatingAdd report.coverage.truncatedSignatures 1 } })
  | .byteLimit =>
    let coverage := { report.coverage with
      candidateByteLimitHits := U64.saturatingAdd report.coverage.candidateByteLimitHits 1 }
    (false, { report with coverage := markPartial coverage .candidateByteLimit })
  | .validationByteLimit =>
    let coverage := { report.coverage with validationByteLimitReached := true }
    (true, { report with coverage := markPartial coverage .validationByteLimit })
  -- its issues were reported by the read itself
  | .readFailure => (false, report)

def processSignature (reader : SourceReader) (sha256 : Bytes → Vector UInt8 32)
    (carveRegion : CarveRegion) (limits : CarveLimits) (signatureOffset : Nat)
    (report : CarveReport) : Except CarveError (Bool × CarveReport) :=
  if report.coverage.signaturesAttempted ≥ limits.maxSignatureAttempts then
    let coverage := { report.coverage with signatureAttemptLimitReached := true }
    .ok (true, { report with coverage := markPartial coverage .signatureAttemptLimit })
  else do
    let coverage := { report.coverage with
      signaturesAttempted := report.coverage.signaturesAttempted + 1 }
    let (verdict, coverage) ←
      readAndInspectCandidate reader sha256 signatureOffset carveRegion.region.stop limits coverage
    return recordVerdict signatureOffset carveRegion limits { report with coverage } verdict

/-- The last byte of the read before: its offset, its value and whether it was readable. -/
structure Tail where
  offset : Nat
  byte : UInt8
  valid : Bool
deriving DecidableEq, Repr

/-- A signature split between the last read and this one. -/
def processTail (process : Nat → CarveReport → Except CarveError (Bool × CarveReport))
    (tail : Option Tail) (slice : Bytes) (badRanges : List (Nat × Nat)) (report : CarveReport) :
    Except CarveError (Bool × CarveReport) :=
  match tail with
  | some tail =>
    if tail.valid && isReadable 0 badRanges && tail.byte == 0xFF && slice.getD 0 0 == 0xD8 then
      process tail.offset report
    else .ok (false, report)
  | none => .ok (false, report)

/-- A signature at `index` of the read at `absolute`. -/
def processIndex (process : Nat → CarveReport → Except CarveError (Bool × CarveReport))
    (absolute : Nat) (slice : Bytes) (badRanges : List (Nat × Nat)) (index : Nat)
    (report : CarveReport) : Except CarveError (Bool × CarveReport) :=
  if slice.getD index 0 == 0xFF && slice.getD (index + 1) 0 == 0xD8 &&
      isReadable index badRanges && isReadable (index + 1) badRanges then do
    let signatureOffset ← okOr (U64.checkedAdd absolute index) .regionSizeOverflow
    process signatureOffset report
  else .ok (false, report)

/-- What the scan of a region carries from one read to the next. -/
structure ScanState where
  relativeOffset : Nat
  tail : Option Tail
  buffer : Bytes
deriving DecidableEq, Repr

/-- The scan loop. Every read takes at least one byte, so the length of the region is
    enough fuel. -/
def scanLoop (reader : SourceReader) (sha256 : Bytes → Vector UInt8 32)
    (carveRegion : CarveRegion) (limits : CarveLimits) :
    Nat → ScanState → CarveReport → Except CarveError (Bool × CarveReport)
  | 0, _, report => .ok (false, report)
  | fuel + 1, st, report =>
    if st.relativeOffset < carveRegion.region.len then do
      let process := processSignature reader sha256 carveRegion limits
      let absolute ←
        okOr (U64.checkedAdd carveRegion.region.offset st.relativeOffset) .regionSizeOverflow
      let remaining := carveRegion.region.len - st.relativeOffset
      let readLen := min limits.chunkSize remaining
      let (slice, outcome) := reader.readBestEffortAt absolute (st.buffer.take readLen)
      let badRanges := normalizeBadRanges readLen outcome
      let readable := readLen - rangesLen badRanges
      let bytesScanned ←
        okOr (U64.checkedAdd report.coverage.bytesScanned readable) .regionSizeOverflow
      let coverage := pushReadIssues { report.coverage with bytesScanned } absolute badRanges
      let report := { report with coverage }
      -- a signature across two chunks starts at the byte kept from the last
      let (stop, report) ← processTail process st.tail slice badRanges report
      if stop then return (true, report)
      -- the last byte of the chunk waits for the next one
      let (stop, report) ← untilStop (processIndex process absolute slice badRanges)
        (List.range (readLen - 1)) report
      if stop then return (true, report)
      let lastIndex := readLen - 1
      let relativeOffset ← okOr (U64.checkedAdd st.relativeOffset readLen) .regionSizeOverflow
      scanLoop reader sha256 carveRegion limits fuel
        ⟨relativeOffset,
          some ⟨absolute + lastIndex, slice.getD lastIndex 0, isReadable lastIndex badRanges⟩,
          slice ++ st.buffer.drop readLen⟩ report
    else .ok (false, report)

def scanRegion (reader : SourceReader) (sha256 : Bytes → Vector UInt8 32) (limits : CarveLimits)
    (carveRegion : CarveRegion) (report : CarveReport) : Except CarveError (Bool × CarveReport) :=
  if carveRegion.region.len = 0 then .ok (false, report)
  else
    let buffer := List.replicate (min limits.chunkSize carveRegion.region.len) 0
    scanLoop reader sha256 carveRegion limits carveRegion.region.len ⟨0, none, buffer⟩ report

def carveJpegsWithEvidence (reader : SourceReader) (sha256 : Bytes → Vector UInt8 32)
    (regions : List CarveRegion) (limits : CarveLimits) : Except CarveError CarveReport := do
  validateLimits limits
  let bytesRequested ← validateRegions reader regions limits
  let (_, report) ← untilStop (scanRegion reader sha256 limits) regions
    ⟨[], [], { bytesRequested }⟩
  return report

/-- `carve_jpegs`: regions without allocation evidence. -/
def carveJpegs (reader : SourceReader) (sha256 : Bytes → Vector UInt8 32)
    (regions : List Region) (limits : CarveLimits) : Except CarveError CarveReport := do
  validateLimits limits
  if regions.length > limits.maxRegions then
    throw (.regionLimitExceeded regions.length limits.maxRegions)
  carveJpegsWithEvidence reader sha256 (regions.map fun region => ⟨region, .unknown⟩) limits

end Carve

end Undelete
