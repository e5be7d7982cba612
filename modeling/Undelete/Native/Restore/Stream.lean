import Undelete.Native.Restore.Plan

/-!
# Streaming a content plan

Model of `crates/restore/src/stream.rs` and of `readable_ranges` in
`crates/restore/src/manifest.rs`.

The source, the writer and the cancellation probe are one environment that
answers every call from its own state, so an answer may depend on all earlier
calls. The hasher is the bytes it was fed; `sha256` is their digest. Both loops
make progress of at least one byte, so the length they cover is enough fuel.
-/

namespace Undelete.Restore

def maxZeroFilledRanges : Nat := 65536

structure ZeroFilledRange where
  logicalOffset : Nat
  len : Nat
  reason : ZeroFillReason
deriving DecidableEq, Repr

/-- An `io::Error` of the writer. -/
structure WriteError where
  kind : WriteErrorKind
  message : String
deriving DecidableEq, Repr

/-- What `stream_candidate` calls: a source of `sourceLen` bytes, a writer that
    reports how many bytes of its argument it accepted, and a cancellation probe. -/
structure StreamEnv (σ : Type) where
  sourceLen : Nat
  readBestEffortAt : σ → Nat → Bytes → (Bytes × ReadOutcome) × σ
  write : σ → Bytes → Except WriteError Nat × σ
  isCancelled : σ → Bool × σ
  length_readBestEffortAt : ∀ s offset buffer,
    (readBestEffortAt s offset buffer).1.1.length = buffer.length

structure StreamProgress where
  bytesWritten : Nat
  logicalSize : Nat
deriving DecidableEq, Repr

/-- The state of a run: the environment, the caller's scratch buffer, the bytes the
    writer accepted, the bytes hashed, the progress reported, and the locals of
    `stream_candidate`. -/
structure StreamState (σ : Type) where
  env : σ
  scratch : Bytes
  output : Bytes := []
  hashed : Bytes := []
  progress : List StreamProgress := []
  bytesWritten : Nat := 0
  zeroFilledRanges : List ZeroFilledRange := []
  requiresBestEffort : Bool

structure StreamOutcome where
  bytesWritten : Nat
  sha256 : Digest
  zeroFilledRanges : List ZeroFilledRange
  requiresBestEffort : Bool
deriving DecidableEq

/-! ## Validation -/

/-- The physical check of a read segment, the policy check of a zero segment; returns
    whether the segment needs best effort. -/
def preflightSegment (sourceLen : Nat) (policy : PartialPolicy) (segment : ContentSegment) :
    Except RestoreError Bool :=
  match segment with
  | .read _ physicalOffset len => do
    let physicalEnd ← okOr (U64.checkedAdd physicalOffset len)
      (.physicalRangeOverflow physicalOffset len)
    if physicalEnd > sourceLen then
      throw (.physicalRangeOutOfBounds physicalOffset len sourceLen)
    return false
  | .zero logicalOffset len reason =>
    if reason ≠ .sparse then
      if policy = .completeOnly then throw (.unavailableContent logicalOffset len reason)
      else return true
    else return false

/-- The segment loop of `preflight`; returns the end of the coverage and the
    best-effort flag. -/
def preflightSegments (sourceLen : Nat) (plan : ContentPlan) :
    List ContentSegment → Nat → Nat → Bool → Except RestoreError (Nat × Bool)
  | [], _, expectedOffset, expectedBestEffort => .ok (expectedOffset, expectedBestEffort)
  | segment :: segments, index, expectedOffset, expectedBestEffort => do
    if segment.len = 0 then throw (.invalidPlanSegment index)
    if segment.logicalOffset ≠ expectedOffset then
      throw (.invalidPlanCoverage index expectedOffset segment.logicalOffset)
    let logicalEnd ← okOr (U64.checkedAdd segment.logicalOffset segment.len)
      (.logicalRangeOverflow segment.logicalOffset segment.len)
    if logicalEnd > plan.logicalSize then
      throw (.logicalRangeOutOfBounds segment.logicalOffset segment.len plan.logicalSize)
    let bestEffort ← preflightSegment sourceLen plan.policy segment
    preflightSegments sourceLen plan segments (index + 1) logicalEnd
      (expectedBestEffort || bestEffort)

def preflight (sourceLen : Nat) (plan : ContentPlan) (scratchLen : Nat) :
    Except RestoreError Unit := do
  if scratchLen = 0 ∨ scratchLen > maxStreamBufferBytes then
    throw (.invalidScratchLength scratchLen maxStreamBufferBytes)
  if plan.segments.length > maxContentPlanSegments then
    throw (.segmentLimitExceeded maxContentPlanSegments)
  let (expectedOffset, expectedBestEffort) ←
    preflightSegments sourceLen plan plan.segments 0 0 false
  if expectedOffset ≠ plan.logicalSize then
    throw (.invalidPlanCoverage plan.segments.length expectedOffset plan.logicalSize)
  if expectedBestEffort ≠ plan.requiresBestEffort then
    throw (.invalidPlanBestEffortFlag expectedBestEffort plan.requiresBestEffort)

def appendZeroRange (ranges : List ZeroFilledRange) (next : ZeroFilledRange) :
    Except RestoreError (List ZeroFilledRange) :=
  let extended := match ranges.getLast? with
    | some last =>
      if last.logicalOffset + last.len = next.logicalOffset ∧ last.reason = next.reason then
        some (ranges.dropLast ++ [{ last with len := last.len + next.len }])
      else none
    | none => none
  match extended with
  | some ranges => .ok ranges
  | none =>
    if ranges.length ≥ maxZeroFilledRanges then
      .error (.zeroFillRangeLimitExceeded maxZeroFilledRanges)
    else .ok (ranges ++ [next])

def plannedZeroRangesFrom :
    List ContentSegment → List ZeroFilledRange → Except RestoreError (List ZeroFilledRange)
  | [], ranges => .ok ranges
  | .read .. :: segments, ranges => plannedZeroRangesFrom segments ranges
  | .zero logicalOffset len reason :: segments, ranges => do
    plannedZeroRangesFrom segments (← appendZeroRange ranges ⟨logicalOffset, len, reason⟩)

def plannedZeroRanges (plan : ContentPlan) : Except RestoreError (List ZeroFilledRange) :=
  plannedZeroRangesFrom plan.segments []

/-! ## Read outcomes -/

/-- The bounds check of `normalize_bad_ranges`. -/
def checkBadRanges (requestedLen : Nat) : List (Nat × Nat) → Except RestoreError Unit
  | [] => .ok ()
  | (offset, len) :: ranges => do
    let stop ← okOr (U64.checkedAdd offset len) (.invalidReadOutcome requestedLen)
    if len = 0 ∨ stop > requestedLen then throw (.invalidReadOutcome requestedLen)
    checkBadRanges requestedLen ranges

/-- The sort key `(offset, len)` of `normalize_bad_ranges`. -/
def badRangeOrder (a b : Nat × Nat) : Prop := a.1 < b.1 ∨ a.1 = b.1 ∧ a.2 ≤ b.2

instance : DecidableRel badRangeOrder := fun a b =>
  inferInstanceAs (Decidable (a.1 < b.1 ∨ a.1 = b.1 ∧ a.2 ≤ b.2))

/-- The merge loop on sorted `(offset, len)` ranges: `last` is the last merged
    `(start, end)` range, which is still open. -/
def mergeBadRangesFrom (last : Nat × Nat) : List (Nat × Nat) → List (Nat × Nat)
  | [] => [last]
  | (start, len) :: ranges =>
    if start ≤ last.2 then mergeBadRangesFrom (last.1, max last.2 (start + len)) ranges
    else last :: mergeBadRangesFrom (start, start + len) ranges

def mergeBadRanges : List (Nat × Nat) → List (Nat × Nat)
  | [] => []
  | (start, len) :: ranges => mergeBadRangesFrom (start, start + len) ranges

/-- The number of bytes in `(start, end)` ranges. -/
def badBytes (ranges : List (Nat × Nat)) : Option Nat :=
  ranges.foldlM (fun total range => U64.checkedAdd total (range.2 - range.1)) 0

/-- The failed sub-ranges of a read as sorted, disjoint, non-adjacent `(start, end)`
    ranges; a report that is inconsistent is rejected. -/
def normalizeBadRanges (requestedLen : Nat) (outcome : ReadOutcome) :
    Except RestoreError (List (Nat × Nat)) := do
  if outcome.badRanges.length > requestedLen then throw (.invalidReadOutcome requestedLen)
  checkBadRanges requestedLen outcome.badRanges
  let ranges := mergeBadRanges (outcome.badRanges.insertionSort badRangeOrder)
  let bad ← okOr (badBytes ranges) (.invalidReadOutcome requestedLen)
  if outcome.bytesValid ≠ requestedLen - bad then throw (.invalidReadOutcome requestedLen)
  return ranges

/-! ## Writing -/

variable {σ : Type}

def checkCancel (env : StreamEnv σ) (st : StreamState σ) :
    Except RestoreError (StreamState σ) :=
  let (cancelled, s) := env.isCancelled st.env
  if cancelled then .error (.cancelled st.bytesWritten) else .ok { st with env := s }

/-- The writer's answer to a non-empty request, checked as the source checks it. -/
def writeOnce (env : StreamEnv σ) (bytes : Bytes) (st : StreamState σ) :
    Except RestoreError (Nat × StreamState σ) :=
  match env.write st.env bytes with
  | (.ok 0, _) => .error (.outputWrite .writeZero "writer accepted zero bytes" st.bytesWritten)
  | (.ok written, s) =>
    if written ≤ bytes.length then .ok (written, { st with env := s })
    else .error (.outputWrite .invalidData "writer reported more bytes than requested"
      st.bytesWritten)
  | (.error error, _) => .error (.outputWrite error.kind error.message st.bytesWritten)

/-- Books `accepted`, the bytes the writer just took. -/
def commit (logicalSize : Nat) (accepted : Bytes) (st : StreamState σ) :
    Except RestoreError (StreamState σ) := do
  let bytesWritten ← okOr (U64.checkedAdd st.bytesWritten accepted.length)
    (.outputLengthMismatch st.bytesWritten logicalSize)
  return { st with
    output := st.output ++ accepted
    hashed := st.hashed ++ accepted
    bytesWritten
    progress := st.progress ++ [⟨bytesWritten, logicalSize⟩] }

/-- The loop of `write_committed` on the bytes from `position` on. -/
def writeCommittedFrom (env : StreamEnv σ) (logicalSize : Nat) :
    Nat → Bytes → StreamState σ → Except RestoreError (StreamState σ)
  | 0, _, st => .ok st
  | fuel + 1, bytes, st =>
    if bytes.isEmpty then .ok st
    else do
      let st ← checkCancel env st
      let (written, st) ← writeOnce env bytes st
      let st ← commit logicalSize (bytes.take written) st
      writeCommittedFrom env logicalSize fuel (bytes.drop written) st

def writeCommitted (env : StreamEnv σ) (logicalSize : Nat) (bytes : Bytes) (st : StreamState σ) :
    Except RestoreError (StreamState σ) :=
  writeCommittedFrom env logicalSize bytes.length bytes st

/-! ## Segments -/

/-- `buffer[start..stop].fill(0)`. -/
def zeroFill (buffer : Bytes) (start stop : Nat) : Bytes :=
  buffer.take start ++ List.replicate (stop - start) 0 ++ buffer.drop stop

/-- The loop over the bad ranges of a chunk that starts at `chunkLogical`. -/
def fillBadRanges (chunkLogical : Nat) :
    List (Nat × Nat) → StreamState σ → Except RestoreError (StreamState σ)
  | [], st => .ok st
  | (badStart, badEnd) :: badRanges, st => do
    let ranges ← appendZeroRange st.zeroFilledRanges
      ⟨chunkLogical + badStart, badEnd - badStart, .previouslyReadFailed⟩
    fillBadRanges chunkLogical badRanges
      { st with scratch := zeroFill st.scratch badStart badEnd, zeroFilledRanges := ranges }

/-- What a read segment does with the failed ranges of a chunk. -/
def recordBadRanges (plan : ContentPlan) (chunkLogical : Nat) (badRanges : List (Nat × Nat))
    (st : StreamState σ) : Except RestoreError (StreamState σ) :=
  match badRanges with
  | [] => .ok st
  | (badStart, badEnd) :: _ => do
    if plan.policy = .completeOnly then
      throw (.readFailure (chunkLogical + badStart) (badEnd - badStart))
    let st ← fillBadRanges chunkLogical badRanges st
    return { st with requiresBestEffort := true }

/-- One chunk of a read segment. -/
def readChunk (env : StreamEnv σ) (plan : ContentPlan)
    (chunkLogical chunkPhysical chunkLen : Nat) (st : StreamState σ) :
    Except RestoreError (StreamState σ) := do
  let answer := env.readBestEffortAt st.env chunkPhysical (st.scratch.take chunkLen)
  let st := { st with env := answer.2, scratch := answer.1.1 ++ st.scratch.drop chunkLen }
  let badRanges ← normalizeBadRanges chunkLen answer.1.2
  let st ← recordBadRanges plan chunkLogical badRanges st
  writeCommitted env plan.logicalSize (st.scratch.take chunkLen) st

/-- The chunk loop of a read segment, `position` bytes into it. -/
def streamRead (env : StreamEnv σ) (plan : ContentPlan) (logicalOffset physicalOffset len : Nat) :
    Nat → Nat → StreamState σ → Except RestoreError (StreamState σ)
  | 0, _, st => .ok st
  | fuel + 1, position, st =>
    if position ≥ len then .ok st
    else do
      let st ← checkCancel env st
      let chunkLen := min (len - position) st.scratch.length
      let st ← readChunk env plan (logicalOffset + position) (physicalOffset + position) chunkLen st
      streamRead env plan logicalOffset physicalOffset len fuel (position + chunkLen) st

/-- The chunk loop of a zero segment. -/
def streamZero (env : StreamEnv σ) (plan : ContentPlan) (len : Nat) :
    Nat → Nat → StreamState σ → Except RestoreError (StreamState σ)
  | 0, _, st => .ok st
  | fuel + 1, position, st =>
    if position ≥ len then .ok st
    else do
      let st ← checkCancel env st
      let chunkLen := min (len - position) st.scratch.length
      let st := { st with scratch := zeroFill st.scratch 0 chunkLen }
      let st ← writeCommitted env plan.logicalSize (st.scratch.take chunkLen) st
      streamZero env plan len fuel (position + chunkLen) st

def streamSegment (env : StreamEnv σ) (plan : ContentPlan) (segment : ContentSegment)
    (st : StreamState σ) : Except RestoreError (StreamState σ) :=
  match segment with
  | .read logicalOffset physicalOffset len =>
    streamRead env plan logicalOffset physicalOffset len len 0 st
  | .zero logicalOffset len reason => do
    let ranges ← appendZeroRange st.zeroFilledRanges ⟨logicalOffset, len, reason⟩
    streamZero env plan len len 0 { st with zeroFilledRanges := ranges }

def streamSegments (env : StreamEnv σ) (plan : ContentPlan) :
    List ContentSegment → StreamState σ → Except RestoreError (StreamState σ)
  | [], st => .ok st
  | segment :: segments, st => do
    streamSegments env plan segments (← streamSegment env plan segment st)

/-- Streams a plan from the environment state `s`; also returns the final state. -/
def streamCandidate (env : StreamEnv σ) (sha256 : Bytes → Digest) (plan : ContentPlan)
    (scratch : Bytes) (s : σ) : Except RestoreError (StreamOutcome × StreamState σ) := do
  preflight env.sourceLen plan scratch.length
  let _ ← plannedZeroRanges plan
  let st ← streamSegments env plan plan.segments
    { env := s, scratch, requiresBestEffort := plan.requiresBestEffort }
  if st.bytesWritten ≠ plan.logicalSize then
    throw (.outputLengthMismatch st.bytesWritten plan.logicalSize)
  let actual := sha256 st.hashed
  if let some expected := plan.expectedSha256 then
    if expected ≠ actual then throw (.hashMismatch expected actual)
  return (⟨st.bytesWritten, actual, st.zeroFilledRanges, st.requiresBestEffort⟩, st)

/-! ## Restore manifest -/

structure ManifestRange where
  logicalOffset : Nat
  length : Nat
deriving DecidableEq, Repr

def readableRangesFrom (logicalSize : Nat) : List ZeroFilledRange → Nat → List ManifestRange
  | [], cursor => if cursor < logicalSize then [⟨cursor, logicalSize - cursor⟩] else []
  | range :: ranges, cursor =>
    let next := min ((U64.checkedAdd range.logicalOffset range.len).getD logicalSize) logicalSize
    (if cursor < range.logicalOffset then [⟨cursor, range.logicalOffset - cursor⟩] else []) ++
      readableRangesFrom logicalSize ranges next

/-- The ranges of the output that are source bytes. -/
def readableRanges (logicalSize : Nat) (zeroRanges : List ZeroFilledRange) : List ManifestRange :=
  readableRangesFrom logicalSize zeroRanges 0

end Undelete.Restore
