import Mathlib.Data.List.Sort
import Undelete.Native.Core

/-!
# Content plans

Model of `crates/restore/src/plan.rs`: a candidate's extents become a gapless
list of segments, each read from the source or filled with zeros for a stated
reason. The additions the source marks as validated are plain additions here.
-/

namespace Undelete.Restore

def maxStreamBufferBytes : Nat := 1024 * 1024
def maxContentPlanSegments : Nat := 1000000

inductive PartialPolicy where
  | completeOnly | zeroFillAndMap
deriving DecidableEq, Repr

inductive ZeroFillReason where
  | sparse | missingExtent | currentlyAllocated | outOfVolume | previouslyReadFailed | zeroed
  | unknownAvailability
deriving DecidableEq, Repr

abbrev Digest := Vector UInt8 32

/-- What a write reports when it fails; `kind` is the `std::io::ErrorKind`. -/
inductive WriteErrorKind where
  | writeZero | invalidData | other (code : Nat)
deriving DecidableEq, Repr

/-- The errors planning and streaming can return. -/
inductive RestoreError where
  | invalidPlanLimits (requested maximum : Nat)
  | zeroLengthExtent (index : Nat)
  | logicalRangeOverflow (logicalOffset len : Nat)
  | logicalRangeOutOfBounds (logicalOffset len logicalSize : Nat)
  | overlappingExtents (previousEnd nextStart : Nat)
  | physicalRangeOverflow (physicalOffset len : Nat)
  | physicalRangeOutOfBounds (physicalOffset len sourceLen : Nat)
  | unavailableContent (logicalOffset len : Nat) (reason : ZeroFillReason)
  | segmentLimitExceeded (limit : Nat)
  | invalidScratchLength (len maximum : Nat)
  | invalidPlanSegment (index : Nat)
  | invalidPlanCoverage (index expectedOffset actualOffset : Nat)
  | invalidPlanBestEffortFlag (expected actual : Bool)
  | readFailure (logicalOffset len : Nat)
  | invalidReadOutcome (requestedLen : Nat)
  | zeroFillRangeLimitExceeded (limit : Nat)
  | cancelled (bytesWritten : Nat)
  | outputWrite (kind : WriteErrorKind) (message : String) (bytesWritten : Nat)
  | outputLengthMismatch (bytesWritten logicalSize : Nat)
  | hashMismatch (expected actual : Digest)
deriving DecidableEq, Repr

inductive ContentSegment where
  | read (logicalOffset physicalOffset len : Nat)
  | zero (logicalOffset len : Nat) (reason : ZeroFillReason)
deriving DecidableEq, Repr

namespace ContentSegment

def logicalOffset : ContentSegment → Nat
  | read offset _ _ | zero offset _ _ => offset

def len : ContentSegment → Nat
  | read _ _ n | zero _ n _ => n

end ContentSegment

structure ContentPlan where
  candidateId : Nat
  logicalSize : Nat
  segments : List ContentSegment
  expectedSha256 : Option Digest
  requiresBestEffort : Bool
  policy : PartialPolicy
deriving DecidableEq

structure PlanLimits where
  maxSegments : Nat := maxContentPlanSegments
deriving DecidableEq, Repr

structure BuiltSegment where
  segment : ContentSegment
  readAvailability : Option ExtentAvailability
deriving DecidableEq, Repr

structure PlanBuilder where
  segments : List BuiltSegment := []
  policy : PartialPolicy
  maxSegments : Nat
  requiresBestEffort : Bool := false
deriving DecidableEq, Repr

namespace PlanBuilder

def push (b : PlanBuilder) (segment : BuiltSegment) : Except RestoreError PlanBuilder :=
  if b.segments.length ≥ b.maxSegments then .error (.segmentLimitExceeded b.maxSegments)
  else .ok { b with segments := b.segments ++ [segment] }

/-- Replaces the last segment. -/
def setLast (b : PlanBuilder) (segment : BuiltSegment) : PlanBuilder :=
  { b with segments := b.segments.dropLast ++ [segment] }

def pushRead (b : PlanBuilder) (logicalOffset physicalOffset len : Nat)
    (availability : ExtentAvailability) : Except RestoreError PlanBuilder :=
  let next : BuiltSegment := ⟨.read logicalOffset physicalOffset len, some availability⟩
  match b.segments.getLast? with
  | some ⟨.read lastLogical lastPhysical lastLen, lastAvailability⟩ =>
    if lastAvailability = some availability ∧ lastLogical + lastLen = logicalOffset ∧
        lastPhysical + lastLen = physicalOffset then
      .ok (b.setLast ⟨.read lastLogical lastPhysical (lastLen + len), lastAvailability⟩)
    else b.push next
  | _ => b.push next

def pushZero (b : PlanBuilder) (logicalOffset len : Nat) (reason : ZeroFillReason) :
    Except RestoreError PlanBuilder := do
  if reason ≠ .sparse ∧ b.policy = .completeOnly then
    throw (.unavailableContent logicalOffset len reason)
  let b := if reason ≠ .sparse then { b with requiresBestEffort := true } else b
  match b.segments.getLast? with
  | some ⟨.zero lastLogical lastLen lastReason, lastAvailability⟩ =>
    if lastLogical + lastLen = logicalOffset ∧ lastReason = reason then
      return b.setLast ⟨.zero lastLogical (lastLen + len) lastReason, lastAvailability⟩
    else b.push ⟨.zero logicalOffset len reason, none⟩
  | _ => b.push ⟨.zero logicalOffset len reason, none⟩

def finish (b : PlanBuilder) : List ContentSegment × Bool :=
  (b.segments.map (·.segment), b.requiresBestEffort)

end PlanBuilder

inductive ExtentMapping where
  | read (physicalOffset : Nat)
  | zero (reason : ZeroFillReason)
deriving DecidableEq, Repr

def readableMapping (extent : ExtentRun) (sourceLen : Nat) : Except RestoreError ExtentMapping :=
  match extent.availability with
  | .freeInSnapshot | .resident =>
    match extent.physicalOffset with
    | none => .ok (.zero .unknownAvailability)
    | some physicalOffset => do
      let physicalEnd ← okOr (U64.checkedAdd physicalOffset extent.len)
        (.physicalRangeOverflow physicalOffset extent.len)
      if physicalEnd > sourceLen then
        throw (.physicalRangeOutOfBounds physicalOffset extent.len sourceLen)
      return .read physicalOffset
  | .sparse => .ok (.zero .sparse)
  | .currentlyAllocated => .ok (.zero .currentlyAllocated)
  | .outOfVolume => .ok (.zero .outOfVolume)
  | .readFailed => .ok (.zero .previouslyReadFailed)
  | .zeroed => .ok (.zero .zeroed)
  | .unknown => .ok (.zero .unknownAvailability)

/-- The checks `plan_candidate` makes on the extent at `index`. -/
def checkExtent (size index : Nat) (extent : ExtentRun) : Except RestoreError Unit := do
  if extent.len = 0 then throw (.zeroLengthExtent index)
  let logicalEnd ← okOr (U64.checkedAdd extent.logicalOffset extent.len)
    (.logicalRangeOverflow extent.logicalOffset extent.len)
  if logicalEnd > size then
    throw (.logicalRangeOutOfBounds extent.logicalOffset extent.len size)

/-- The validation loop: the extents paired with their indices. -/
def checkedExtents (size : Nat) : List ExtentRun → Nat →
    Except RestoreError (List (Nat × ExtentRun))
  | [], _ => .ok []
  | extent :: extents, index => do
    checkExtent size index extent
    let ordered ← checkedExtents size extents (index + 1)
    return (index, extent) :: ordered

/-- The sort key `(logical_offset, index)` of `plan_candidate`. -/
def planOrder (a b : Nat × ExtentRun) : Prop :=
  a.2.logicalOffset < b.2.logicalOffset ∨
    a.2.logicalOffset = b.2.logicalOffset ∧ a.1 ≤ b.1

instance : DecidableRel planOrder := fun a b =>
  inferInstanceAs (Decidable (a.2.logicalOffset < b.2.logicalOffset ∨
    a.2.logicalOffset = b.2.logicalOffset ∧ a.1 ≤ b.1))

/-- One extent of the planning loop, with everything before `logicalCursor` planned. -/
def planExtent (sourceLen : Nat) (builder : PlanBuilder) (logicalCursor : Nat)
    (extent : ExtentRun) : Except RestoreError PlanBuilder := do
  if extent.logicalOffset < logicalCursor then
    throw (.overlappingExtents logicalCursor extent.logicalOffset)
  let builder ←
    if extent.logicalOffset > logicalCursor then
      builder.pushZero logicalCursor (extent.logicalOffset - logicalCursor) .missingExtent
    else pure builder
  match ← readableMapping extent sourceLen with
  | .read physicalOffset =>
    builder.pushRead extent.logicalOffset physicalOffset extent.len extent.availability
  | .zero reason => builder.pushZero extent.logicalOffset extent.len reason

/-- The planning loop; returns the builder and the final cursor. -/
def planExtents (sourceLen : Nat) :
    List (Nat × ExtentRun) → PlanBuilder → Nat → Except RestoreError (PlanBuilder × Nat)
  | [], builder, logicalCursor => .ok (builder, logicalCursor)
  | (_, extent) :: ordered, builder, logicalCursor => do
    let builder ← planExtent sourceLen builder logicalCursor extent
    planExtents sourceLen ordered builder (extent.logicalOffset + extent.len)

def planCandidate (candidate : Candidate) (sourceLen : Nat) (expectedSha256 : Option Digest)
    (policy : PartialPolicy) (limits : PlanLimits) : Except RestoreError (Option ContentPlan) := do
  if candidate.kind = .directory then return none
  if limits.maxSegments = 0 ∨ limits.maxSegments > maxContentPlanSegments then
    throw (.invalidPlanLimits limits.maxSegments maxContentPlanSegments)
  if candidate.extents.length > maxContentPlanSegments then
    throw (.segmentLimitExceeded limits.maxSegments)
  let checked ← checkedExtents candidate.size candidate.extents 0
  let ordered := checked.insertionSort planOrder
  let (builder, logicalCursor) ←
    planExtents sourceLen ordered { policy, maxSegments := limits.maxSegments } 0
  let builder ←
    if logicalCursor < candidate.size then
      builder.pushZero logicalCursor (candidate.size - logicalCursor) .missingExtent
    else pure builder
  let (segments, requiresBestEffort) := builder.finish
  return some
    { candidateId := candidate.id, logicalSize := candidate.size, segments, expectedSha256,
      requiresBestEffort, policy }

end Undelete.Restore
