import Undelete.Native.Restore.Stream
import Undelete.Native.Restore.Journal

/-!
# The recovery manifest

Model of `crates/restore/src/manifest.rs`: the result of an item, the outcome of each item of
a job, and the manifest and partial sidecar built from them. `Value` stands for
`serde_json::Value`; the bytes of a manifest and of a sidecar are `serde_json`'s.
-/

namespace Undelete.Restore

def manifestVersion : Nat := 1
def manifestName : String := "recovery-manifest.json"

inductive NamespaceDurability where
  | synced
  | unconfirmed (reason : String)
  | unsupported (kind message : String)
  | failed (kind message : String)
deriving DecidableEq, Repr

def NamespaceDurability.isSynced : NamespaceDurability → Bool
  | synced => true
  | _ => false

inductive RestoreCompletionStatus where
  | completedDurable | needsReconciliation
deriving DecidableEq, Repr

inductive DirectoryValidation where
  | boundNoFollow | unconfirmed
deriving DecidableEq, Repr

inductive TemporaryFileDisposition where
  | removed | retainedForReconciliation | retainedAfterCleanupFailure
  | retainedBySafeCleanupPolicy
deriving DecidableEq, Repr

inductive ManifestItemDisposition where
  | published | failed | cancelled | notAttempted | directoryCreated
  | directoryNeedsReconciliation
deriving DecidableEq, Repr

def ManifestItemDisposition.asStr : ManifestItemDisposition → String
  | published => "published"
  | failed => "failed"
  | cancelled => "cancelled"
  | notAttempted => "notAttempted"
  | directoryCreated => "directoryCreated"
  | directoryNeedsReconciliation => "directoryNeedsReconciliation"

/-! ## Results -/

structure RestoreItemResult (Value : Type) where
  candidateId : Nat
  itemKey : String
  requestedPath : String
  publishedPath : String
  publishedName : String
  outputLen : Option Nat
  outputSha256 : Option Digest
  expectedSha256 : Option Digest
  zeroFilledRanges : List ZeroFilledRange
  sidecarName : Option String
  sidecarSha256 : Option Digest
  temporaryDisposition : Option TemporaryFileDisposition
  pathEvidence : Value
  warnings : List String
  namespaceDurability : NamespaceDurability
  completionStatus : RestoreCompletionStatus
  directoryNoFollowBindCompleted : Option Bool
  directoryValidation : Option DirectoryValidation
deriving DecidableEq

structure RestoreSummary (Value : Type) where
  jobDirectoryName : String
  manifestName : String
  journalName : String
  manifestSha256 : Digest
  items : List (RestoreItemResult Value)
  completionStatus : RestoreCompletionStatus
deriving DecidableEq

structure PublishedSidecarEvidence where
  itemKey : String
  name : String
  sha256 : Digest
deriving DecidableEq

structure ManifestItemOutcome (Value : Type) where
  candidateId : Nat
  itemKey : String
  itemKind : String
  disposition : ManifestItemDisposition
  requestedPath : String
  expectedSha256 : Option Digest
  warnings : List String
  pathEvidence : Value
  failureKind : Option String
  publishedSidecar : Option PublishedSidecarEvidence
  published : Option (RestoreItemResult Value)
deriving DecidableEq

/-! ## The manifest -/

structure ManifestZeroRange where
  logicalOffset : Nat
  length : Nat
  reason : String
deriving DecidableEq, Repr

structure ManifestItem (Value : Type) where
  candidateId : Nat
  itemKey : String
  itemKind : String
  disposition : String
  requestedPath : String
  publishedPath : Option String
  outputLength : Option Nat
  outputSha256 : Option String
  expectedSha256 : Option String
  readableRanges : List ManifestRange
  zeroFilledRanges : List ManifestZeroRange
  conflicts : List ManifestRange
  readErrors : List ManifestRange
  warnings : List String
  partialSidecar : Option String
  partialSidecarSha256 : Option String
  temporaryFileDisposition : Option TemporaryFileDisposition
  namespaceDurability : Option NamespaceDurability
  completionStatus : Option RestoreCompletionStatus
  directoryNoFollowBindCompleted : Option Bool
  directoryValidation : Option DirectoryValidation
  failureKind : Option String
  pathEvidence : Value
deriving DecidableEq

structure RecoveryManifest (Value : Type) where
  version : Nat
  jobId : String
  journalHeadSha256 : String
  items : List (ManifestItem Value)
deriving DecidableEq

structure SidecarValidation where
  expectedSha256Present : Bool
  expectedSha256Matched : Bool
deriving DecidableEq, Repr

structure PartialSidecar where
  version : Nat
  itemKey : String
  candidateId : Nat
  logicalSize : Nat
  readableRanges : List ManifestRange
  zeroFilledRanges : List ManifestZeroRange
  zeroFilledMissingRanges : List ManifestZeroRange
  conflictRanges : List ManifestRange
  sourceReadErrors : List ManifestRange
  outputSha256 : String
  expectedContentSha256 : Option String
  validation : SidecarValidation
  warnings : List String
deriving DecidableEq, Repr

def reasonName : ZeroFillReason → String
  | .sparse => "sparse"
  | .missingExtent => "missingExtent"
  | .currentlyAllocated => "currentlyAllocated"
  | .outOfVolume => "outOfVolume"
  | .previouslyReadFailed => "previouslyReadFailed"
  | .zeroed => "zeroed"
  | .unknownAvailability => "unknownAvailability"

def manifestZeroRange (range : ZeroFilledRange) : ManifestZeroRange :=
  ⟨range.logicalOffset, range.len, reasonName range.reason⟩

def filteredRanges (ranges : List ZeroFilledRange) (reason : ZeroFillReason) :
    List ManifestRange :=
  (ranges.filter (·.reason = reason)).map fun range => ⟨range.logicalOffset, range.len⟩

def hexDigest (digest : Digest) : String := hexLower digest.toList

variable {Value : Type}

def manifestItem (outcome : ManifestItemOutcome Value) : ManifestItem Value :=
  let published := outcome.published
  let filePublished := if outcome.disposition = .published then published else none
  let zeroFilledRanges := (filePublished.map (·.zeroFilledRanges)).getD []
  let outputLen := filePublished.bind (·.outputLen)
  { candidateId := outcome.candidateId
    itemKey := outcome.itemKey
    itemKind := outcome.itemKind
    disposition := outcome.disposition.asStr
    requestedPath := outcome.requestedPath
    publishedPath := published.map (·.publishedPath)
    outputLength := outputLen
    outputSha256 := (filePublished.bind (·.outputSha256)).map hexDigest
    expectedSha256 := outcome.expectedSha256.map hexDigest
    readableRanges := (outputLen.map fun len => readableRanges len zeroFilledRanges).getD []
    zeroFilledRanges := zeroFilledRanges.map manifestZeroRange
    conflicts := filteredRanges zeroFilledRanges .currentlyAllocated
    readErrors := filteredRanges zeroFilledRanges .previouslyReadFailed
    warnings := outcome.warnings
    partialSidecar := outcome.publishedSidecar.map (·.name)
    partialSidecarSha256 := outcome.publishedSidecar.map fun sidecar => hexDigest sidecar.sha256
    temporaryFileDisposition := filePublished.bind (·.temporaryDisposition)
    namespaceDurability := published.map (·.namespaceDurability)
    completionStatus := published.map (·.completionStatus)
    directoryNoFollowBindCompleted := published.bind (·.directoryNoFollowBindCompleted)
    directoryValidation := published.bind (·.directoryValidation)
    failureKind := outcome.failureKind
    pathEvidence := outcome.pathEvidence }

/-- The manifest `build_manifest` serializes. -/
def recoveryManifest (jobId journalHead : String) (items : List (ManifestItemOutcome Value)) :
    RecoveryManifest Value where
  version := manifestVersion
  jobId
  journalHeadSha256 := journalHead
  items := items.map manifestItem

/-- The sidecar of an output with unavailable ranges; `none` where every byte was read. -/
def partialSidecar (itemKey : String) (candidateId logicalSize : Nat) (outcome : StreamOutcome)
    (expectedSha256 : Option Digest) (warnings : List String) : Option PartialSidecar :=
  if !outcome.requiresBestEffort then none
  else some
    { version := manifestVersion
      itemKey
      candidateId
      logicalSize
      readableRanges := readableRanges logicalSize outcome.zeroFilledRanges
      zeroFilledRanges := outcome.zeroFilledRanges.map manifestZeroRange
      zeroFilledMissingRanges := (outcome.zeroFilledRanges.filter fun range =>
        range.reason ≠ .currentlyAllocated && range.reason ≠ .previouslyReadFailed).map
          manifestZeroRange
      conflictRanges := filteredRanges outcome.zeroFilledRanges .currentlyAllocated
      sourceReadErrors := filteredRanges outcome.zeroFilledRanges .previouslyReadFailed
      outputSha256 := hexDigest outcome.sha256
      expectedContentSha256 := expectedSha256.map hexDigest
      validation :=
        { expectedSha256Present := expectedSha256.isSome
          expectedSha256Matched := expectedSha256 = some outcome.sha256 }
      warnings }

end Undelete.Restore
