import Undelete.Native.Desktop.Contract
import Undelete.Native.Desktop.RestoreJob

/-!
# The contract of a restore job

How the snapshot of a job crosses to the window: `restore.rs` writes it, and
`parseRestoreJobSnapshot` in `apps/desktop/src/api/storage.ts` reads it back, field by field and
against the snapshot of the same job that it accepted before.
-/

namespace Undelete.Desktop

/-! ## Writing -/

def RestoreJobStatusDto.name : RestoreJobStatusDto → String
  | .queued => "queued"
  | .running => "running"
  | .cancelling => "cancelling"
  | .completed => "completed"
  | .failed => "failed"
  | .cancelled => "cancelled"

def RestoreCurrentItemDto.toJson (item : RestoreCurrentItemDto) : Json :=
  .object [("ordinal", .string item.ordinal),
    ("candidateId", .string item.candidateId),
    ("kind", .string item.kind)]

def RestoreManifestSummaryDto.toJson (manifest : RestoreManifestSummaryDto) : Json :=
  .object [("manifestSha256", .string manifest.manifestSha256),
    ("completionStatus", .string manifest.completionStatus),
    ("publishedItems", .string manifest.publishedItems),
    ("partialItems", .string manifest.partialItems)]

def RestoreJobSnapshotDto.toJson (snapshot : RestoreJobSnapshotDto) : Json :=
  .object [("schemaVersion", .number snapshot.schemaVersion),
    ("jobId", .string snapshot.jobId),
    ("planId", .string snapshot.planId),
    ("status", .string snapshot.status.name),
    ("itemsTotal", .string snapshot.itemsTotal),
    ("itemsCompleted", .string snapshot.itemsCompleted),
    ("itemsFailed", .string snapshot.itemsFailed),
    ("itemsCancelled", .string snapshot.itemsCancelled),
    ("bytesTotal", .string snapshot.bytesTotal),
    ("bytesCompleted", .string snapshot.bytesCompleted),
    ("currentItem", .optional (·.toJson) snapshot.currentItem),
    ("warnings", .array (snapshot.warnings.map .string)),
    ("manifest", .optional (·.toJson) snapshot.manifest)]

/-! ## Reading -/

namespace Contract

/-- The regular expression `(?:^|[^A-Za-z])[A-Za-z]:` somewhere in the text behind a character
    that is a letter, or not. -/
def namesDrive (afterLetter : Bool) : List Char → Bool
  | c :: d :: rest => (!afterLetter && c.isAlpha && d = ':') || namesDrive c.isAlpha (d :: rest)
  | _ => false

/-- A warning that names no path. -/
def pathless (warning : String) : Bool :=
  !warning.toList.contains '/' && !warning.toList.contains '\\' && !namesDrive false warning.toList

def restoreWarningList (value : Json) : Option (List String) := do
  let warnings ← warningList value
  if !warnings.all pathless then none
  return warnings

/-- The regular expression `^[0-9a-f]{64}$`. -/
def isSha256Hex (value : String) : Bool :=
  value.length = 64 && value.toList.all fun c => c.isDigit || ('a' ≤ c && c ≤ 'f')

def sha256 : Json → Option String := checkedText isSha256Hex

def restoreSchema : Json → Option Nat
  | .number value => if value = restoreSchemaVersion then some restoreSchemaVersion else none
  | _ => none

def restoreStatus : Json → Option RestoreJobStatusDto
  | .string value =>
    [.queued, .running, .cancelling, .completed, .failed, .cancelled].find? (·.name = value)
  | _ => none

def completionStatuses : List String := ["completedDurable", "needsReconciliation"]

def restoreCurrentItem (itemsTotal : Nat) : Json → Option (Option RestoreCurrentItemDto)
  | .null => some none
  | value => do
    let item ← record value
    if !exactKeys item ["ordinal", "candidateId", "kind"] then none
    let current : RestoreCurrentItemDto := {
      ordinal := ← decimal (field item "ordinal")
      candidateId := ← decimal (field item "candidateId")
      kind := ← oneOf kinds (field item "kind") }
    if bigInt current.ordinal ≥ itemsTotal then none
    return some current

def restoreManifestSummary (itemsCompleted : Nat) :
    Json → Option (Option RestoreManifestSummaryDto)
  | .null => some none
  | value => do
    let item ← record value
    if !exactKeys item ["manifestSha256", "completionStatus", "publishedItems",
        "partialItems"] then none
    let manifest : RestoreManifestSummaryDto := {
      manifestSha256 := ← sha256 (field item "manifestSha256")
      completionStatus := ← oneOf completionStatuses (field item "completionStatus")
      publishedItems := ← decimal (field item "publishedItems")
      partialItems := ← decimal (field item "partialItems") }
    if bigInt manifest.publishedItems > itemsCompleted ∨
        bigInt manifest.partialItems > bigInt manifest.publishedItems then none
    return some manifest

/-- `LEGAL_RESTORE_JOB_TRANSITIONS` -/
def legalRestoreJobTransitions : RestoreJobStatusDto → List RestoreJobStatusDto
  | .queued => [.queued, .running, .cancelling, .completed, .failed, .cancelled]
  | .running => [.running, .cancelling, .completed, .failed, .cancelled]
  | .cancelling => [.cancelling, .completed, .failed, .cancelled]
  | .completed => [.completed]
  | .failed => [.failed]
  | .cancelled => [.cancelled]

/-- The items of a snapshot that are done, whatever became of them. -/
def dispositions (snapshot : RestoreJobSnapshotDto) : Nat :=
  bigInt snapshot.itemsCompleted + bigInt snapshot.itemsFailed + bigInt snapshot.itemsCancelled

/-- The first group of checks, on the counters alone. -/
def coherentCounters (itemsTotal dispositions bytesTotal bytesCompleted : Nat) : Bool :=
  itemsTotal ≠ 0 && itemsTotal ≤ maxRetainedCandidatesPerScan && dispositions ≤ itemsTotal &&
    bytesCompleted ≤ bytesTotal

/-- The second group of checks: what the status says of the other fields. -/
def coherentStatus (snapshot : RestoreJobSnapshotDto) : Bool :=
  let terminal := snapshot.status.isTerminal
  (terminal || snapshot.manifest.isNone) &&
    (!(snapshot.status = .queued || terminal) || snapshot.currentItem.isNone) &&
    snapshot.currentItem.all (fun item => bigInt item.ordinal = dispositions snapshot) &&
    (snapshot.status ≠ .queued || (bigInt snapshot.itemsCompleted = 0 &&
      bigInt snapshot.itemsFailed = 0 && bigInt snapshot.itemsCancelled = 0 &&
      bigInt snapshot.bytesCompleted = 0)) &&
    (snapshot.status ≠ .completed || (bigInt snapshot.itemsCompleted = bigInt snapshot.itemsTotal &&
      bigInt snapshot.itemsFailed = 0 && bigInt snapshot.itemsCancelled = 0 &&
      bigInt snapshot.bytesCompleted = bigInt snapshot.bytesTotal &&
      snapshot.manifest.any fun manifest =>
        bigInt manifest.publishedItems = bigInt snapshot.itemsTotal))

/-- `sameTerminalRestoreSnapshot`; two manifests are the same when all their fields are. -/
def sameTerminalRestoreSnapshot (previous current : RestoreJobSnapshotDto) : Bool :=
  previous.status = current.status && previous.itemsCompleted = current.itemsCompleted &&
    previous.itemsFailed = current.itemsFailed &&
    previous.itemsCancelled = current.itemsCancelled &&
    previous.bytesCompleted = current.bytesCompleted && previous.warnings = current.warnings &&
    previous.manifest = current.manifest

/-- The item that a snapshot shows is not one before that of the snapshot before it. -/
def itemFollows (previous current : RestoreCurrentItemDto) : Bool :=
  bigInt previous.ordinal ≤ bigInt current.ordinal &&
    (current.ordinal ≠ previous.ordinal ||
      (current.candidateId = previous.candidateId && current.kind = previous.kind))

/-- The third group of checks: `current` is a snapshot that may follow `previous`. -/
def snapshotFollows (previous current : RestoreJobSnapshotDto) : Bool :=
  previous.jobId = current.jobId && previous.planId = current.planId &&
    previous.itemsTotal = current.itemsTotal && previous.bytesTotal = current.bytesTotal &&
    (legalRestoreJobTransitions previous.status).contains current.status &&
    bigInt previous.itemsCompleted ≤ bigInt current.itemsCompleted &&
    bigInt previous.itemsFailed ≤ bigInt current.itemsFailed &&
    bigInt previous.itemsCancelled ≤ bigInt current.itemsCancelled &&
    bigInt previous.bytesCompleted ≤ bigInt current.bytesCompleted &&
    previous.currentItem.all (fun before => current.currentItem.all (itemFollows before)) &&
    (previous.currentItem.isNone || current.currentItem.isSome || current.status.isTerminal ||
      dispositions previous < dispositions current) &&
    (!previous.status.isTerminal || sameTerminalRestoreSnapshot previous current)

def parseRestoreJobSnapshot (value : Json) (previous : Option RestoreJobSnapshotDto) :
    Option RestoreJobSnapshotDto := do
  let item ← record value
  if !exactKeys item ["schemaVersion", "jobId", "planId", "status", "itemsTotal",
      "itemsCompleted", "itemsFailed", "itemsCancelled", "bytesTotal", "bytesCompleted",
      "currentItem", "warnings", "manifest"] then none
  let version ← restoreSchema (field item "schemaVersion")
  let status ← restoreStatus (field item "status")
  let itemsTotal ← decimal (field item "itemsTotal")
  let itemsCompleted ← decimal (field item "itemsCompleted")
  let itemsFailed ← decimal (field item "itemsFailed")
  let itemsCancelled ← decimal (field item "itemsCancelled")
  let bytesTotal ← decimal (field item "bytesTotal")
  let bytesCompleted ← decimal (field item "bytesCompleted")
  let dispositions := bigInt itemsCompleted + bigInt itemsFailed + bigInt itemsCancelled
  if !coherentCounters (bigInt itemsTotal) dispositions (bigInt bytesTotal)
      (bigInt bytesCompleted) then none
  let currentItem ← restoreCurrentItem (bigInt itemsTotal) (field item "currentItem")
  let manifest ← restoreManifestSummary (bigInt itemsCompleted) (field item "manifest")
  let parsed : RestoreJobSnapshotDto := {
    schemaVersion := version
    jobId := ← opaqueId (field item "jobId")
    planId := ← opaqueId (field item "planId")
    status
    itemsTotal
    itemsCompleted
    itemsFailed
    itemsCancelled
    bytesTotal
    bytesCompleted
    currentItem
    warnings := ← restoreWarningList (field item "warnings")
    manifest }
  if !coherentStatus parsed then none
  if !previous.all (snapshotFollows · parsed) then none
  return parsed

end Contract

end Undelete.Desktop
