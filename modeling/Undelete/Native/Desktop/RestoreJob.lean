import Undelete.Native.Desktop.RestorePlan

/-!
# The state of a restore job

Model of `RetainedRestoreJob` in `apps/desktop/src-tauri/src/restore.rs`: what the progress sink,
the observer, a cancellation and the end of the worker make of the mutable state, and the
snapshot that is read from it. The mutex around the state makes each of them one step.
-/

namespace Undelete.Desktop

open Restore

def restoreSchemaVersion : Nat := 1

inductive RestoreJobStatusDto where
  | queued | running | cancelling | completed | failed | cancelled
deriving DecidableEq, Repr

def RestoreJobStatusDto.isTerminal : RestoreJobStatusDto → Bool
  | completed | failed | cancelled => true
  | _ => false

structure RestoreCurrentItemDto where
  ordinal : String
  candidateId : String
  kind : String
deriving DecidableEq, Repr

structure RestoreManifestSummaryDto where
  manifestSha256 : String
  completionStatus : String
  publishedItems : String
  partialItems : String
deriving DecidableEq, Repr

structure RestoreJobSnapshotDto where
  schemaVersion : Nat
  jobId : String
  planId : String
  status : RestoreJobStatusDto
  itemsTotal : String
  itemsCompleted : String
  itemsFailed : String
  itemsCancelled : String
  bytesTotal : String
  bytesCompleted : String
  currentItem : Option RestoreCurrentItemDto
  warnings : List String
  manifest : Option RestoreManifestSummaryDto
deriving DecidableEq, Repr

/-- The fields of `RetainedRestoreJob` that never change. -/
structure RetainedRestoreJob where
  jobId : String
  planId : String
  destinationId : String
  engineJobId : String
  itemsTotal : Nat
  bytesTotal : Nat
deriving DecidableEq, Repr

structure RestoreJobMutable where
  status : RestoreJobStatusDto := .queued
  itemsCompleted : Nat := 0
  itemsFailed : Nat := 0
  itemsCancelled : Nat := 0
  committedBytes : Nat := 0
  currentBytes : Nat := 0
  currentItem : Option RestoreCurrentItemDto := none
  warnings : List String := []
  manifest : Option RestoreManifestSummaryDto := none
deriving DecidableEq, Repr

/-! ## Snapshots -/

def visibleManifest (status : RestoreJobStatusDto) (manifest : Option RestoreManifestSummaryDto) :
    Option RestoreManifestSummaryDto :=
  if status.isTerminal then manifest else none

def RetainedRestoreJob.snapshotFrom (job : RetainedRestoreJob) (state : RestoreJobMutable) :
    Except DesktopRestoreError RestoreJobSnapshotDto := do
  let bytesCompleted ← okOr (U64.checkedAdd state.committedBytes state.currentBytes) .internal
  return {
    schemaVersion := restoreSchemaVersion
    jobId := job.jobId
    planId := job.planId
    status := state.status
    itemsTotal := toString job.itemsTotal
    itemsCompleted := toString state.itemsCompleted
    itemsFailed := toString state.itemsFailed
    itemsCancelled := toString state.itemsCancelled
    bytesTotal := toString job.bytesTotal
    bytesCompleted := toString (min bytesCompleted job.bytesTotal)
    currentItem := state.currentItem
    warnings := state.warnings
    manifest := visibleManifest state.status state.manifest }

/-! ## What changes the state -/

namespace RestoreJobMutable

variable {Value : Type}

def pushJobWarning (state : RestoreJobMutable) (warning : String) : RestoreJobMutable :=
  if state.warnings.length < maxRestoreWarnings && !state.warnings.contains warning then
    { state with warnings := state.warnings ++ [warning] }
  else state

/-- `JobProgress::advanced` -/
def advanced (state : RestoreJobMutable) (progress : StreamProgress) : RestoreJobMutable :=
  { state with currentBytes := min progress.bytesWritten progress.logicalSize }

def itemKindName : RestoreItemKind → String
  | .file => "file"
  | .directory => "directory"

/-- The counters of an item that finished with `outcome`. -/
def countOutcome (state : RestoreJobMutable) : RestoreItemOutcome → RestoreJobMutable
  | .published | .directoryCreated =>
    { state with itemsCompleted := U64.saturatingAdd state.itemsCompleted 1 }
  | .directoryNeedsReconciliation =>
    pushJobWarning { state with itemsCompleted := U64.saturatingAdd state.itemsCompleted 1 }
      "RESTORE_DIRECTORY_NEEDS_RECONCILIATION"
  | .failed => { state with itemsFailed := U64.saturatingAdd state.itemsFailed 1 }
  | .cancelled => { state with itemsCancelled := U64.saturatingAdd state.itemsCancelled 1 }

/-- `JobObserver::observe` -/
def observe (state : RestoreJobMutable) : RestoreJobEvent → RestoreJobMutable
  | .itemStarted itemIndex candidateId itemKind _ =>
    { state with
      currentBytes := 0
      currentItem := some ⟨toString itemIndex, toString candidateId, itemKindName itemKind⟩ }
  | .itemFinished _ _ _ outcome =>
    countOutcome { state with
      committedBytes := (U64.checkedAdd state.committedBytes state.currentBytes).getD (2 ^ 64 - 1)
      currentBytes := 0
      currentItem := none } outcome

/-- The state behind `cancel_restore`. -/
def cancel (state : RestoreJobMutable) : RestoreJobMutable :=
  if state.status = .queued ∨ state.status = .running then { state with status := .cancelling }
  else state

/-- The worker begins. -/
def run (state : RestoreJobMutable) : RestoreJobMutable :=
  if state.status = .queued then { state with status := .running } else state

/-- `RestoreItemResult::is_partial` -/
def isPartial (result : RestoreItemResult Value) : Bool :=
  result.sidecarName.isSome && result.zeroFilledRanges.any (·.reason ≠ .sparse)

def manifestSummary (summary : RestoreSummary Value) : RestoreManifestSummaryDto where
  manifestSha256 := hexDigest summary.manifestSha256
  completionStatus :=
    match summary.completionStatus with
    | .completedDurable => "completedDurable"
    | .needsReconciliation => "needsReconciliation"
  publishedItems := toString summary.items.length
  partialItems := toString (summary.items.countP isPartial)

def commitEngineSuccessTerminal (state : RestoreJobMutable)
    (itemsTotal bytesTotal summaryItemCount : Nat) (manifest : RestoreManifestSummaryDto) :
    RestoreJobMutable :=
  let allItemsCompleted := state.itemsCompleted = summaryItemCount ∧
    state.itemsCompleted = itemsTotal ∧ state.itemsFailed = 0 ∧ state.itemsCancelled = 0 ∧
    summaryItemCount = itemsTotal
  let state := { state with currentBytes := 0, currentItem := none, manifest := some manifest }
  if allItemsCompleted then { state with committedBytes := bytesTotal, status := .completed }
  else
    pushJobWarning { state with
      itemsCompleted := summaryItemCount
      itemsFailed := 0
      itemsCancelled := 0
      committedBytes := bytesTotal
      status := .failed } "RESTORE_TERMINAL_COUNT_MISMATCH"

/-- `complete_job` -/
def complete (state : RestoreJobMutable) (job : RetainedRestoreJob)
    (summary : RestoreSummary Value) :
    RestoreJobMutable :=
  state.commitEngineSuccessTerminal job.itemsTotal job.bytesTotal summary.items.length
    (manifestSummary summary)

/-- `fail_job` -/
def fail (state : RestoreJobMutable) (warning : String) (cancelled : Bool)
    (manifest : Option RestoreManifestSummaryDto) : RestoreJobMutable :=
  pushJobWarning { state with
    currentItem := none
    currentBytes := 0
    manifest
    status := if cancelled then .cancelled else .failed } warning

/-- What a worker that was not scheduled leaves. -/
def notScheduled (state : RestoreJobMutable) : RestoreJobMutable :=
  pushJobWarning { state with status := .failed } "RESTORE_WORKER_START_FAILED"

end RestoreJobMutable

end Undelete.Desktop
