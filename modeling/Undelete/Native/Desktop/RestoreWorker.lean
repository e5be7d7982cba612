import Undelete.Native.Desktop.RestoreJob
import Undelete.Native.Restore.Transaction

/-!
# The worker of a restore job

Model of `run_restore_worker` in `apps/desktop/src-tauri/src/restore.rs`: every change that the
worker of a job, its progress sink, its observer and `cancel_restore` make to the state that
snapshots are read from. Each of them holds the lock of the job while it changes the state, so a
run is a sequence of updates.
-/

namespace Undelete.Desktop

open Restore

variable {Value : Type}

/-- One change to the state of a job. -/
inductive JobUpdate (Value : Type) where
  | cancel
  | notScheduled
  | run
  | advanced (progress : StreamProgress)
  | observe (event : RestoreJobEvent)
  | complete (summary : RestoreSummary Value)
  | fail (warning : String) (cancelled : Bool) (manifest : Option RestoreManifestSummaryDto)

def RetainedRestoreJob.apply (job : RetainedRestoreJob) (state : RestoreJobMutable) :
    JobUpdate Value → RestoreJobMutable
  | .cancel => state.cancel
  | .notScheduled => state.notScheduled
  | .run => state.run
  | .advanced progress => state.advanced progress
  | .observe event => state.observe event
  | .complete summary => state.complete job summary
  | .fail warning cancelled manifest => state.fail warning cancelled manifest

/-- The state of a job behind its updates. -/
def RetainedRestoreJob.after (job : RetainedRestoreJob) (updates : List (JobUpdate Value)) :
    RestoreJobMutable :=
  updates.foldl job.apply {}

namespace JobUpdate

/-- The event that the observer is told. -/
def event : JobUpdate Value → Option RestoreJobEvent
  | .observe event => some event
  | _ => none

/-- The last update of a worker. -/
def ends : JobUpdate Value → Bool
  | .notScheduled | .complete _ | .fail _ _ _ => true
  | _ => false

/-- The end of a worker that failed. -/
def fails : JobUpdate Value → Bool
  | .fail _ _ _ => true
  | _ => false

end JobUpdate

/-- The codes of the errors of `open_source`. -/
def sourceErrorCodes : List String := ["RESTORE_SOURCE_CHANGED", "RESTORE_INTERNAL"]

/-- The end of `run_restore_worker` behind the engine. -/
def engineEnd (result : Except JobError (RestoreSummary Value))
    (pendingManifest : Option RestoreManifestSummaryDto) : JobUpdate Value :=
  match result with
  | .ok summary => .complete summary
  | .error error =>
    .fail (if error.isCancelled then "RESTORE_CANCELLED" else "RESTORE_ENGINE_FAILED")
      error.isCancelled pendingManifest

end Undelete.Desktop
