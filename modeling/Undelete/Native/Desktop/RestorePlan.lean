import Undelete.Native.Desktop.Results
import Undelete.Native.Restore.Job

/-!
# Recovery plans of a selection

Model of the planning loop of `RestoreCoordinator::create_restore_plan` in
`apps/desktop/src-tauri/src/restore.rs`: every selected candidate is admitted by its eligibility
under the chosen policy, given a safe path, and planned.
-/

namespace Undelete.Desktop

open Restore

def maxRestoreWarnings : Nat := 128
def maxRestoreWarningScalars : Nat := 512

structure DesktopRestoreError where
  code : String
  message : String
deriving DecidableEq, Repr

namespace DesktopRestoreError

def internal : DesktopRestoreError where
  code := "RESTORE_INTERNAL"
  message := "The native recovery coordinator could not complete the request."

def itemIneligible : DesktopRestoreError where
  code := "RESTORE_ITEM_INELIGIBLE"
  message := "The selection contains an item without a bounded recovery plan."

def itemWithoutContent : DesktopRestoreError where
  code := "RESTORE_ITEM_INELIGIBLE"
  message := "The selection contains an item without file content."

def partialPolicyRequired : DesktopRestoreError where
  code := "RESTORE_PARTIAL_POLICY_REQUIRED"
  message := "Best-effort items require explicit zero-fill and range-map consent."

def unsafePath : DesktopRestoreError where
  code := "RESTORE_PLAN_INVALID"
  message := "A selected item has unsafe or excessive path evidence."

/-- `map_restore_plan_error`, which forgets the error it maps. -/
def planInvalid : DesktopRestoreError where
  code := "RESTORE_PLAN_INVALID"
  message := "The selected items could not form a bounded recovery plan."

end DesktopRestoreError

structure RestoreSelectedCandidate where
  candidate : Candidate
  expectedSha256 : Option Digest
  warnings : List String
deriving DecidableEq

/-- `char::is_control`. -/
def isControlChar (c : Char) : Bool := c.toNat ≤ 0x1F || (0x7F ≤ c.toNat && c.toNat ≤ 0x9F)

def sanitizeRestoreWarnings (trim : String → String) (warnings : List String) : List String :=
  let texts := (warnings.take maxRestoreWarnings).map fun warning =>
    String.ofList ((warning.toList.filter fun c =>
      !isControlChar c && !(['/', '\\', ':'].contains c)).take maxRestoreWarningScalars)
  texts.filter fun warning => !(trim warning).isEmpty

/-- What the loop has made of the candidates so far. -/
structure PlannedSelection where
  engineItems : List FileRestorePlan := []
  orderedCandidateIds : List Nat := []
  files : Nat := 0
  directories : Nat := 0
  logicalBytes : Nat := 0
  bestEffort : Nat := 0
deriving DecidableEq

variable (paths : PathEnv) (trim : String → String) (sourceLen : Nat) (policy : PartialPolicy)

/-- The eligibility check of the loop: the new number of best-effort items. -/
def admitSelected (bestEffort : Nat) (candidate : Candidate) : Except DesktopRestoreError Nat :=
  match candidateEligibility candidate with
  | .ineligible => .error .itemIneligible
  | .bestEffort =>
    if policy ≠ .zeroFillAndMap then .error .partialPolicyRequired
    else okOr (U64.checkedAdd bestEffort 1) .internal
  | .complete => .ok bestEffort

/-- The item of a candidate, with the counters it moves. -/
def planItem (plan : PlannedSelection) (selected : RestoreSelectedCandidate)
    (path : DerivedSafePath) : Except DesktopRestoreError (PlannedSelection × FileRestorePlan) :=
  if selected.candidate.kind = .directory then do
    let directories ← okOr (U64.checkedAdd plan.directories 1) .internal
    return ({ plan with directories }, FileRestorePlan.directory selected.candidate.id path)
  else do
    let files ← okOr (U64.checkedAdd plan.files 1) .internal
    let logicalBytes ← okOr (U64.checkedAdd plan.logicalBytes selected.candidate.size) .internal
    let content ← (planCandidate selected.candidate sourceLen selected.expectedSha256 policy
      {}).mapError fun _ => DesktopRestoreError.planInvalid
    let content ← okOr content .itemWithoutContent
    return ({ plan with files, logicalBytes }, FileRestorePlan.file path content)

/-- One round of the loop. -/
def planSelected (plan : PlannedSelection) (selected : RestoreSelectedCandidate) :
    Except DesktopRestoreError PlannedSelection := do
  let bestEffort ← admitSelected policy plan.bestEffort selected.candidate
  let path ← (deriveForRecovery paths selected.candidate.parentPath
    selected.candidate.name).mapError fun _ => DesktopRestoreError.unsafePath
  let (plan, item) ← planItem sourceLen policy { plan with bestEffort } selected path
  let item ← (item.withWarnings (sanitizeRestoreWarnings trim selected.warnings)).mapError
    fun _ => DesktopRestoreError.planInvalid
  return { plan with
    orderedCandidateIds := plan.orderedCandidateIds ++ [selected.candidate.id]
    engineItems := plan.engineItems ++ [item] }

/-- The planning loop. -/
def planSelection (candidates : List RestoreSelectedCandidate) :
    Except DesktopRestoreError PlannedSelection :=
  candidates.foldlM (planSelected paths trim sourceLen policy) {}

end Undelete.Desktop
