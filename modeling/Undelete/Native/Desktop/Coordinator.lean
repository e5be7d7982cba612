import Mathlib.Data.List.AList
import Undelete.ForStd.Decimal
import Undelete.Native.Desktop.RestoreJob
import Undelete.Native.Desktop.Storage

/-!
# The restore coordinator

Model of `RestoreCoordinator` in `apps/desktop/src-tauri/src/restore.rs`: admitting a destination,
creating a plan, and starting a restore, which drop and retake the coordinator's lock around
destination I/O. Each locked block is one function on `RestoreCoordinatorInner`; what runs between
two of them is a function of its own. The answers of the destination, of the random generator and
of the worker's thread are arguments.

A `World` holds the coordinator, the retained scans and the requests that are under way, and a
step lets one of them reach its next locked block, so a run is any interleaving of requests.
-/

namespace Undelete.Desktop

open Restore

def maxDestinationAuthorities : Nat := 32
def maxRetainedRestorePlans : Nat := 8
def maxRetainedRestoreJobs : Nat := 8

/-- `std::sync::Arc`: two handles are one allocation when their pointers are equal. -/
structure Arc (α : Type) where
  ptr : Nat
  value : α
deriving DecidableEq, Repr

/-- `HashMap` with keys of type `String`. -/
abbrev HashMap (β : Type) := AList fun _ : String => β

/-! ## Errors -/

namespace DesktopRestoreError

def destinationExpired : DesktopRestoreError where
  code := "RESTORE_DESTINATION_EXPIRED"
  message := "The selected recovery destination is no longer valid."

def destinationLimit : DesktopRestoreError where
  code := "RESTORE_DESTINATION_LIMIT"
  message := "Too many recovery destinations are retained. Finish or restart the workflow."

def differentDiskRequired : DesktopRestoreError where
  code := "RESTORE_DIFFERENT_DISK_REQUIRED"
  message := "Recovery requires a known NTFS destination on a different physical disk."

def destinationUnbound : DesktopRestoreError where
  code := "RESTORE_SOURCE_CHANGED"
  message := "The destination is not bound to this scan source."

def noSpace : DesktopRestoreError where
  code := "RESTORE_DESTINATION_INVALID"
  message := "The selected destination does not have enough available space."

def selectionEmpty : DesktopRestoreError where
  code := "RESTORE_SELECTION_EMPTY"
  message := "Select at least one recoverable item."

def planLimit : DesktopRestoreError where
  code := "RESTORE_PLAN_LIMIT"
  message := "Too many recovery plans are retained."

def planExpired : DesktopRestoreError where
  code := "RESTORE_PLAN_EXPIRED"
  message := "The recovery plan is no longer retained."

def planChanged : DesktopRestoreError where
  code := "RESTORE_PLAN_EXPIRED"
  message := "The recovery plan changed during start authorization."

def planStarted : DesktopRestoreError where
  code := "RESTORE_PLAN_INVALID"
  message := "A recovery plan can be started only once."

def sourceChanged : DesktopRestoreError where
  code := "RESTORE_SOURCE_CHANGED"
  message := "The recovery source changed after plan creation."

def revisionStale : DesktopRestoreError where
  code := "RESTORE_SELECTION_STALE"
  message := "The recovery selection changed after plan creation."

def orderStale : DesktopRestoreError where
  code := "RESTORE_SELECTION_STALE"
  message := "The ordered recovery selection changed after plan creation."

def jobLimit : DesktopRestoreError where
  code := "RESTORE_JOB_LIMIT"
  message := "Too many recovery jobs are retained."

def jobNotFound : DesktopRestoreError where
  code := "RESTORE_JOB_NOT_FOUND"
  message := "The recovery job is no longer retained."

/-- `From<DesktopStorageError>` -/
def ofStorage (error : DesktopStorageError) : DesktopRestoreError :=
  if error.code = "RESULT_SELECTION_STALE" then
    ⟨"RESTORE_SELECTION_STALE", "The recovery selection changed before the plan could be used."⟩
  else if error.code = "REPORT_INCOMPATIBLE" then
    ⟨"RESTORE_PLAN_EXPIRED", "The scan retained by this recovery plan is no longer available."⟩
  else if error.code = "SOURCE_IDENTITY_CHANGED" ∨ error.code = "SOURCE_GONE" then
    ⟨"RESTORE_SOURCE_CHANGED", "The recovery source identity changed."⟩
  else internal

end DesktopRestoreError

/-! ## Data -/

inductive CollisionPolicyDto where
  | rename
deriving DecidableEq, Repr

structure DestinationRevalidation where
  fileSystem : String
  freeBytes : Nat
  physicalDiskNumber : Nat
  reparseSafe : Bool
deriving DecidableEq, Repr

structure DestinationSummaryDto where
  schemaVersion : Nat
  destinationId : String
  label : String
  volumeLabel : String
  fileSystem : String
  freeBytes : String
  relation : String
deriving DecidableEq, Repr

structure RestorePlanSummaryDto where
  schemaVersion : Nat
  planId : String
  planDigest : String
  scanId : String
  destinationId : String
  selectionRevision : String
  collisionPolicy : CollisionPolicyDto
  partialFilePolicy : PartialPolicy
  itemsTotal : String
  filesTotal : String
  directoriesTotal : String
  logicalBytes : String
  bestEffortItems : String
deriving DecidableEq, Repr

structure RestoreScanSnapshot where
  scanId : String
  source : ScanSourceBinding
  selectionRevision : Nat
  candidates : List RestoreSelectedCandidate

structure RestoreScanBinding where
  scanId : String
  source : ScanSourceBinding

/-- `Capability` stands for `Arc<dyn DestinationCapability>`; two are one when they are equal. -/
structure AdmittedDestination (Capability : Type) where
  label : String
  volumeLabel : String
  capability : Capability

structure RetainedDestinationAuthority (Capability : Type) where
  scanId : String
  source : ScanSourceBinding
  admitted : AdmittedDestination Capability
  baseline : DestinationRevalidation

structure ImmutableRestorePlan where
  summary : RestorePlanSummaryDto
  source : ScanSourceBinding
  selectionRevision : Nat
  orderedCandidateIds : List Nat
  engineJobId : String
  enginePlan : RestoreJobPlan

structure RetainedRestorePlan where
  immutable : Arc ImmutableRestorePlan
  started : Bool

/-- `Root` stands for `DestinationRoot`. -/
structure PreparedRestoreStart (Capability Root : Type) where
  plan : RetainedRestorePlan
  capability : Capability
  destinationBaseline : DestinationRevalidation
  destinationRoot : Root
  requiredBytes : Nat

structure CommittedRestoreStart (Root : Type) where
  job : Arc RetainedRestoreJob
  plan : RetainedRestorePlan
  destinationRoot : Root

structure RestoreCoordinatorInner (Capability : Type) where
  destinations : HashMap (RetainedDestinationAuthority Capability) := ∅
  plans : HashMap RetainedRestorePlan := ∅
  jobs : HashMap (Arc RetainedRestoreJob) := ∅

/-- What `plan_digest` hashes. -/
structure DigestDocument where
  version : Nat
  scan : RestoreScanSnapshot
  destinationId : String
  collisionPolicy : CollisionPolicyDto
  partialFilePolicy : PartialPolicy

/-- The functions of other crates: path derivation, `str::trim`, `serde_json` and SHA-256. -/
structure CoordinatorEnv where
  paths : PathEnv
  trim : String → String
  digestToVec : DigestDocument → Option Bytes
  sha256 : Bytes → Digest

/-! ## Checks -/

/-- `str::eq_ignore_ascii_case` -/
def eqIgnoreAsciiCase (a b : String) : Bool := a.toList.map Char.toLower = b.toList.map Char.toLower

/-- `um_io_windows::validate_destination_policy` with one destination disk and a source that did
    not change. -/
def validateDestinationPolicy (source destination : Nat) (fileSystem : String) : Bool :=
  eqIgnoreAsciiCase fileSystem "NTFS" && source ≠ destination

def validateDestinationSeparation (source : ScanSourceBinding)
    (destination : DestinationRevalidation) : Except DesktopRestoreError Unit :=
  if validateDestinationPolicy source.physicalDiskNumber destination.physicalDiskNumber
      destination.fileSystem then .ok ()
  else .error .differentDiskRequired

def validateDestinationBaseline (baseline current : DestinationRevalidation) :
    Except DesktopRestoreError Unit :=
  if !current.reparseSafe || !eqIgnoreAsciiCase current.fileSystem "NTFS" ||
      baseline.physicalDiskNumber ≠ current.physicalDiskNumber ||
      !eqIgnoreAsciiCase baseline.fileSystem current.fileSystem then
    .error .destinationExpired
  else .ok ()

/-- `validate_scan_destination_binding` and `validate_start_destination_binding` -/
def validateDestinationBinding {Capability : Type} (scanId : String) (source : ScanSourceBinding)
    (destination : RetainedDestinationAuthority Capability) : Except DesktopRestoreError Unit :=
  if destination.scanId ≠ scanId ∨ destination.source ≠ source then .error .destinationUnbound
  else .ok ()

def validatePlanStartFields (scanId : String) (source : ScanSourceBinding)
    (selectionRevision : Nat) (selectionMatches : List Nat → Bool) (plan : ImmutableRestorePlan) :
    Except DesktopRestoreError Unit :=
  if plan.summary.scanId ≠ scanId ∨ plan.source ≠ source then .error .sourceChanged
  else if plan.selectionRevision ≠ selectionRevision then .error .revisionStale
  else if !selectionMatches plan.orderedCandidateIds then .error .orderStale
  else .ok ()

def sanitizeRestoreLabel (trim : String → String) (value fallback : String) : String :=
  let sanitized := String.ofList ((value.toList.filter fun c =>
    !isControlChar c && !(['/', '\\', '\u202a', '\u202b', '\u202c', '\u202d', '\u202e', '\u2066',
      '\u2067', '\u2068', '\u2069'].contains c)).take 128)
  let trimmed := trim sanitized
  if trimmed.isEmpty then fallback else trimmed

/-- `create_opaque_id`, with the bytes the random generator filled in. -/
def createOpaqueId (kind : String) (random : Option (Vector UInt8 16)) :
    Except DesktopRestoreError String :=
  match random with
  | none => .error .internal
  | some random => .ok (kind ++ "-" ++ hexLower random.toList)

def parseInternalDecimal (value : String) : Except DesktopRestoreError Nat :=
  okOr (Decimal.parseU64 value) .internal

def planDigest (env : CoordinatorEnv) (document : DigestDocument) :
    Except DesktopRestoreError String := do
  let bytes ← okOr (env.digestToVec document) .internal
  return hexDigest (env.sha256 bytes)

namespace RestoreCoordinatorInner

variable {Capability Root : Type} [DecidableEq Capability]

/-! ## Destinations -/

/-- `admit_destination_binding`, with the answers of the capability's `revalidate` and of the
    random generator. -/
def admitDestination (env : CoordinatorEnv) (inner : RestoreCoordinatorInner Capability)
    (scan : RestoreScanBinding) (admitted : Option (AdmittedDestination Capability))
    (revalidation : Except DesktopRestoreError DestinationRevalidation)
    (random : Option (Vector UInt8 16)) :
    Except DesktopRestoreError
      (Option DestinationSummaryDto × RestoreCoordinatorInner Capability) :=
  match admitted with
  -- the dialog was cancelled
  | none => .ok (none, inner)
  | some admitted => do
    let baseline ← revalidation
    validateDestinationSeparation scan.source baseline
    -- a retained destination is never removed, so their number is bounded here
    if inner.destinations.keys.length ≥ maxDestinationAuthorities then
      throw .destinationLimit
    let destinationId ← createOpaqueId "destination" random
    let summary : DestinationSummaryDto :=
      { schemaVersion := restoreSchemaVersion
        destinationId
        label := sanitizeRestoreLabel env.trim admitted.label "Selected destination"
        volumeLabel := sanitizeRestoreLabel env.trim admitted.volumeLabel "NTFS volume"
        fileSystem := "NTFS"
        freeBytes := toString baseline.freeBytes
        relation := "different" }
    return (some summary, { inner with
      destinations := inner.destinations.insert destinationId
        { scanId := scan.scanId, source := scan.source, admitted, baseline } })

/-! ## Plans -/

/-- The first locked block of `create_restore_plan`. -/
def planAuthority (inner : RestoreCoordinatorInner Capability) (scan : RestoreScanSnapshot)
    (destinationId : String) :
    Except DesktopRestoreError (Capability × DestinationRevalidation) := do
  if scan.candidates.isEmpty then
    throw .selectionEmpty
  if inner.plans.keys.length ≥ maxRetainedRestorePlans then
    throw .planLimit
  let destination ← okOr (inner.destinations.lookup destinationId) .destinationExpired
  validateDestinationBinding scan.scanId scan.source destination
  return (destination.admitted.capability, destination.baseline)

/-- `create_restore_plan` between its locked blocks. -/
def buildPlan (env : CoordinatorEnv) (scan : RestoreScanSnapshot) (destinationId : String)
    (collisionPolicy : CollisionPolicyDto) (partialFilePolicy : PartialPolicy)
    (baseline : DestinationRevalidation)
    (revalidation : Except DesktopRestoreError DestinationRevalidation)
    (planRandom jobRandom : Option (Vector UInt8 16)) :
    Except DesktopRestoreError ImmutableRestorePlan := do
  let current ← revalidation
  validateDestinationBaseline baseline current
  validateDestinationSeparation scan.source current
  let planned ← planSelection env.paths env.trim scan.source.sourceLen partialFilePolicy
    scan.candidates
  if planned.logicalBytes > current.freeBytes then
    throw .noSpace
  let planId ← createOpaqueId "plan" planRandom
  let engineJobId ← createOpaqueId "job" jobRandom
  let digest ← planDigest env
    { version := 1, scan, destinationId, collisionPolicy, partialFilePolicy }
  let enginePlan ←
    (if accepted : checkJobPlan engineJobId planned.engineItems = .ok () then
      .ok { jobId := engineJobId, items := planned.engineItems, accepted }
    else .error .planInvalid : Except DesktopRestoreError RestoreJobPlan)
  return {
    summary :=
      { schemaVersion := restoreSchemaVersion
        planId
        planDigest := digest
        scanId := scan.scanId
        destinationId
        selectionRevision := toString scan.selectionRevision
        collisionPolicy
        partialFilePolicy
        itemsTotal := toString scan.candidates.length
        filesTotal := toString planned.files
        directoriesTotal := toString planned.directories
        logicalBytes := toString planned.logicalBytes
        bestEffortItems := toString planned.bestEffort }
    source := scan.source
    selectionRevision := scan.selectionRevision
    orderedCandidateIds := planned.orderedCandidateIds
    engineJobId
    enginePlan }

/-- The second locked block of `create_restore_plan`. -/
def retainPlan (inner : RestoreCoordinatorInner Capability) (scan : RestoreScanSnapshot)
    (destinationId : String) (capability : Capability) (baseline : DestinationRevalidation)
    (plan : Arc ImmutableRestorePlan) :
    Except DesktopRestoreError (RestorePlanSummaryDto × RestoreCoordinatorInner Capability) := do
  if inner.plans.keys.length ≥ maxRetainedRestorePlans then
    throw .planLimit
  let destination ← okOr (inner.destinations.lookup destinationId) .destinationExpired
  validateDestinationBinding scan.scanId scan.source destination
  if capability ≠ destination.admitted.capability ∨ destination.baseline ≠ baseline then
    throw .destinationExpired
  return (plan.value.summary, { inner with
    plans := inner.plans.insert plan.value.summary.planId { immutable := plan, started := false } })

/-! ## Starts -/

def planBinding (inner : RestoreCoordinatorInner Capability) (planId : String) :
    Except DesktopRestoreError (String × Nat) := do
  let plan ← okOr (inner.plans.lookup planId) .planExpired
  return (plan.immutable.value.summary.scanId, plan.immutable.value.selectionRevision)

/-- The locked block of `preflight_restore_start`. -/
def startAuthority (inner : RestoreCoordinatorInner Capability) (planId : String) :
    Except DesktopRestoreError (RetainedRestorePlan × Capability × DestinationRevalidation) := do
  if inner.jobs.keys.length ≥ maxRetainedRestoreJobs then
    throw .jobLimit
  let plan ← okOr (inner.plans.lookup planId) .planExpired
  if plan.started then
    throw .planStarted
  let destination ← okOr (inner.destinations.lookup plan.immutable.value.summary.destinationId)
    .destinationExpired
  return (plan, destination.admitted.capability, destination.baseline)

/-- `preflight_restore_start` behind its locked block, with the answers of the capability's
    `revalidate` and of `try_clone_root` with `from_retained_file`. -/
def prepareRestoreStart (plan : RetainedRestorePlan) (capability : Capability)
    (destinationBaseline : DestinationRevalidation)
    (revalidation : Except DesktopRestoreError DestinationRevalidation)
    (root : Except DesktopRestoreError Root) :
    Except DesktopRestoreError (PreparedRestoreStart Capability Root) := do
  let current ← revalidation
  validateDestinationBaseline destinationBaseline current
  validateDestinationSeparation plan.immutable.value.source current
  let requiredBytes ← parseInternalDecimal plan.immutable.value.summary.logicalBytes
  if requiredBytes > current.freeBytes then
    throw .noSpace
  let destinationRoot ← root
  return { plan, capability, destinationBaseline, destinationRoot, requiredBytes }

/-- The job of a start, with no state yet. -/
def newJob (prepared : PreparedRestoreStart Capability Root) : RetainedRestoreJob where
  jobId := prepared.plan.immutable.value.engineJobId
  planId := prepared.plan.immutable.value.summary.planId
  destinationId := prepared.plan.immutable.value.summary.destinationId
  engineJobId := prepared.plan.immutable.value.engineJobId
  itemsTotal := prepared.plan.immutable.value.orderedCandidateIds.length
  bytesTotal := prepared.requiredBytes

/-- `commit_prepared_restore_start_fields`, whose job is allocated at `ptr`. -/
def commitPreparedRestoreStartFields (inner : RestoreCoordinatorInner Capability) (scanId : String)
    (source : ScanSourceBinding) (selectionRevision : Nat) (selectionMatches : List Nat → Bool)
    (prepared : PreparedRestoreStart Capability Root) (ptr : Nat) :
    Except DesktopRestoreError
      (CommittedRestoreStart Root × RestoreCoordinatorInner Capability) := do
  let plan := prepared.plan
  let job : Arc RetainedRestoreJob := ⟨ptr, newJob prepared⟩
  if inner.jobs.keys.length ≥ maxRetainedRestoreJobs then
    throw .jobLimit
  let retained ← okOr (inner.plans.lookup plan.immutable.value.summary.planId) .planExpired
  validatePlanStartFields scanId source selectionRevision selectionMatches retained.immutable.value
  if retained.started then
    throw .planStarted
  if retained.immutable.ptr ≠ plan.immutable.ptr then
    throw .planChanged
  let destination ← okOr (inner.destinations.lookup plan.immutable.value.summary.destinationId)
    .destinationExpired
  validateDestinationBinding scanId source destination
  if prepared.capability ≠ destination.admitted.capability ∨
      destination.baseline ≠ prepared.destinationBaseline then
    throw .destinationExpired
  if (inner.jobs.lookup job.value.jobId).isSome then
    throw .internal
  return ({ job, plan, destinationRoot := prepared.destinationRoot }, { inner with
    plans := inner.plans.insert plan.immutable.value.summary.planId
      { retained with started := true }
    jobs := inner.jobs.insert job.value.jobId job })

def commitPreparedRestoreStart (inner : RestoreCoordinatorInner Capability)
    (selection : RestoreStartSelectionView) (prepared : PreparedRestoreStart Capability Root)
    (ptr : Nat) :
    Except DesktopRestoreError (CommittedRestoreStart Root × RestoreCoordinatorInner Capability) :=
  inner.commitPreparedRestoreStartFields selection.scanId selection.source
    selection.selectionRevision selection.matchesOrderedCandidateIds prepared ptr

/-- The locked block of `launch_restore` after a worker that was not scheduled. -/
def rollbackStart (inner : RestoreCoordinatorInner Capability)
    (committed : CommittedRestoreStart Root) : RestoreCoordinatorInner Capability :=
  let job := committed.job
  let plan := committed.plan.immutable.value
  if (inner.jobs.lookup job.value.jobId).any (·.ptr = job.ptr) then
    let plans := match inner.plans.lookup plan.summary.planId with
      | none => inner.plans
      | some retained =>
        if retained.immutable.value.engineJobId = plan.engineJobId then
          inner.plans.insert plan.summary.planId { retained with started := false }
        else inner.plans
    { inner with plans, jobs := inner.jobs.erase job.value.jobId }
  else inner

end RestoreCoordinatorInner

/-! ## Requests under way -/

/-- Where a request is, between two of its steps. -/
inductive RestoreRequest (Capability Root : Type) where
  | planning (scan : RestoreScanSnapshot) (destinationId : String)
      (collisionPolicy : CollisionPolicyDto) (partialFilePolicy : PartialPolicy)
      (capability : Capability) (baseline : DestinationRevalidation)
  | bound (planId scanId : String) (selectionRevision : Nat)
  | preflight (scanId : String) (selectionRevision : Nat) (plan : RetainedRestorePlan)
      (capability : Capability) (baseline : DestinationRevalidation)
  | prepared (scanId : String) (selectionRevision : Nat)
      (prepared : PreparedRestoreStart Capability Root)
  | committed (committed : CommittedRestoreStart Root)
  | unscheduled (committed : CommittedRestoreStart Root) (error : DesktopRestoreError)

inductive RestoreReply where
  | destination (result : Except DesktopRestoreError (Option DestinationSummaryDto))
  | plan (result : Except DesktopRestoreError RestorePlanSummaryDto)
  | job (result : Except DesktopRestoreError RestoreJobSnapshotDto)

def RestoreReply.isError : RestoreReply → Bool
  | .destination (.error _) | .plan (.error _) | .job (.error _) => true
  | _ => false

/-- What a run did that its state does not show. -/
inductive CoordinatorEvent (Capability : Type) where
  | revalidated (request : Nat) (capability : Capability)
      (answer : Except DesktopRestoreError DestinationRevalidation)
  | scheduled (request : Nat) (job : Arc RetainedRestoreJob)
  | replied (reply : RestoreReply)

/-- The worker of the job at `ptr` was scheduled. -/
def CoordinatorEvent.schedules {Capability : Type} (ptr : Nat) : CoordinatorEvent Capability → Bool
  | .scheduled _ job => job.ptr = ptr
  | _ => false

/-- The mutable part of a job, and its cancellation flag. -/
structure JobCell where
  cancelled : Bool := false
  state : RestoreJobMutable := {}

structure World (Capability Root : Type) where
  retained : RetainedScans
  inner : RestoreCoordinatorInner Capability := {}
  cells : Nat → JobCell := fun _ => {}
  allocated : Nat := 0
  requests : Nat → Option (RestoreRequest Capability Root) := fun _ => none
  accepted : Nat := 0
  trace : List (CoordinatorEvent Capability) := []

/-- One step: a new request with its arguments, the next step of the request with a given number
    with the answers it gets, or a change from outside. -/
inductive CoordinatorStep (Capability Root : Type) where
  | storeSession (session : ScanSession)
  | serve (scanId : String) (request : ResultsRequest)
  | admitDestination (scan : RestoreScanBinding)
      (admitted : Option (AdmittedDestination Capability))
      (revalidation : Except DesktopRestoreError DestinationRevalidation)
      (random : Option (Vector UInt8 16))
  | createRestorePlan (scan : RestoreScanSnapshot) (destinationId : String)
      (collisionPolicy : CollisionPolicyDto) (partialFilePolicy : PartialPolicy)
  | retainPlan (request : Nat) (revalidation : Except DesktopRestoreError DestinationRevalidation)
      (planRandom jobRandom : Option (Vector UInt8 16))
  | startRestore (planId : String)
  | preflight (request : Nat)
  | prepare (request : Nat) (revalidation : Except DesktopRestoreError DestinationRevalidation)
      (root : Except DesktopRestoreError Root)
  | commit (request : Nat)
  | launch (request : Nat) (spawned : Except DesktopRestoreError Unit)
  | rollback (request : Nat)
  | getRestoreJob (jobId : String)
  | cancelRestore (jobId : String)
  | work (ptr : Nat) (state : RestoreJobMutable)

namespace World

variable {Capability Root : Type} [DecidableEq Capability]

def reply (w : World Capability Root) (reply : RestoreReply) : World Capability Root :=
  { w with trace := w.trace ++ [.replied reply] }

/-- A new request, which waits at `request`. -/
def accept (w : World Capability Root) (request : RestoreRequest Capability Root) :
    World Capability Root :=
  { w with
    requests := fun r => if r = w.accepted then some request else w.requests r
    accepted := w.accepted + 1 }

/-- The request `r` waits at `request`, or is done. -/
def move (w : World Capability Root) (r : Nat) (request : Option (RestoreRequest Capability Root)) :
    World Capability Root :=
  { w with requests := fun r' => if r' = r then request else w.requests r' }

/-- The request `r` is done with the error `error`. -/
def refuse (w : World Capability Root) (r : Nat) (error : DesktopRestoreError) :
    World Capability Root :=
  (w.move r none).reply (.job (.error error))

/-- A capability answered `revalidate` for the request `r`. -/
def revalidated (w : World Capability Root) (r : Nat) (capability : Capability)
    (answer : Except DesktopRestoreError DestinationRevalidation) : World Capability Root :=
  { w with trace := w.trace ++ [.revalidated r capability answer] }

/-- The worker of a job was scheduled for the request `r`. -/
def scheduled (w : World Capability Root) (r : Nat) (job : Arc RetainedRestoreJob) :
    World Capability Root :=
  { w with trace := w.trace ++ [.scheduled r job] }

def retainPlan (env : CoordinatorEnv) (w : World Capability Root) (r : Nat)
    (revalidation : Except DesktopRestoreError DestinationRevalidation)
    (planRandom jobRandom : Option (Vector UInt8 16)) : World Capability Root :=
  match w.requests r with
  | some (.planning scan destinationId collisionPolicy partialFilePolicy capability baseline) =>
    let w := { w with allocated := w.allocated + 1 }.move r none
    match RestoreCoordinatorInner.buildPlan env scan destinationId collisionPolicy partialFilePolicy
        baseline revalidation planRandom jobRandom with
    | .error error => w.reply (.plan (.error error))
    | .ok plan =>
      match w.inner.retainPlan scan destinationId capability baseline ⟨w.allocated, plan⟩ with
      | .error error => w.reply (.plan (.error error))
      | .ok (summary, inner) => { w with inner }.reply (.plan (.ok summary))
  | _ => w

def preflight (w : World Capability Root) (r : Nat) : World Capability Root :=
  match w.requests r with
  | some (.bound planId scanId selectionRevision) =>
    match w.inner.startAuthority planId with
    | .error error => w.refuse r error
    | .ok (plan, capability, baseline) =>
      w.move r (some (.preflight scanId selectionRevision plan capability baseline))
  | _ => w

def prepare (w : World Capability Root) (r : Nat)
    (revalidation : Except DesktopRestoreError DestinationRevalidation)
    (root : Except DesktopRestoreError Root) : World Capability Root :=
  match w.requests r with
  | some (.preflight scanId selectionRevision plan capability baseline) =>
    let w := w.revalidated r capability revalidation
    match RestoreCoordinatorInner.prepareRestoreStart plan capability baseline revalidation
        root with
    | .error error => w.refuse r error
    | .ok prepared => w.move r (some (.prepared scanId selectionRevision prepared))
  | _ => w

/-- The linearization point of a start, with the selection locked. -/
def commit (w : World Capability Root) (r : Nat) : World Capability Root :=
  match w.requests r with
  | some (.prepared scanId selectionRevision prepared) =>
    match w.retained.withRestoreStartSelection scanId selectionRevision fun selection =>
        w.inner.commitPreparedRestoreStart selection prepared w.allocated with
    | .error error => w.refuse r (.ofStorage error)
    | .ok (.error error) => w.refuse r error
    | .ok (.ok (committed, inner)) =>
      { w with
        inner
        cells := fun ptr => if ptr = w.allocated then {} else w.cells ptr
        allocated := w.allocated + 1 }.move r (some (.committed committed))
  | _ => w

/-- `launch_restore` up to its locked block. -/
def launch (w : World Capability Root) (r : Nat) (spawned : Except DesktopRestoreError Unit) :
    World Capability Root :=
  match w.requests r with
  | some (.committed committed) =>
    let cell := w.cells committed.job.ptr
    match committed.job.value.snapshotFrom cell.state with
    | .error error => w.refuse r error
    | .ok immediate =>
      match spawned with
      | .ok () =>
        ((w.scheduled r committed.job).move r none).reply (.job (.ok immediate))
      | .error error =>
        { w with cells := fun ptr =>
            if ptr = committed.job.ptr then { cell with state := cell.state.notScheduled }
            else w.cells ptr }.move r (some (.unscheduled committed error))
  | _ => w

def rollback (w : World Capability Root) (r : Nat) : World Capability Root :=
  match w.requests r with
  | some (.unscheduled committed error) =>
    { w with inner := w.inner.rollbackStart committed }.refuse r error
  | _ => w

/-- `cancel_restore` -/
def cancelRestore (w : World Capability Root) (jobId : String) : World Capability Root :=
  match w.inner.jobs.lookup jobId with
  | none => w.reply (.job (.error .jobNotFound))
  | some job =>
    let state := (w.cells job.ptr).state.cancel
    { w with cells := fun ptr => if ptr = job.ptr then ⟨true, state⟩ else w.cells ptr }.reply
      (.job (job.value.snapshotFrom state))

def getRestoreJob (w : World Capability Root) (jobId : String) : World Capability Root :=
  match w.inner.jobs.lookup jobId with
  | none => w.reply (.job (.error .jobNotFound))
  | some job => w.reply (.job (job.value.snapshotFrom (w.cells job.ptr).state))

/-- A worker that was scheduled changes the state of its job. -/
def work (w : World Capability Root) (ptr : Nat) (state : RestoreJobMutable) :
    World Capability Root :=
  if w.trace.any (·.schedules ptr) then
    { w with cells := fun p => if p = ptr then { w.cells ptr with state } else w.cells p }
  else w

/-- One step of the world. -/
def step (env : CoordinatorEnv) (results : ResultsEnv) (w : World Capability Root) :
    CoordinatorStep Capability Root → World Capability Root
  | .storeSession session => { w with retained := w.retained.storeSession session }
  | .serve scanId request => { w with retained := w.retained.serve results scanId request }
  | .admitDestination scan admitted revalidation random =>
    match w.inner.admitDestination env scan admitted revalidation random with
    | .error error => w.reply (.destination (.error error))
    | .ok (summary, inner) => { w with inner }.reply (.destination (.ok summary))
  | .createRestorePlan scan destinationId collisionPolicy partialFilePolicy =>
    match w.inner.planAuthority scan destinationId with
    | .error error => w.reply (.plan (.error error))
    | .ok (capability, baseline) =>
      w.accept (.planning scan destinationId collisionPolicy partialFilePolicy capability baseline)
  | .retainPlan r revalidation planRandom jobRandom =>
    w.retainPlan env r revalidation planRandom jobRandom
  | .startRestore planId =>
    match w.inner.planBinding planId with
    | .error error => w.reply (.job (.error error))
    | .ok (scanId, selectionRevision) => w.accept (.bound planId scanId selectionRevision)
  | .preflight r => w.preflight r
  | .prepare r revalidation root => w.prepare r revalidation root
  | .commit r => w.commit r
  | .launch r spawned => w.launch r spawned
  | .rollback r => w.rollback r
  | .getRestoreJob jobId => w.getRestoreJob jobId
  | .cancelRestore jobId => w.cancelRestore jobId
  | .work ptr state => w.work ptr state

/-- The world after a sequence of steps. -/
def run (env : CoordinatorEnv) (results : ResultsEnv) (w : World Capability Root)
    (steps : List (CoordinatorStep Capability Root)) : World Capability Root :=
  steps.foldl (step env results) w

end World

end Undelete.Desktop
