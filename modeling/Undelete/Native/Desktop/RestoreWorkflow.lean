import Undelete.Native.Desktop.Coordinator
import Undelete.Native.Desktop.RestoreJob
import Undelete.Native.Desktop.ResultsWorkspace

/-!
# The restore workflow of the window

Model of the hook `useRestoreWorkflow` in `apps/desktop/src/state/restoreWorkflow.ts`. Every
state is committed to `stateRef` at once, so `state` is both. A native command is one step up to
its `await` and one step behind it; the end of a queued operation starts the next one in the
same step. The request ids only tell the commands apart and are left out.

`starts` records the plans that were started; no operation reads it.
-/

namespace Undelete.Desktop

def maxConsecutiveInternalPollFailures : Nat := 3

inductive RestoreErrorCode where
  | reportIncompatible
  | restoreDestinationInvalid
  | restoreDestinationLimit
  | restoreDestinationExpired
  | restoreDifferentDiskRequired
  | restoreSourceChanged
  | restoreSelectionStale
  | restoreSelectionEmpty
  | restoreItemIneligible
  | restorePartialPolicyRequired
  | restorePlanInvalid
  | restorePlanLimit
  | restorePlanExpired
  | restoreJobLimit
  | restoreJobNotFound
  | restoreJobNotComplete
  | restoreInternal
deriving DecidableEq, Repr

def destinationErrorCodes : List RestoreErrorCode :=
  [.restoreDestinationInvalid, .restoreDestinationLimit, .restoreDestinationExpired,
    .restoreDifferentDiskRequired]

inductive RestoreWorkflowPhase where
  | idle
  | selectingDestination
  | setup
  | planning
  | review
  | starting
  | active
  | trackingLost
  | finished
  | error
deriving DecidableEq, Repr

inductive RestoreOperationPhase where
  | idle
  | polling
  | cancelRequest
  | opening
deriving DecidableEq, Repr

structure RestoreWorkflowState where
  phase : RestoreWorkflowPhase
  scanId : Option String
  selectionRevision : Option String
  destination : Option DestinationSummaryDto
  collisionPolicy : CollisionPolicyDto
  partialFilePolicy : Restore.PartialPolicy
  bestEffortConsent : Bool
  plan : Option RestorePlanSummaryDto
  job : Option RestoreJobSnapshotDto
  operationPhase : RestoreOperationPhase
  progressBasisPoints : Nat
  cancelRequested : Bool
  error : Option RestoreErrorCode
deriving DecidableEq, Repr

/-- `PollOperation` and `CancelOperation`. -/
structure JobOperation where
  generation : Nat
  intent : Nat
  jobId : String
  planId : String
deriving DecidableEq, Repr

structure OpenOperation where
  generation : Nat
  intent : Nat
  jobId : String
deriving DecidableEq, Repr

inductive RestoreOperation where
  | poll (operation : JobOperation)
  | cancel (operation : JobOperation)
  | openJob (operation : OpenOperation)
deriving DecidableEq, Repr

inductive RestoreOperationKind where
  | poll
  | cancel
  | openJob
deriving DecidableEq, Repr

namespace RestoreOperation

def kind : RestoreOperation → RestoreOperationKind
  | poll _ => .poll
  | cancel _ => .cancel
  | openJob _ => .openJob

def generation : RestoreOperation → Nat
  | poll operation => operation.generation
  | cancel operation => operation.generation
  | openJob operation => operation.generation

def intent : RestoreOperation → Nat
  | poll operation => operation.intent
  | cancel operation => operation.intent
  | openJob operation => operation.intent

end RestoreOperation

/-- `chooseDestination`, waiting for `selectRestoreDestination`. -/
structure DestinationCall where
  generation : Nat
  selectedScanId : String
deriving DecidableEq, Repr

/-- `createPlanCommand`, waiting for `createRestorePlan`. -/
structure PlanCall where
  generation : Nat
  selectedScanId : String
  selectionRevision : String
  destinationId : String
  collisionPolicy : CollisionPolicyDto
  partialFilePolicy : Restore.PartialPolicy
deriving DecidableEq, Repr

/-- `start`, waiting for `startRestore`. -/
structure StartCall where
  generation : Nat
  planId : String
deriving DecidableEq, Repr

structure RestoreWorkflow where
  state : RestoreWorkflowState
  selection : Option CandidateSelectionSummaryDto
  mounted : Bool := false
  generation : Nat := 0
  operationIntent : Nat := 0
  operations : List RestoreOperation := []
  operationRunning : Bool := false
  activeOperation : Option RestoreOperationKind := none
  /-- The poll that the timer queues. -/
  pollTimer : Option JobOperation := none
  pollQueued : Bool := false
  destinationInFlight : Bool := false
  planInFlight : Bool := false
  startInFlight : Bool := false
  cancelPending : Bool := false
  openPending : Bool := false
  consecutiveInternalPollFailures : Nat := 0
  operationCalls : List RestoreOperation := []
  destinationCalls : List DestinationCall := []
  planCalls : List PlanCall := []
  startCalls : List StartCall := []
  /-- The plans that were started. -/
  starts : List RestorePlanSummaryDto := []
deriving DecidableEq, Repr

/-! ## Values -/

def initialRestoreState (scanId selectionRevision : Option String) : RestoreWorkflowState where
  phase := .idle
  scanId
  selectionRevision
  destination := none
  collisionPolicy := .rename
  partialFilePolicy := .completeOnly
  bestEffortConsent := false
  plan := none
  job := none
  operationPhase := .idle
  progressBasisPoints := 0
  cancelRequested := false
  error := none

def isTerminal (snapshot : RestoreJobSnapshotDto) : Bool := snapshot.status.isTerminal

def restoreProgressBasisPoints (snapshot : RestoreJobSnapshotDto) : Nat :=
  let bytesTotal := bigInt snapshot.bytesTotal
  if bytesTotal > 0 then min (bigInt snapshot.bytesCompleted * 10000 / bytesTotal) 10000
  else
    let itemsTotal := bigInt snapshot.itemsTotal
    if itemsTotal = 0 then 0
    else
      let completed := bigInt snapshot.itemsCompleted + bigInt snapshot.itemsFailed +
        bigInt snapshot.itemsCancelled
      min (completed * 10000 / itemsTotal) 10000

def hasSelectedCandidates (selection : CandidateSelectionSummaryDto) : Bool :=
  bigInt selection.selectedCandidates > 0

namespace RestoreWorkflow

def initial (scanId : Option String) (selection : Option CandidateSelectionSummaryDto) :
    RestoreWorkflow where
  state := initialRestoreState scanId (selection.map (·.selectionRevision))
  selection

def commitState (h : RestoreWorkflow) (next : RestoreWorkflowState) : RestoreWorkflow :=
  { h with state := next }

def clearPollTimer (h : RestoreWorkflow) : RestoreWorkflow := { h with pollTimer := none }

/-- The revision of the selection that the component was rendered with. -/
def currentRevision (h : RestoreWorkflow) : Option String :=
  h.selection.map fun selection => selection.selectionRevision

/-! ## The queue -/

def operationIsCurrent (h : RestoreWorkflow) (operation : RestoreOperation) : Bool :=
  h.mounted && operation.generation = h.generation && operation.intent = h.operationIntent

/-- Shifts operations until one waits for a native command. -/
def pumpFrom : List RestoreOperation → RestoreWorkflow → RestoreWorkflow
  | [], h => { h with operations := [] }
  | operation :: operations, h =>
    if operation.kind = .poll && !h.operationIsCurrent operation then
      pumpFrom operations { h with pollQueued := false }
    else
      { h with
        operations
        operationRunning := true
        activeOperation := some operation.kind
        operationCalls := operation :: h.operationCalls
        state :=
          if operation.kind = .poll then { h.state with operationPhase := .polling } else h.state }

def pumpOperations (h : RestoreWorkflow) : RestoreWorkflow :=
  if !h.mounted || h.operationRunning then h else pumpFrom h.operations h

/-- The `finally` of an operation. -/
def finishOperation (operation : RestoreOperation) (h : RestoreWorkflow) : RestoreWorkflow :=
  pumpOperations { h with
    pollQueued := if operation.kind = .poll then false else h.pollQueued
    operationRunning := false
    activeOperation := none }

def enqueueOperation (operation : RestoreOperation) (h : RestoreWorkflow) : RestoreWorkflow :=
  let push (h : RestoreWorkflow) : RestoreWorkflow :=
    { h with operations := h.operations ++ [operation] }.pumpOperations
  match operation.kind with
  | .poll =>
    if h.pollQueued || h.activeOperation = some .poll then h
    else push { h with pollQueued := true }
  | .cancel =>
    let retained := h.operations.filter (·.kind ≠ .poll)
    push { h with
      operations := retained
      pollQueued := if retained.length ≠ h.operations.length then false else h.pollQueued }
  | .openJob => push h

def schedulePoll (h : RestoreWorkflow) : RestoreWorkflow :=
  let h := h.clearPollTimer
  match h.state.job with
  | none => h
  | some job =>
    if !h.mounted || h.state.phase ≠ .active || isTerminal job || h.cancelPending then h
    else
      { h with pollTimer := some ⟨h.generation, h.operationIntent, job.jobId, job.planId⟩ }

/-- The timer of `schedulePoll` fires. -/
def pollTimerFired (timer : JobOperation) (h : RestoreWorkflow) : RestoreWorkflow :=
  let h := h.clearPollTimer
  if !h.operationIsCurrent (.poll timer) || h.state.phase ≠ .active ||
      h.state.job.map (·.jobId) ≠ some timer.jobId then h
  else h.enqueueOperation (.poll timer)

def failWorkflow (code : RestoreErrorCode) (h : RestoreWorkflow) : RestoreWorkflow :=
  { h.clearPollTimer with consecutiveInternalPollFailures := 0 }.commitState
    { h.state with phase := .error, operationPhase := .idle, error := some code }

def loseJobTracking (code : RestoreErrorCode) (h : RestoreWorkflow) : RestoreWorkflow :=
  { h.clearPollTimer with cancelPending := false }.commitState
    { h.state with phase := .trackingLost, operationPhase := .idle, error := some code }

def failJobOperation (code : RestoreErrorCode) (operationKind : RestoreOperationKind)
    (h : RestoreWorkflow) : RestoreWorkflow :=
  if h.state.job.any (!isTerminal ·) then
    if code ≠ .restoreInternal then h.loseJobTracking code
    else
      let failures := h.consecutiveInternalPollFailures + if operationKind = .poll then 1 else 0
      let current := { h with consecutiveInternalPollFailures := failures }
      if operationKind = .poll && failures ≥ maxConsecutiveInternalPollFailures then
        current.loseJobTracking code
      else
        (current.commitState { h.state with
          phase := .active, operationPhase := .idle, error := some code }).schedulePoll
  else h.failWorkflow code

/-- `applyNativeJob`; nothing when it throws. -/
def applyNativeJob (snapshot : RestoreJobSnapshotDto) (expectedJobId : Option String)
    (expectedPlanId : String) (cancelConfirmed : Bool) (h : RestoreWorkflow) :
    Option RestoreWorkflow :=
  if (expectedJobId ≠ none && some snapshot.jobId ≠ expectedJobId) ||
      snapshot.planId ≠ expectedPlanId then none
  else
    let h := { h with consecutiveInternalPollFailures := 0 }.commitState { h.state with
      phase := if isTerminal snapshot then .finished else .active
      job := some snapshot
      operationPhase := .idle
      progressBasisPoints := restoreProgressBasisPoints snapshot
      cancelRequested := h.state.cancelRequested || cancelConfirmed
      error := none }
    some (if isTerminal snapshot then h.clearPollTimer else h.schedulePoll)

/-! ## Operations -/

/-- The part of `runPoll` behind its `await`. -/
def pollSettled (operation : JobOperation) (answer : Except RestoreErrorCode RestoreJobSnapshotDto)
    (h : RestoreWorkflow) : RestoreWorkflow :=
  if !h.operationIsCurrent (.poll operation) then h
  else
    match answer with
    | .error code => h.failJobOperation code .poll
    | .ok snapshot =>
      (h.applyNativeJob snapshot (some operation.jobId) operation.planId false).getD
        (h.failJobOperation .reportIncompatible .poll)

def pollAnswered (operation : JobOperation) (answer : Except RestoreErrorCode RestoreJobSnapshotDto)
    (h : RestoreWorkflow) : RestoreWorkflow :=
  ({ h with operationCalls := h.operationCalls.erase (.poll operation) }.pollSettled operation
    answer).finishOperation (.poll operation)

/-- The `try` and the `catch` of `runCancel` behind the `await`. -/
def cancelApplied (operation : JobOperation)
    (answer : Except RestoreErrorCode RestoreJobSnapshotDto) (h : RestoreWorkflow) :
    RestoreWorkflow :=
  if !h.operationIsCurrent (.cancel operation) then h
  else
    let h := { h with cancelPending := false }
    match answer with
    | .error code => h.failJobOperation code .cancel
    | .ok snapshot =>
      (h.applyNativeJob snapshot (some operation.jobId) operation.planId true).getD
        (h.failJobOperation .reportIncompatible .cancel)

/-- The part of `runCancel` behind its `await`. -/
def cancelSettled (operation : JobOperation)
    (answer : Except RestoreErrorCode RestoreJobSnapshotDto) (h : RestoreWorkflow) :
    RestoreWorkflow :=
  let h := { h.cancelApplied operation answer with cancelPending := false }
  if h.operationIsCurrent (.cancel operation) && h.state.phase = .active &&
      h.state.job.any (!isTerminal ·) then h.schedulePoll
  else h

def cancelAnswered (operation : JobOperation)
    (answer : Except RestoreErrorCode RestoreJobSnapshotDto) (h : RestoreWorkflow) :
    RestoreWorkflow :=
  ({ h with operationCalls := h.operationCalls.erase (.cancel operation) }.cancelSettled operation
    answer).finishOperation (.cancel operation)

/-- The part of `runOpen` behind its `await`. -/
def openSettled (operation : OpenOperation) (answer : Except RestoreErrorCode Unit)
    (h : RestoreWorkflow) : RestoreWorkflow :=
  let opened := { h with openPending := false }
  if !h.operationIsCurrent (.openJob operation) then opened
  else
    match answer with
    | .ok _ => opened.commitState { h.state with operationPhase := .idle, error := none }
    | .error code =>
      opened.commitState { h.state with
        phase := if h.state.job.any (·.status = .completed) then .finished else h.state.phase
        operationPhase := .idle
        error := some code }

def openAnswered (operation : OpenOperation) (answer : Except RestoreErrorCode Unit)
    (h : RestoreWorkflow) : RestoreWorkflow :=
  ({ h with operationCalls := h.operationCalls.erase (.openJob operation) }.openSettled operation
    answer).finishOperation (.openJob operation)

/-! ## Effects -/

def clearOperations (h : RestoreWorkflow) : RestoreWorkflow :=
  { h.clearPollTimer with
    operations := []
    pollQueued := false
    cancelPending := false
    openPending := false
    consecutiveInternalPollFailures := 0 }

/-- The effect that depends on `runtimeAvailable` and `scanId`. -/
def scanChanged (scanId : Option String) (h : RestoreWorkflow) : RestoreWorkflow :=
  { h with
    generation := h.generation + 1
    operationIntent := h.operationIntent + 1
    destinationInFlight := false
    planInFlight := false
    startInFlight := false }.clearOperations.commitState
    (initialRestoreState scanId (h.currentRevision))

/-- The effect that depends on the revision of the selection. -/
def selectionChanged (h : RestoreWorkflow) : RestoreWorkflow :=
  let revision := h.currentRevision
  if h.state.selectionRevision = revision then h
  else if h.state.phase = .setup || h.state.phase = .planning || h.state.phase = .review then
    h.commitState { h.state with
      phase := if h.state.destination = none then .idle else .setup
      selectionRevision := revision
      partialFilePolicy := .completeOnly
      bestEffortConsent := false
      plan := none
      job := none
      progressBasisPoints := 0
      error := none }
  else h.commitState { h.state with selectionRevision := revision }

/-- The component is rendered with another scan or another selection. -/
def rendered (scanId : Option String) (selection : Option CandidateSelectionSummaryDto)
    (h : RestoreWorkflow) : RestoreWorkflow :=
  let h := { h with selection }
  (if h.state.scanId ≠ scanId then h.scanChanged scanId else h).selectionChanged

/-- The effects that run when the component is mounted. -/
def mount (h : RestoreWorkflow) : RestoreWorkflow :=
  ({ h with mounted := true }.scanChanged h.state.scanId).selectionChanged

/-- The clean-up of the first one. -/
def unmount (h : RestoreWorkflow) : RestoreWorkflow :=
  { h with
    mounted := false
    generation := h.generation + 1
    operationIntent := h.operationIntent + 1 }.clearOperations

/-! ## The destination -/

/-- Whether `chooseDestination` takes the command in this phase. -/
def acceptsDestination (current : RestoreWorkflowState) : Bool :=
  current.phase = .idle || current.phase = .setup ||
    (current.phase = .error && current.error.any destinationErrorCodes.contains)

def chooseDestination (runtimeAvailable : Bool) (h : RestoreWorkflow) : RestoreWorkflow :=
  match h.state.scanId with
  | none => h
  | some selectedScanId =>
    if !runtimeAvailable || !h.selection.any hasSelectedCandidates || h.destinationInFlight ||
        !acceptsDestination h.state then h
    else
      { h with
        destinationInFlight := true
        destinationCalls := ⟨h.generation, selectedScanId⟩ :: h.destinationCalls }.commitState
        { h.state with
          phase := .selectingDestination
          destination := none
          partialFilePolicy := .completeOnly
          bestEffortConsent := false
          plan := none
          job := none
          progressBasisPoints := 0
          cancelRequested := false
          error := none }

def destinationIsCurrent (h : RestoreWorkflow) (call : DestinationCall) : Bool :=
  h.mounted && call.generation = h.generation && h.state.scanId = some call.selectedScanId

def destinationAnswered (call : DestinationCall)
    (answer : Except RestoreErrorCode (Option DestinationSummaryDto)) (h : RestoreWorkflow) :
    RestoreWorkflow :=
  let h := { h with
    destinationCalls := h.destinationCalls.erase call, destinationInFlight := false }
  if !h.destinationIsCurrent call then h
  else
    match answer with
    | .error code => h.failWorkflow code
    | .ok none =>
      h.commitState (initialRestoreState (some call.selectedScanId)
        (h.currentRevision))
    | .ok (some destination) =>
      h.commitState { h.state with
        phase := .setup
        selectionRevision := h.currentRevision
        destination := some destination
        error := none }

def setPartialFilePolicy (policy : Restore.PartialPolicy) (h : RestoreWorkflow) :
    RestoreWorkflow :=
  if h.state.destination = none || (h.state.phase ≠ .setup && h.state.phase ≠ .error) then h
  else
    h.commitState { h.state with
      phase := .setup
      partialFilePolicy := policy
      bestEffortConsent := if policy = .zeroFillAndMap then h.state.bestEffortConsent else false
      plan := none
      error := none }

def setBestEffortConsent (consent : Bool) (h : RestoreWorkflow) : RestoreWorkflow :=
  if h.state.destination = none || h.state.partialFilePolicy ≠ .zeroFillAndMap ||
      (h.state.phase ≠ .setup && h.state.phase ≠ .error) then h
  else
    h.commitState { h.state with
      phase := .setup, bestEffortConsent := consent, plan := none, error := none }

/-! ## The plan -/

/-- What `createPlanCommand` and `start` refuse on display. -/
def refuse (code : RestoreErrorCode) (h : RestoreWorkflow) : RestoreWorkflow :=
  h.commitState { h.state with phase := .error, error := some code }

def createPlan (h : RestoreWorkflow) : RestoreWorkflow :=
  match h.state.scanId, h.state.destination, h.selection with
  | some selectedScanId, some destination, some selection =>
    if h.state.phase ≠ .setup || !hasSelectedCandidates selection || h.planInFlight then h
    else if bigInt selection.ineligibleCandidates > 0 then h.refuse .restoreItemIneligible
    else if bigInt selection.bestEffortCandidates > 0 &&
        (h.state.partialFilePolicy ≠ .zeroFillAndMap || !h.state.bestEffortConsent) then
      h.refuse .restorePartialPolicyRequired
    else if h.state.selectionRevision ≠ some selection.selectionRevision then
      h.refuse .restoreSelectionStale
    else
      { h with
        planInFlight := true
        planCalls := ⟨h.generation, selectedScanId, selection.selectionRevision,
          destination.destinationId, h.state.collisionPolicy, h.state.partialFilePolicy⟩ ::
            h.planCalls }.commitState
        { h.state with phase := .planning, plan := none, error := none }
  | _, _, _ => h

def planIsCurrent (h : RestoreWorkflow) (call : PlanCall) : Bool :=
  h.mounted && call.generation = h.generation && h.state.scanId = some call.selectedScanId &&
    h.currentRevision = some call.selectionRevision

/-- Whether the plan is another one than was asked for. -/
def planRefused (call : PlanCall) (plan : RestorePlanSummaryDto) : Bool :=
  plan.scanId ≠ call.selectedScanId || plan.selectionRevision ≠ call.selectionRevision ||
    plan.destinationId ≠ call.destinationId || plan.collisionPolicy ≠ call.collisionPolicy ||
    plan.partialFilePolicy ≠ call.partialFilePolicy

def planAnswered (call : PlanCall) (answer : Except RestoreErrorCode RestorePlanSummaryDto)
    (h : RestoreWorkflow) : RestoreWorkflow :=
  let h := { h with planCalls := h.planCalls.erase call, planInFlight := false }
  if !h.planIsCurrent call then h
  else
    match answer with
    | .error code => h.failWorkflow code
    | .ok plan =>
      if planRefused call plan then h.failWorkflow .reportIncompatible
      else h.commitState { h.state with phase := .review, plan := some plan, error := none }

/-! ## The job -/

def start (h : RestoreWorkflow) : RestoreWorkflow :=
  if h.state.phase ≠ .review || h.startInFlight then h
  else
    match h.state.plan with
    | none => h.failWorkflow .reportIncompatible
    | some plan =>
      if h.currentRevision ≠ some plan.selectionRevision then
        h.commitState { h.state with
          phase := .error, plan := none, error := some .restoreSelectionStale }
      else
        { h with
          startInFlight := true
          startCalls := ⟨h.generation, plan.planId⟩ :: h.startCalls
          starts := plan :: h.starts }.commitState
          { h.state with phase := .starting, error := none }

def startIsCurrent (h : RestoreWorkflow) (call : StartCall) : Bool :=
  h.mounted && call.generation = h.generation

def startAnswered (call : StartCall) (answer : Except RestoreErrorCode RestoreJobSnapshotDto)
    (h : RestoreWorkflow) : RestoreWorkflow :=
  let h := { h with startCalls := h.startCalls.erase call, startInFlight := false }
  if !h.startIsCurrent call then h
  else
    match answer with
    | .error code => h.failWorkflow code
    | .ok snapshot =>
      (h.applyNativeJob snapshot none call.planId false).getD (h.failWorkflow .reportIncompatible)

def cancel (h : RestoreWorkflow) : RestoreWorkflow :=
  match h.state.job with
  | none => h
  | some job =>
    if h.state.phase ≠ .active || isTerminal job || h.cancelPending ||
        h.state.cancelRequested then h
    else
      let h := { h.clearPollTimer with
        cancelPending := true
        operationIntent := h.operationIntent + 1 }.commitState
        { h.state with operationPhase := .cancelRequest, error := none }
      h.enqueueOperation (.cancel ⟨h.generation, h.operationIntent, job.jobId, job.planId⟩)

def openDestination (h : RestoreWorkflow) : RestoreWorkflow :=
  match h.state.job with
  | none => h
  | some job =>
    if h.state.phase ≠ .finished || job.status ≠ .completed || h.openPending ||
        h.state.operationPhase ≠ .idle then h
    else
      let h := { h with
        openPending := true
        operationIntent := h.operationIntent + 1 }.commitState
        { h.state with operationPhase := .opening, error := none }
      h.enqueueOperation (.openJob ⟨h.generation, h.operationIntent, job.jobId⟩)

/-- Whether `close` does nothing in this phase. -/
def blocksClose (phase : RestoreWorkflowPhase) : Bool :=
  phase = .selectingDestination || phase = .planning || phase = .starting || phase = .active

def close (h : RestoreWorkflow) : RestoreWorkflow :=
  if blocksClose h.state.phase then h
  else
    { h with
      generation := h.generation + 1
      operationIntent := h.operationIntent + 1 }.clearOperations.commitState
      (initialRestoreState h.state.scanId (h.currentRevision))

/-! ## Steps -/

inductive Command where
  | chooseDestination
  | setPartialFilePolicy (policy : Restore.PartialPolicy)
  | setBestEffortConsent (consent : Bool)
  | createPlan
  | start
  | cancel
  | openDestination
  | close

def execute (runtimeAvailable : Bool) (h : RestoreWorkflow) : Command → RestoreWorkflow
  | .chooseDestination => h.chooseDestination runtimeAvailable
  | .setPartialFilePolicy policy => h.setPartialFilePolicy policy
  | .setBestEffortConsent consent => h.setBestEffortConsent consent
  | .createPlan => h.createPlan
  | .start => h.start
  | .cancel => h.cancel
  | .openDestination => h.openDestination
  | .close => h.close

inductive Event where
  | mount
  | unmount
  | render (scanId : Option String) (selection : Option CandidateSelectionSummaryDto)
  | command (command : Command)
  | pollTimer
  | destinationAnswer (call : DestinationCall)
      (answer : Except RestoreErrorCode (Option DestinationSummaryDto))
  | planAnswer (call : PlanCall) (answer : Except RestoreErrorCode RestorePlanSummaryDto)
  | startAnswer (call : StartCall) (answer : Except RestoreErrorCode RestoreJobSnapshotDto)
  | pollAnswer (operation : JobOperation) (answer : Except RestoreErrorCode RestoreJobSnapshotDto)
  | cancelAnswer (operation : JobOperation) (answer : Except RestoreErrorCode RestoreJobSnapshotDto)
  | openAnswer (operation : OpenOperation) (answer : Except RestoreErrorCode Unit)

/-- One event; a native command is answered once. -/
def next (runtimeAvailable : Bool) (h : RestoreWorkflow) : Event → Option RestoreWorkflow
  | .mount => if !h.mounted then some h.mount else none
  | .unmount => if h.mounted then some h.unmount else none
  | .render scanId selection => if h.mounted then some (h.rendered scanId selection) else none
  | .command command => if h.mounted then some (h.execute runtimeAvailable command) else none
  | .pollTimer => h.pollTimer.map h.pollTimerFired
  | .destinationAnswer call answer =>
    if call ∈ h.destinationCalls then some (h.destinationAnswered call answer) else none
  | .planAnswer call answer =>
    if call ∈ h.planCalls then some (h.planAnswered call answer) else none
  | .startAnswer call answer =>
    if call ∈ h.startCalls then some (h.startAnswered call answer) else none
  | .pollAnswer operation answer =>
    if .poll operation ∈ h.operationCalls then some (h.pollAnswered operation answer) else none
  | .cancelAnswer operation answer =>
    if .cancel operation ∈ h.operationCalls then some (h.cancelAnswered operation answer) else none
  | .openAnswer operation answer =>
    if .openJob operation ∈ h.operationCalls then some (h.openAnswered operation answer) else none

end RestoreWorkflow

end Undelete.Desktop
