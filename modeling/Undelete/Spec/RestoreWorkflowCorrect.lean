import Undelete.Native.Desktop.RestoreWorkflow
import Undelete.ForStd.Reach

/-!
# What the restore workflow keeps track of

While a job is active, a poll should be to come: from the timer, or from an operation that is
queued or running. The timer drops its poll when a poll is running, and relies on that poll to
arm it again. A poll of an earlier scan does not: when it is still running at the first poll of
the next job, that job is no longer tracked. A plan can also be accepted after its phase, when
the selection leaves its revision and returns to it. In runs without either, a job that is
active is tracked, and one that is over stays on display.

## Key results

- `Core`, `Inv`: the invariant, over the operations that are queued or running.
- `reachable_tracks`: what holds in careful runs, and what one more step changes.
- `stale_poll_drops_timer`: an active job without a timer and without an operation.
-/

namespace Undelete.Desktop.RestoreWorkflow

/-- What is queued or running. -/
def outstanding (h : RestoreWorkflow) : List RestoreOperation := h.operations ++ h.operationCalls

/-- A poll or a cancellation. -/
def TracksJob (operation : RestoreOperation) : Prop := operation.kind ≠ .openJob

/-- What holds in a state: an active job is tracked, and one operation runs. -/
structure Tracks (h : RestoreWorkflow) : Prop where
  tracked : h.mounted = true → h.state.phase = .active →
    (∀ job, h.state.job = some job → isTerminal job = false) →
    h.pollTimer ≠ none ∨ ∃ operation ∈ h.outstanding, TracksJob operation ∧
      operation.generation = h.generation
  single : h.operationCalls.length ≤ 1

/-- The job may leave the display. -/
def Closes (h : RestoreWorkflow) : Event → Prop
  | .mount => True
  | .render scanId _ => scanId ≠ h.state.scanId
  | .command .close => True
  | _ => False

/-- The answer of a destination, a plan or a start that belongs to an earlier generation, scan
    or selection. -/
def Outdated (h : RestoreWorkflow) : Event → Prop
  | .destinationAnswer call _ => h.destinationIsCurrent call = false
  | .planAnswer call _ => h.planIsCurrent call = false
  | .startAnswer call _ => h.startIsCurrent call = false
  | _ => False

/-- What a step changes. -/
structure StepTracks (h : RestoreWorkflow) (e : Event) (h' : RestoreWorkflow) : Prop where
  starts : h'.starts = h.starts ∨ ∃ plan, h'.starts = plan :: h.starts ∧
    h.state.plan = some plan ∧ h.currentRevision = some plan.selectionRevision
  finished : ¬Closes h e → ∀ job, h.state.job = some job → isTerminal job = true →
    h'.state.job = some job
  outdated : Outdated h e → h'.state = h.state

/-- An operation of an earlier generation or intent changes nothing on display when it is
    answered. This is about what the operation itself does behind its `await`: when it has ended,
    `finishOperation` starts the operation that waits, and shows it if it is a current poll. -/
structure OutdatedIgnored (h : RestoreWorkflow) : Prop where
  poll : ∀ operation answer, h.operationIsCurrent (.poll operation) = false →
    (h.pollSettled operation answer).state = h.state
  cancel : ∀ operation answer, h.operationIsCurrent (.cancel operation) = false →
    (h.cancelSettled operation answer).state = h.state
  openJob : ∀ operation answer, h.operationIsCurrent (.openJob operation) = false →
    (h.openSettled operation answer).state = h.state

/-- No poll of an earlier scan is running when the timer fires, and a plan is accepted or
    refused only while it is awaited. -/
def Careful (h : RestoreWorkflow) : Event → Prop
  | .pollTimer => h.activeOperation ≠ some .poll
  | .planAnswer call _ => h.planIsCurrent call = true → h.state.phase = .planning
  | _ => True

/-! ## The invariant -/

/-- The job that goes with the phase. -/
def PhaseOk (s : RestoreWorkflowState) : Prop :=
  match s.phase with
  | .active | .trackingLost => ∃ job, s.job = some job ∧ isTerminal job = false
  | .finished => ∃ job, s.job = some job ∧ isTerminal job = true
  | _ => s.job = none

/-- Before a job there is none on display. -/
def Preparing (phase : RestoreWorkflowPhase) : Prop :=
  phase ≠ .active ∧ phase ≠ .trackingLost ∧ phase ≠ .finished

instance preparingDecidable (phase : RestoreWorkflowPhase) : Decidable (Preparing phase) :=
  inferInstanceAs (Decidable (_ ∧ _ ∧ _))

theorem phaseOk_preparing {s : RestoreWorkflowState} (hphase : Preparing s.phase) :
    PhaseOk s ↔ s.job = none := by
  obtain ⟨hactive, hlost, hfinished⟩ := hphase
  unfold PhaseOk
  cases heq : s.phase with
  | active => exact absurd heq hactive
  | trackingLost => exact absurd heq hlost
  | finished => exact absurd heq hfinished
  | _ => exact Iff.rfl

theorem phaseOk_active {s : RestoreWorkflowState} (hphase : s.phase = .active) :
    PhaseOk s ↔ ∃ job, s.job = some job ∧ isTerminal job = false := by
  rw [PhaseOk, hphase]

theorem phaseOk_finished {s : RestoreWorkflowState} (hphase : s.phase = .finished) :
    PhaseOk s ↔ ∃ job, s.job = some job ∧ isTerminal job = true := by
  rw [PhaseOk, hphase]

/-- A terminal job is on display in one phase only. -/
theorem PhaseOk.finished {s : RestoreWorkflowState} (hphase : PhaseOk s)
    {job : RestoreJobSnapshotDto} (hjob : s.job = some job) (hterminal : isTerminal job = true) :
    s.phase = .finished := by
  unfold PhaseOk at hphase
  split at hphase
  · obtain ⟨other, hother, hfalse⟩ := hphase
    cases hjob.symm.trans hother
    cases hterminal.symm.trans hfalse
  · obtain ⟨other, hother, hfalse⟩ := hphase
    cases hjob.symm.trans hother
    cases hterminal.symm.trans hfalse
  · assumption
  · cases hjob.symm.trans hphase

/-- At most one call of the generation is out, and only in its own phase. -/
structure OneCall {α : Type} (generationOf : α → Nat) (own : RestoreWorkflowPhase)
    (generation : Nat) (phase : RestoreWorkflowPhase) (calls : List α) : Prop where
  le : ∀ call ∈ calls, generationOf call ≤ generation
  phase_eq : ∀ call ∈ calls, generationOf call = generation → phase = own
  one : calls.countP (generationOf · = generation) ≤ 1

structure CallsOk (generation : Nat) (phase : RestoreWorkflowPhase)
    (destinationCalls : List DestinationCall) (startCalls : List StartCall) : Prop where
  destination : OneCall DestinationCall.generation .selectingDestination generation phase
    destinationCalls
  start : OneCall StartCall.generation .starting generation phase startCalls

/-- The invariant, over the operations that are queued or running. -/
structure Core (h : RestoreWorkflow) (operations : List RestoreOperation) : Prop where
  phase : PhaseOk h.state
  calls : CallsOk h.generation h.state.phase h.destinationCalls h.startCalls
  le : ∀ operation ∈ operations,
    operation.generation ≤ h.generation ∧ operation.intent ≤ h.operationIntent
  job : ∀ operation ∈ operations, h.operationIsCurrent operation = true → TracksJob operation →
    h.state.phase = .active
  openJob : ∀ operation ∈ operations, h.operationIsCurrent operation = true →
    ¬TracksJob operation → h.state.phase = .finished
  timer : ∀ timer, h.pollTimer = some timer → h.operationIsCurrent (.poll timer) = true ∧
    h.state.phase = .active ∧ h.state.job.map (·.jobId) = some timer.jobId ∧
    ∀ operation ∈ operations, h.operationIsCurrent operation = false
  cancelPending : h.cancelPending = true → ∃ operation ∈ operations,
    h.operationIsCurrent operation = true ∧ operation.kind = .cancel
  tracked : h.mounted = true → h.state.phase = .active → h.pollTimer ≠ none ∨
    ∃ operation ∈ operations, h.operationIsCurrent operation = true

/-- The one operation that may wait. -/
structure Waits (h : RestoreWorkflow) (operation : RestoreOperation) : Prop where
  operations_eq : h.operations = [operation]
  current : h.operationIsCurrent operation = true
  cancel : operation.kind = .cancel → h.cancelPending = true
  openJob : operation.kind = .openJob → h.openPending = true
  /-- The one that runs is out of date. -/
  exclusive : ∀ running ∈ h.operationCalls, h.operationIsCurrent running = false

structure Runs (h : RestoreWorkflow) (operation : RestoreOperation) : Prop where
  running : h.operationRunning = true
  calls_eq : h.operationCalls = [operation]
  active_eq : h.activeOperation = some operation.kind

structure Rests (h : RestoreWorkflow) : Prop where
  running : h.operationRunning = false
  calls_eq : h.operationCalls = []
  active_eq : h.activeOperation = none

structure Inv (h : RestoreWorkflow) : Prop where
  core : Core h h.outstanding
  queue : h.operations = [] ∨ ∃ operation, Waits h operation
  pollQueued : h.pollQueued = true → ∃ operation ∈ h.outstanding, operation.kind = .poll
  single : (Rests h ∧ h.operations = []) ∨ ∃ operation, Runs h operation

variable {h h' : RestoreWorkflow}

theorem operationIsCurrent_iff {operation : RestoreOperation} :
    h.operationIsCurrent operation = true ↔ h.mounted = true ∧
      operation.generation = h.generation ∧ operation.intent = h.operationIntent := by
  simp only [operationIsCurrent, Bool.and_eq_true, decide_eq_true_eq, and_assoc]

theorem Inv.tracks (hi : Inv h) : Tracks h := by
  refine ⟨fun hmounted hphase _ => ?_, ?_⟩
  · refine (hi.core.tracked hmounted hphase).imp_right ?_
    rintro ⟨operation, hmem, hcurrent⟩
    refine ⟨operation, hmem, fun hkind => ?_, (operationIsCurrent_iff.mp hcurrent).2.1⟩
    have := hi.core.openJob operation hmem hcurrent fun htracks => htracks hkind
    cases hphase.symm.trans this
  · obtain ⟨hrests, _⟩ | ⟨operation, hruns⟩ := hi.single
    · simp [hrests.calls_eq]
    · simp [hruns.calls_eq]

theorem oneCall_nil {α : Type} {generationOf : α → Nat} {own phase : RestoreWorkflowPhase}
    {generation : Nat} : OneCall generationOf own generation phase [] := by
  constructor
  · intro call hcall
    cases hcall
  · intro call hcall
    cases hcall
  · exact Nat.zero_le 1

theorem inv_initial (scanId : Option String) (selection : Option CandidateSelectionSummaryDto) :
    Inv (initial scanId selection) where
  core :=
    { phase := rfl
      calls := ⟨oneCall_nil, oneCall_nil⟩
      le := by
        intro operation hmem
        cases hmem
      job := by
        intro operation hmem
        cases hmem
      openJob := by
        intro operation hmem
        cases hmem
      timer := by
        intro timer htimer
        cases htimer
      cancelPending := by
        intro hpending
        cases hpending
      tracked := by
        intro hmounted
        cases hmounted }
  queue := .inl rfl
  pollQueued := by
    intro hqueued
    cases hqueued
  single := .inl ⟨⟨rfl, rfl, rfl⟩, rfl⟩

/-! ## The queue -/

/-- The operation that waits is started when none runs. -/
theorem inv_pump (hcore : Core h h.outstanding)
    (hqueue : h.operations = [] ∨ ∃ operation, h.operations = [operation] ∧
      h.operationIsCurrent operation = true)
    (hpoll : h.pollQueued = true → ∃ operation ∈ h.outstanding, operation.kind = .poll)
    (hrests : Rests h) :
    Inv h.pumpOperations ∧ h.pumpOperations.starts = h.starts ∧
      h.pumpOperations.state =
        { h.state with operationPhase := h.pumpOperations.state.operationPhase } := by
  obtain ⟨hrunning, hcalls, hactive⟩ := hrests
  unfold pumpOperations
  rw [hrunning, Bool.or_false]
  -- an empty queue leaves the state as it is; otherwise its one operation is current and is issued
  obtain hnil | ⟨operation, hone, hcurrent⟩ := hqueue
  · split
    · exact ⟨⟨hcore, .inl hnil, hpoll, .inl ⟨⟨hrunning, hcalls, hactive⟩, hnil⟩⟩, rfl, rfl⟩
    · rw [hnil]
      refine ⟨⟨?_, .inl rfl, ?_, .inl ⟨⟨hrunning, hcalls, hactive⟩, rfl⟩⟩, rfl, rfl⟩
      · unfold outstanding at hcore
        rw [hnil] at hcore
        exact { hcore with }
      · intro hqueued
        obtain ⟨operation, hmem, hkind⟩ := hpoll hqueued
        unfold outstanding at hmem
        rw [hnil] at hmem
        exact ⟨operation, hmem, hkind⟩
  · have hmounted := (operationIsCurrent_iff.mp hcurrent).1
    have heq : h.outstanding = [operation] := by
      rw [outstanding, hone, hcalls]
      rfl
    rw [heq] at hcore hpoll
    rw [if_neg (by simp [hmounted]), hone, pumpFrom, if_neg (by simp [hcurrent]), hcalls]
    refine ⟨⟨?_, .inl rfl, hpoll, .inr ⟨operation, rfl, rfl, rfl⟩⟩, rfl, ?_⟩
    · split
      · exact { hcore with }
      · exact { hcore with }
    · split
      · rfl
      · rfl

/-! ## Destinations, plans and starts -/

section Calls

variable {α : Type} {generationOf : α → Nat} {own phase phase' : RestoreWorkflowPhase}
  {generation : Nat} {calls : List α}

theorem OneCall.rephase (hc : OneCall generationOf own generation phase calls)
    (hphase : phase = own → phase' = own) : OneCall generationOf own generation phase' calls :=
  { hc with phase_eq := fun call hcall heq => hphase (hc.phase_eq call hcall heq) }

/-- Every call belongs to an earlier generation. -/
theorem OneCall.later (hc : OneCall generationOf own generation phase calls) :
    OneCall generationOf own (generation + 1) phase' calls where
  le := fun call hcall => Nat.le_succ_of_le (hc.le call hcall)
  phase_eq := fun call hcall heq => by
    have := hc.le call hcall
    omega
  one := by
    rw [List.countP_eq_zero.mpr]
    · exact Nat.zero_le 1
    · intro call hcall
      have := hc.le call hcall
      simp only [decide_eq_true_eq]
      omega

theorem OneCall.erase [BEq α] [LawfulBEq α] (hc : OneCall generationOf own generation phase calls)
    (call : α) : OneCall generationOf own generation phase (calls.erase call) where
  le := fun other hmem => hc.le other (List.mem_of_mem_erase hmem)
  phase_eq := fun other hmem => hc.phase_eq other (List.mem_of_mem_erase hmem)
  one := Nat.le_trans List.erase_sublist.countP_le hc.one

/-- An answered call of the generation leaves none behind. -/
theorem OneCall.answer [BEq α] [LawfulBEq α] (hc : OneCall generationOf own generation phase calls)
    {call : α} (hcall : call ∈ calls) (hgeneration : generationOf call = generation) :
    OneCall generationOf own generation phase' (calls.erase call) := by
  have hnone : (calls.erase call).countP (generationOf · = generation) = 0 := by
    have := hc.one
    rw [List.countP_erase, if_pos ⟨hcall, by simpa using hgeneration⟩]
    omega
  refine { hc.erase call with phase_eq := fun other hmem heq => ?_ }
  exact absurd (decide_eq_true heq) (List.countP_eq_zero.mp hnone other hmem)

/-- In another phase no call is out, so there is room for one. -/
theorem OneCall.cons (hc : OneCall generationOf own generation phase calls) (hphase : phase ≠ own)
    {call : α} (hgeneration : generationOf call = generation) :
    OneCall generationOf own generation own (call :: calls) where
  le := fun other hmem => by
    rcases List.mem_cons.mp hmem with rfl | hmem
    · exact Nat.le_of_eq hgeneration
    · exact hc.le other hmem
  phase_eq := fun _ _ _ => rfl
  one := by
    rw [List.countP_cons, List.countP_eq_zero.mpr]
    · split <;> omega
    · intro other hmem heq
      exact hphase (hc.phase_eq other hmem (of_decide_eq_true heq))

end Calls

/-- In the other phases no call of the generation is out. -/
theorem CallsOk.rephase {generation : Nat} {phase phase' : RestoreWorkflowPhase}
    {destinationCalls : List DestinationCall} {startCalls : List StartCall}
    (hc : CallsOk generation phase destinationCalls startCalls)
    (hselecting : phase ≠ .selectingDestination) (hstarting : phase ≠ .starting) :
    CallsOk generation phase' destinationCalls startCalls :=
  ⟨hc.destination.rephase fun heq => absurd heq hselecting,
    hc.start.rephase fun heq => absurd heq hstarting⟩

/-! ## Before the job -/

/-- A step that starts no plan and keeps a job that is over on display. -/
structure Keeps (h h' : RestoreWorkflow) : Prop where
  inv : Inv h'
  starts_eq : h'.starts = h.starts
  job_eq : h.state.phase = .finished → h'.state.job = h.state.job

theorem Inv.keeps (hi : Inv h) : Keeps h h := ⟨hi, rfl, fun _ => rfl⟩

/-- A change of what is neither the phase nor the job. -/
theorem Inv.commit (hi : Inv h) (s' : RestoreWorkflowState) (hphase : s'.phase = h.state.phase)
    (hjob : s'.job = h.state.job) : Keeps h (h.commitState s') := by
  refine ⟨⟨?_, hi.queue.imp_right fun ⟨operation, hw⟩ => ⟨operation, { hw with }⟩, hi.pollQueued,
    hi.single.imp (fun hrests => ⟨{ hrests.1 with }, hrests.2⟩)
      fun ⟨operation, hruns⟩ => ⟨operation, { hruns with }⟩⟩, rfl, fun _ => hjob⟩
  -- every part of the invariant looks at the phase and the job only
  exact {
    phase := by
      show PhaseOk s'
      have := hi.core.phase
      unfold PhaseOk at this ⊢
      rw [hphase, hjob]
      exact this
    calls := by
      show CallsOk h.generation s'.phase h.destinationCalls h.startCalls
      rw [hphase]
      exact hi.core.calls
    le := hi.core.le
    job := fun operation hmem hcurrent htracks =>
      hphase.trans (hi.core.job operation hmem hcurrent htracks)
    openJob := fun operation hmem hcurrent htracks =>
      hphase.trans (hi.core.openJob operation hmem hcurrent htracks)
    timer := fun timer htimer => by
      obtain ⟨hcurrent, hactive, heq, hnone⟩ := hi.core.timer timer htimer
      exact ⟨hcurrent, hphase.trans hactive, by rw [← heq]; exact congrArg _ hjob, hnone⟩
    cancelPending := hi.core.cancelPending
    tracked := fun hmounted hactive => hi.core.tracked hmounted (hphase.symm.trans hactive) }

/-- Without a job there is no timer and no operation of this generation. -/
theorem Inv.timer_none (hi : Inv h) (hphase : h.state.phase ≠ .active) : h.pollTimer = none := by
  cases htimer : h.pollTimer with
  | none => rfl
  | some timer => exact absurd (hi.core.timer timer htimer).2.1 hphase

theorem Core.not_current {operations : List RestoreOperation} (hc : Core h operations)
    (hactive : h.state.phase ≠ .active) (hfinished : h.state.phase ≠ .finished)
    {operation : RestoreOperation} (hmem : operation ∈ operations) :
    h.operationIsCurrent operation = false := by
  rw [Bool.eq_false_iff]
  intro hcurrent
  by_cases htracks : TracksJob operation
  · exact hactive (hc.job operation hmem hcurrent htracks)
  · exact hfinished (hc.openJob operation hmem hcurrent htracks)

theorem Waits.mem_outstanding {operation : RestoreOperation} (hw : Waits h operation) :
    operation ∈ h.outstanding := by
  rw [outstanding, hw.operations_eq]
  exact List.mem_cons_self

/-- Where no operation is current, none waits. -/
theorem Inv.operations_nil (hi : Inv h)
    (hnone : ∀ operation ∈ h.outstanding, h.operationIsCurrent operation = false) :
    h.operations = [] := by
  refine hi.queue.resolve_right ?_
  rintro ⟨operation, hw⟩
  cases hw.current.symm.trans (hnone operation hw.mem_outstanding)

/-- Without a current cancellation, none is pending. -/
theorem Core.cancelPending_eq {operations : List RestoreOperation} (hc : Core h operations)
    (hnone : ∀ operation ∈ operations, h.operationIsCurrent operation = true →
      operation.kind ≠ .cancel) : h.cancelPending = false := by
  rw [Bool.eq_false_iff]
  intro hpending
  obtain ⟨operation, hmem, hcurrent, hkind⟩ := hc.cancelPending hpending
  exact hnone operation hmem hcurrent hkind

/-- A step between the phases before the job. -/
theorem Inv.prepare (hi : Inv h) (hold : Preparing h.state.phase) (s' : RestoreWorkflowState)
    (hnew : Preparing s'.phase) (hjob : s'.job = none) {destinationCalls : List DestinationCall}
    {planCalls : List PlanCall} {startCalls : List StartCall}
    (hcalls : CallsOk h.generation s'.phase destinationCalls startCalls)
    (destinationInFlight planInFlight startInFlight : Bool) (failures : Nat)
    (starts : List RestorePlanSummaryDto) {timer : Option JobOperation}
    (htimer : timer = none ∨ timer = h.pollTimer) :
    Inv { h with
      state := s'
      destinationCalls
      planCalls
      startCalls
      destinationInFlight
      planInFlight
      startInFlight
      consecutiveInternalPollFailures := failures
      starts
      pollTimer := timer } := by
  -- no operation of a job is current while a plan is prepared, so the parts about jobs hold
  -- vacuously
  have hnone : timer = none := htimer.elim id (·.trans (hi.timer_none hold.1))
  have hnot : ∀ operation ∈ h.outstanding, h.operationIsCurrent operation = false :=
    fun _ hmem => hi.core.not_current hold.1 hold.2.2 hmem
  refine ⟨?_, hi.queue.imp_right fun ⟨operation, hw⟩ => ⟨operation, { hw with }⟩, hi.pollQueued,
    hi.single.imp (fun hrests => ⟨{ hrests.1 with }, hrests.2⟩)
      fun ⟨operation, hruns⟩ => ⟨operation, { hruns with }⟩⟩
  exact {
    phase := (phaseOk_preparing hnew).mpr hjob
    calls := hcalls
    le := hi.core.le
    job := fun operation hmem hcurrent => by cases hcurrent.symm.trans (hnot operation hmem)
    openJob := fun operation hmem hcurrent => by cases hcurrent.symm.trans (hnot operation hmem)
    timer := fun other hother => by cases hnone.symm.trans hother
    cancelPending := hi.core.cancelPending
    tracked := fun _ hactive => absurd hactive hnew.1 }

/-- The workflow fails before the job. -/
theorem Inv.failWorkflow (hi : Inv h) (hold : Preparing h.state.phase)
    {destinationCalls : List DestinationCall} {planCalls : List PlanCall}
    {startCalls : List StartCall}
    (hcalls : CallsOk h.generation .error destinationCalls startCalls)
    (destinationInFlight planInFlight startInFlight : Bool) (code : RestoreErrorCode) :
    Keeps h (RestoreWorkflow.failWorkflow code { h with
      destinationCalls, planCalls, startCalls, destinationInFlight, planInFlight,
      startInFlight }) := by
  have hjob := (phaseOk_preparing hold).mp hi.core.phase
  refine ⟨?_, rfl, fun hfinished => absurd hfinished hold.2.2⟩
  exact hi.prepare hold
    { h.state with phase := .error, operationPhase := .idle, error := some code }
    (show Preparing .error by decide) hjob hcalls destinationInFlight planInFlight startInFlight 0
    h.starts (.inl rfl)

/-- An answer that is ignored. -/
theorem Inv.recall (hi : Inv h) {destinationCalls : List DestinationCall}
    {planCalls : List PlanCall} {startCalls : List StartCall}
    (hcalls : CallsOk h.generation h.state.phase destinationCalls startCalls)
    (destinationInFlight planInFlight startInFlight : Bool) :
    Keeps h { h with
      destinationCalls, planCalls, startCalls, destinationInFlight, planInFlight,
      startInFlight } := by
  refine ⟨⟨{ hi.core with calls := hcalls }, ?_, hi.pollQueued, ?_⟩, rfl, fun _ => rfl⟩
  · exact hi.queue.imp_right fun ⟨operation, hw⟩ => ⟨operation, { hw with }⟩
  · exact hi.single.imp (fun hrests => ⟨{ hrests.1 with }, hrests.2⟩)
      fun ⟨operation, hruns⟩ => ⟨operation, { hruns with }⟩

theorem Inv.chooseDestination (hi : Inv h) (runtimeAvailable : Bool) :
    Keeps h (h.chooseDestination runtimeAvailable) := by
  unfold RestoreWorkflow.chooseDestination
  split
  · exact hi.keeps
  · next selectedScanId _ =>
    split
    · exact hi.keeps
    · next haccepts =>
      simp only [Bool.or_eq_true, not_or, Bool.not_eq_true', Bool.not_eq_false] at haccepts
      have haccepts := haccepts.2
      -- `acceptsDestination` leaves three phases, none of them with a call in flight
      have hphase : h.state.phase = .idle ∨ h.state.phase = .setup ∨ h.state.phase = .error := by
        simp only [acceptsDestination, Bool.or_eq_true, Bool.and_eq_true, decide_eq_true_eq]
          at haccepts
        obtain (hidle | hsetup) | herror := haccepts
        · exact .inl hidle
        · exact .inr (.inl hsetup)
        · exact .inr (.inr herror.1)
      have hold : Preparing h.state.phase := by
        obtain heq | heq | heq := hphase <;> rw [heq] <;> decide
      have hselecting : h.state.phase ≠ .selectingDestination := by
        obtain heq | heq | heq := hphase <;> rw [heq] <;> decide
      have hstarting : h.state.phase ≠ .starting := by
        obtain heq | heq | heq := hphase <;> rw [heq] <;> decide
      refine ⟨?_, rfl, fun hfinished => absurd hfinished hold.2.2⟩
      exact hi.prepare hold _ (show Preparing .selectingDestination by decide) rfl
        ⟨hi.core.calls.destination.cons hselecting rfl,
          hi.core.calls.start.rephase fun heq => absurd heq hstarting⟩ _ _ _ _ _ (.inr rfl)

/-- A step between the phases in which no destination is selected and no plan started. -/
theorem Inv.rephase (hi : Inv h)
    (hphase : h.state.phase = .setup ∨ h.state.phase = .error ∨ h.state.phase = .planning ∨
      h.state.phase = .review)
    (s' : RestoreWorkflowState) (hnew : Preparing s'.phase)
    (hjob : s'.job = none ∨ s'.job = h.state.job) (planCalls : List PlanCall)
    (planInFlight : Bool) :
    Keeps h { h with state := s', planCalls, planInFlight } := by
  have hold : Preparing h.state.phase := by
    obtain heq | heq | heq | heq := hphase <;> rw [heq] <;> decide
  have hselecting : h.state.phase ≠ .selectingDestination := by
    obtain heq | heq | heq | heq := hphase <;> rw [heq] <;> decide
  have hstarting : h.state.phase ≠ .starting := by
    obtain heq | heq | heq | heq := hphase <;> rw [heq] <;> decide
  have hjob : s'.job = none := hjob.elim id (·.trans ((phaseOk_preparing hold).mp hi.core.phase))
  refine ⟨?_, rfl, fun hfinished => absurd hfinished hold.2.2⟩
  exact hi.prepare hold s' hnew hjob (hi.core.calls.rephase hselecting hstarting) _ _ _ _ _
    (.inr rfl)

theorem Inv.setPartialFilePolicy (hi : Inv h) (policy : Restore.PartialPolicy) :
    Keeps h (h.setPartialFilePolicy policy) := by
  unfold RestoreWorkflow.setPartialFilePolicy
  split
  · exact hi.keeps
  · next haccepts =>
    simp only [Bool.or_eq_true, Bool.and_eq_true, decide_eq_true_eq, not_or, not_and,
      Decidable.not_not] at haccepts
    have hphase : h.state.phase = .setup ∨ h.state.phase = .error :=
      (Decidable.em _).imp_right haccepts.2
    refine hi.rephase (hphase.imp_right .inl) _ ?_ (.inr ?_) _ _
    · show Preparing .setup
      decide
    · rfl

theorem Inv.setBestEffortConsent (hi : Inv h) (consent : Bool) :
    Keeps h (h.setBestEffortConsent consent) := by
  unfold RestoreWorkflow.setBestEffortConsent
  split
  · exact hi.keeps
  · next haccepts =>
    simp only [Bool.or_eq_true, Bool.and_eq_true, decide_eq_true_eq, not_or, not_and,
      Decidable.not_not] at haccepts
    have hphase : h.state.phase = .setup ∨ h.state.phase = .error :=
      (Decidable.em _).imp_right haccepts.2
    refine hi.rephase (hphase.imp_right .inl) _ ?_ (.inr ?_) _ _
    · show Preparing .setup
      decide
    · rfl

theorem Inv.createPlan (hi : Inv h) : Keeps h h.createPlan := by
  unfold RestoreWorkflow.createPlan
  split
  · split
    · exact hi.keeps
    · next haccepts =>
      simp only [Bool.or_eq_true, decide_eq_true_eq, not_or, Decidable.not_not] at haccepts
      have hsetup := haccepts.1.1
      -- the checks of the selection refuse with an error and issue no call
      have hrefused : ∀ code, Keeps h (h.refuse code) := by
        intro code
        refine hi.rephase (.inl hsetup) _ ?_ (.inr ?_) _ _
        · show Preparing .error
          decide
        · rfl
      split
      · exact hrefused _
      · split
        · exact hrefused _
        · split
          · exact hrefused _
          · refine hi.rephase (.inl hsetup) _ ?_ (.inr ?_) _ _
            · show Preparing .planning
              decide
            · rfl
  · exact hi.keeps

/-- The selection has another revision: the plan is dropped. -/
theorem Inv.selectionChanged (hi : Inv h) : Keeps h h.selectionChanged := by
  unfold RestoreWorkflow.selectionChanged
  dsimp only
  split
  · exact hi.keeps
  · split
    · next hphase =>
      simp only [Bool.or_eq_true, decide_eq_true_eq] at hphase
      have hphase : h.state.phase = .setup ∨ h.state.phase = .error ∨ h.state.phase = .planning ∨
          h.state.phase = .review := by
        obtain (hsetup | hplanning) | hreview := hphase
        · exact .inl hsetup
        · exact .inr (.inr (.inl hplanning))
        · exact .inr (.inr (.inr hreview))
      refine hi.rephase hphase _ ?_ (.inl rfl) _ _
      show Preparing (if h.state.destination = none then .idle else .setup)
      split <;> decide
    · exact hi.commit _ rfl rfl

/-- A selected destination is taken in the phase that waits for it. -/
theorem Inv.destinationAnswered (hi : Inv h) {call : DestinationCall}
    (hcall : call ∈ h.destinationCalls)
    (answer : Except RestoreErrorCode (Option DestinationSummaryDto)) :
    Keeps h (h.destinationAnswered call answer) ∧
      (h.destinationIsCurrent call = false →
        (h.destinationAnswered call answer).state = h.state) := by
  unfold RestoreWorkflow.destinationAnswered
  dsimp only
  -- an outdated answer only takes the call from the list
  by_cases hcurrent : h.destinationIsCurrent call = true
  · have hguard : destinationIsCurrent { h with
        destinationCalls := h.destinationCalls.erase call, destinationInFlight := false } call =
          true := hcurrent
    rw [if_neg (by simp [hguard])]
    refine ⟨?_, fun hfalse => by cases hcurrent.symm.trans hfalse⟩
    simp only [destinationIsCurrent, Bool.and_eq_true, decide_eq_true_eq] at hcurrent
    have hphase := hi.core.calls.destination.phase_eq call hcall hcurrent.1.2
    have hold : Preparing h.state.phase := by
      rw [hphase]
      decide
    have hcalls : ∀ phase, CallsOk h.generation phase (h.destinationCalls.erase call)
      h.startCalls :=
      fun phase => ⟨hi.core.calls.destination.answer hcall hcurrent.1.2,
        hi.core.calls.start.rephase fun heq => by cases hphase.symm.trans heq⟩
    -- the phase is the one that the call was issued in
    cases answer with
    | error code => exact hi.failWorkflow hold (hcalls _) _ _ _ code
    | ok destination =>
      cases destination with
      | none =>
        refine ⟨?_, rfl, fun hfinished => absurd hfinished hold.2.2⟩
        exact hi.prepare hold _ (show Preparing .idle by decide) rfl (hcalls _) _ _ _ _ _ (.inr rfl)
      | some destination =>
        refine ⟨?_, rfl, fun hfinished => absurd hfinished hold.2.2⟩
        refine hi.prepare hold _ ?_ ?_ (hcalls _) _ _ _ _ _ (.inr rfl)
        · show Preparing .setup
          decide
        · exact (phaseOk_preparing hold).mp hi.core.phase
  · have hguard : destinationIsCurrent { h with
        destinationCalls := h.destinationCalls.erase call, destinationInFlight := false } call =
          false := Bool.eq_false_iff.mpr hcurrent
    rw [if_pos (by simp [hguard])]
    exact ⟨hi.recall ⟨hi.core.calls.destination.erase call, hi.core.calls.start⟩ _ _ _,
      fun _ => rfl⟩

theorem Inv.planAnswered (hi : Inv h) (call : PlanCall)
    (answer : Except RestoreErrorCode RestorePlanSummaryDto)
    (hcareful : h.planIsCurrent call = true → h.state.phase = .planning) :
    Keeps h (h.planAnswered call answer) ∧
      (h.planIsCurrent call = false → (h.planAnswered call answer).state = h.state) := by
  unfold RestoreWorkflow.planAnswered
  dsimp only
  -- an outdated answer only takes the call from the list
  by_cases hcurrent : h.planIsCurrent call = true
  · have hguard : planIsCurrent { h with
        planCalls := h.planCalls.erase call, planInFlight := false } call = true := hcurrent
    rw [if_neg (by simp [hguard])]
    refine ⟨?_, fun hfalse => by cases hcurrent.symm.trans hfalse⟩
    -- here the run must be careful: a plan may be answered in another phase
    have hphase := hcareful hcurrent
    have hold : Preparing h.state.phase := by
      rw [hphase]
      decide
    have hselecting : h.state.phase ≠ .selectingDestination := by
      rw [hphase]
      decide
    have hstarting : h.state.phase ≠ .starting := by
      rw [hphase]
      decide
    have hcalls : ∀ phase, CallsOk h.generation phase h.destinationCalls h.startCalls :=
      fun _ => hi.core.calls.rephase hselecting hstarting
    cases answer with
    | error code => exact hi.failWorkflow hold (hcalls _) _ _ _ code
    | ok plan =>
      dsimp only
      split
      · exact hi.failWorkflow hold (hcalls _) _ _ _ _
      · refine hi.rephase (.inr (.inr (.inl hphase))) _ ?_ (.inr ?_) _ _
        · show Preparing .review
          decide
        · rfl
  · have hguard : planIsCurrent { h with
        planCalls := h.planCalls.erase call, planInFlight := false } call = false :=
      Bool.eq_false_iff.mpr hcurrent
    rw [if_pos (by simp [hguard])]
    exact ⟨hi.recall hi.core.calls _ _ _, fun _ => rfl⟩

/-- A plan is started for the selection that it was made for. -/
theorem Inv.start (hi : Inv h) :
    Inv h.start ∧ (h.state.phase = .finished → h.start.state.job = h.state.job) ∧
      (h.start.starts = h.starts ∨ ∃ plan, h.start.starts = plan :: h.starts ∧
        h.state.plan = some plan ∧ h.currentRevision = some plan.selectionRevision) := by
  -- only the last branch issues a start
  have hkeeps : ∀ h', Keeps h h' → Inv h' ∧
      (h.state.phase = .finished → h'.state.job = h.state.job) ∧
      (h'.starts = h.starts ∨ ∃ plan, h'.starts = plan :: h.starts ∧
        h.state.plan = some plan ∧ h.currentRevision = some plan.selectionRevision) :=
    fun h' hk => ⟨hk.inv, hk.job_eq, .inl hk.starts_eq⟩
  unfold RestoreWorkflow.start
  split
  · exact hkeeps h hi.keeps
  · next haccepts =>
    simp only [Bool.or_eq_true, decide_eq_true_eq, not_or, Decidable.not_not] at haccepts
    have hphase := haccepts.1
    have hold : Preparing h.state.phase := by
      rw [hphase]
      decide
    have hselecting : h.state.phase ≠ .selectingDestination := by
      rw [hphase]
      decide
    have hstarting : h.state.phase ≠ .starting := by
      rw [hphase]
      decide
    have hcalls : ∀ phase, CallsOk h.generation phase h.destinationCalls h.startCalls :=
      fun _ => hi.core.calls.rephase hselecting hstarting
    split
    · exact hkeeps _ (hi.failWorkflow hold (hcalls _) _ _ _ _)
    · next plan hplan =>
      split
      · refine hkeeps _ (hi.rephase (.inr (.inr (.inr hphase))) _ ?_ (.inr ?_) _ _)
        · show Preparing .error
          decide
        · rfl
      -- the plan that is started is the one for the revision of the selection
      · next hrevision =>
        refine ⟨?_, fun hfinished => absurd hfinished hold.2.2,
          .inr ⟨plan, rfl, hplan, Decidable.not_not.mp hrevision⟩⟩
        refine hi.prepare hold _ ?_ ?_ ⟨?_, ?_⟩ _ _ _ _ _ (.inr rfl)
        · show Preparing .starting
          decide
        · exact (phaseOk_preparing hold).mp hi.core.phase
        · exact hi.core.calls.destination.rephase fun heq => absurd heq hselecting
        · exact hi.core.calls.start.cons hstarting rfl

/-! ## The job -/

/-- A snapshot, or the failure of an operation, is about to be displayed. -/
structure Settling (h : RestoreWorkflow) (operations : List RestoreOperation) : Prop where
  mounted : h.mounted = true
  cancelPending : h.cancelPending = false
  calls : ∀ phase, CallsOk h.generation phase h.destinationCalls h.startCalls
  le : ∀ operation ∈ operations,
    operation.generation ≤ h.generation ∧ operation.intent ≤ h.operationIntent
  not_current : ∀ operation ∈ operations, h.operationIsCurrent operation = false

/-- The queue is left alone. -/
structure SameQueue (h h' : RestoreWorkflow) : Prop where
  operations_eq : h'.operations = h.operations
  running_eq : h'.operationRunning = h.operationRunning
  active_eq : h'.activeOperation = h.activeOperation
  pollQueued_eq : h'.pollQueued = h.pollQueued
  calls_eq : h'.operationCalls = h.operationCalls
  starts_eq : h'.starts = h.starts
  mounted_eq : h'.mounted = h.mounted
  generation_eq : h'.generation = h.generation
  intent_eq : h'.operationIntent = h.operationIntent
  destinationCalls_eq : h'.destinationCalls = h.destinationCalls
  startCalls_eq : h'.startCalls = h.startCalls

theorem schedulePoll_eq {job : RestoreJobSnapshotDto} (hmounted : h.mounted = true)
    (hphase : h.state.phase = .active) (hjob : h.state.job = some job)
    (hterminal : isTerminal job = false) (hpending : h.cancelPending = false) :
    h.schedulePoll = { h with
      pollTimer := some ⟨h.generation, h.operationIntent, job.jobId, job.planId⟩ } := by
  simp only [schedulePoll, clearPollTimer, hjob, hmounted, hphase, hterminal, hpending,
    Bool.not_true,
    ne_eq, not_true_eq_false, decide_false, Bool.or_self, Bool.false_eq_true, if_false]

section Settling

variable {operations : List RestoreOperation} (hs : Settling h operations)
include hs

/-- Nothing polls a job that is not active. -/
theorem Settling.core (hphase : PhaseOk h.state) (hactive : h.state.phase ≠ .active)
    (htimer : h.pollTimer = none) : Core h operations where
  phase := hphase
  calls := hs.calls _
  le := hs.le
  job := fun operation hmem hcurrent => by cases hcurrent.symm.trans (hs.not_current operation hmem)
  openJob := fun operation hmem hcurrent => by
    cases hcurrent.symm.trans (hs.not_current operation hmem)
  timer := fun timer hsome => by cases htimer.symm.trans hsome
  cancelPending := fun hpending => by cases hs.cancelPending.symm.trans hpending
  tracked := fun _ heq => absurd heq hactive

/-- The timer tracks an active job. -/
theorem Settling.schedulePoll {job : RestoreJobSnapshotDto} (hphase : h.state.phase = .active)
    (hjob : h.state.job = some job) (hterminal : isTerminal job = false) :
    Core h.schedulePoll operations ∧ SameQueue h h.schedulePoll := by
  rw [schedulePoll_eq hs.mounted hphase hjob hterminal hs.cancelPending]
  refine ⟨?_, ⟨rfl, rfl, rfl, rfl, rfl, rfl, rfl, rfl, rfl, rfl, rfl⟩⟩
  exact {
    phase := (phaseOk_active hphase).mpr ⟨job, hjob, hterminal⟩
    calls := hs.calls _
    le := hs.le
    job := fun operation hmem hcurrent => by
      cases hcurrent.symm.trans (hs.not_current operation hmem)
    openJob := fun operation hmem hcurrent => by
      cases hcurrent.symm.trans (hs.not_current operation hmem)
    timer := fun timer hsome => by
      cases hsome
      refine ⟨operationIsCurrent_iff.mpr ⟨hs.mounted, rfl, rfl⟩, hphase, ?_, hs.not_current⟩
      exact congrArg _ hjob
    cancelPending := fun hpending => by cases hs.cancelPending.symm.trans hpending
    tracked := fun _ _ => .inl (Option.some_ne_none _) }

theorem Settling.applyNativeJob {snapshot : RestoreJobSnapshotDto} {expectedJobId : Option String}
    {expectedPlanId : String} {cancelConfirmed : Bool} (h' : RestoreWorkflow)
    (happlied : h.applyNativeJob snapshot expectedJobId expectedPlanId cancelConfirmed = some h') :
    Core h' operations ∧ SameQueue h h' := by
  unfold RestoreWorkflow.applyNativeJob at happlied
  split at happlied
  · cases happlied
  · dsimp only at happlied
    -- a terminal snapshot finishes the workflow, any other one schedules the next poll
    cases hterminal : isTerminal snapshot with
    | true =>
      simp only [hterminal, if_true, Option.some.injEq] at happlied
      subst happlied
      refine ⟨Settling.core { hs with } ?_ ?_ rfl,
        ⟨rfl, rfl, rfl, rfl, rfl, rfl, rfl, rfl, rfl, rfl, rfl⟩⟩
      · exact (phaseOk_finished rfl).mpr ⟨snapshot, rfl, hterminal⟩
      · show RestoreWorkflowPhase.finished ≠ .active
        decide
    | false =>
      simp only [hterminal, Bool.false_eq_true, if_false, Option.some.injEq] at happlied
      subst happlied
      obtain ⟨hcore, hsame⟩ := Settling.schedulePoll
        (h := { h with consecutiveInternalPollFailures := 0 }.commitState { h.state with
          phase := .active
          job := some snapshot
          operationPhase := .idle
          progressBasisPoints := restoreProgressBasisPoints snapshot
          cancelRequested := h.state.cancelRequested || cancelConfirmed
          error := none }) { hs with } rfl rfl hterminal
      exact ⟨hcore, { hsame with }⟩

theorem Settling.loseJobTracking {job : RestoreJobSnapshotDto} (hjob : h.state.job = some job)
    (hterminal : isTerminal job = false) (code : RestoreErrorCode) (failures : Nat) :
    Core ({ h with consecutiveInternalPollFailures := failures }.loseJobTracking code) operations ∧
      SameQueue h
        ({ h with consecutiveInternalPollFailures := failures }.loseJobTracking code) := by
  refine ⟨Settling.core { hs with cancelPending := rfl } ⟨job, hjob, hterminal⟩ ?_ rfl,
    ⟨rfl, rfl, rfl, rfl, rfl, rfl, rfl, rfl, rfl, rfl, rfl⟩⟩
  show RestoreWorkflowPhase.trackingLost ≠ .active
  decide

/-- After a failure of an operation the job is polled again, or no longer tracked. -/
theorem Settling.failJobOperation {job : RestoreJobSnapshotDto} (hjob : h.state.job = some job)
    (hterminal : isTerminal job = false) (code : RestoreErrorCode) (kind : RestoreOperationKind) :
    Core (h.failJobOperation code kind) operations ∧
    SameQueue h (h.failJobOperation code kind) := by
  unfold RestoreWorkflow.failJobOperation
  rw [if_pos (by simp [hjob, hterminal])]
  dsimp only
  generalize h.consecutiveInternalPollFailures + (if kind = .poll then 1 else 0) = failures
  split
  · exact hs.loseJobTracking hjob hterminal code _
  · split
    · exact hs.loseJobTracking hjob hterminal code _
    · obtain ⟨hcore, hsame⟩ := Settling.schedulePoll
        (h := { h with consecutiveInternalPollFailures := failures }.commitState
          { h.state with phase := .active, operationPhase := .idle, error := some code })
        { hs with } rfl hjob hterminal
      exact ⟨hcore, { hsame with }⟩

end Settling

/-- The invariant of a state whose queue is empty and the same. -/
theorem Inv.of_sameQueue (hi : Inv h) (hempty : h.operations = [])
    (hcore : Core h' h.outstanding) (hsame : SameQueue h h') : Inv h' := by
  have heq : h'.outstanding = h.outstanding := by
    rw [outstanding, hsame.operations_eq, hsame.calls_eq, outstanding]
  refine ⟨heq ▸ hcore, .inl (hsame.operations_eq.trans hempty), ?_, ?_⟩
  · rw [heq, hsame.pollQueued_eq]
    exact hi.pollQueued
  · refine hi.single.imp ?_ ?_
    · rintro ⟨hrests, _⟩
      exact ⟨⟨hsame.running_eq.trans hrests.running, hsame.calls_eq.trans hrests.calls_eq,
        hsame.active_eq.trans hrests.active_eq⟩, hsame.operations_eq.trans hempty⟩
    · rintro ⟨operation, hruns⟩
      exact ⟨operation, hsame.running_eq.trans hruns.running, hsame.calls_eq.trans hruns.calls_eq,
        hsame.active_eq.trans hruns.active_eq⟩

/-- A started job is tracked. -/
theorem Inv.startAnswered (hi : Inv h) {call : StartCall} (hcall : call ∈ h.startCalls)
    (answer : Except RestoreErrorCode RestoreJobSnapshotDto) :
    Keeps h (h.startAnswered call answer) ∧
      (h.startIsCurrent call = false → (h.startAnswered call answer).state = h.state) := by
  unfold RestoreWorkflow.startAnswered
  dsimp only
  by_cases hcurrent : h.startIsCurrent call = true
  · have hguard : startIsCurrent { h with
        startCalls := h.startCalls.erase call, startInFlight := false } call = true := hcurrent
    rw [if_neg (by simp [hguard])]
    refine ⟨?_, fun hfalse => by cases hcurrent.symm.trans hfalse⟩
    simp only [startIsCurrent, Bool.and_eq_true, decide_eq_true_eq] at hcurrent
    have hphase := hi.core.calls.start.phase_eq call hcall hcurrent.2
    have hold : Preparing h.state.phase := by
      rw [hphase]
      decide
    have hcalls : ∀ phase, CallsOk h.generation phase h.destinationCalls
      (h.startCalls.erase call) :=
      fun phase => ⟨hi.core.calls.destination.rephase fun heq => (by cases hphase.symm.trans heq),
        hi.core.calls.start.answer hcall hcurrent.2⟩
    have hnot : ∀ operation ∈ h.outstanding, h.operationIsCurrent operation = false :=
      fun _ hmem => hi.core.not_current hold.1 hold.2.2 hmem
    -- no job was started yet, so nothing of one is in flight
    have hempty : h.operations = [] := hi.operations_nil hnot
    have hpending : h.cancelPending = false := by
      apply hi.core.cancelPending_eq
      intro operation hmem htrue
      cases htrue.symm.trans (hnot operation hmem)
    have hrecalled : Inv { h with
        startCalls := h.startCalls.erase call, startInFlight := false } :=
      (hi.recall (hcalls _) _ _ _).inv
    have hsettling : Settling { h with
        startCalls := h.startCalls.erase call, startInFlight := false } h.outstanding :=
      ⟨hcurrent.1, hpending, hcalls, hi.core.le, hnot⟩
    cases answer with
    | error code => exact hi.failWorkflow hold (hcalls _) _ _ _ code
    | ok snapshot =>
      dsimp only
      generalize happlied : applyNativeJob snapshot none call.planId false { h with
        startCalls := h.startCalls.erase call, startInFlight := false } = applied
      cases applied with
      | none => exact hi.failWorkflow hold (hcalls _) _ _ _ _
      | some h' =>
        obtain ⟨hcore, hsame⟩ := hsettling.applyNativeJob h' happlied
        exact ⟨hrecalled.of_sameQueue hempty hcore hsame, hsame.starts_eq,
          fun hfinished => absurd hfinished hold.2.2⟩
  · have hguard : startIsCurrent { h with
        startCalls := h.startCalls.erase call, startInFlight := false } call = false :=
      Bool.eq_false_iff.mpr hcurrent
    rw [if_pos (by simp [hguard])]
    exact ⟨hi.recall ⟨hi.core.calls.destination, hi.core.calls.start.erase call⟩ _ _ _,
      fun _ => rfl⟩

/-! ## Operations -/

section Outdated

variable {answer : Except RestoreErrorCode RestoreJobSnapshotDto}

theorem pollSettled_outdated {operation : JobOperation}
    (hold : h.operationIsCurrent (.poll operation) = false) :
    h.pollSettled operation answer = h :=
  if_pos (by simp [hold])

theorem cancelSettled_outdated {operation : JobOperation}
    (hold : h.operationIsCurrent (.cancel operation) = false) :
    h.cancelSettled operation answer = { h with cancelPending := false } := by
  have happlied : h.cancelApplied operation answer = h := if_pos (by simp [hold])
  have hold' :
    operationIsCurrent { h with cancelPending := false } (.cancel operation) = false := hold
  unfold cancelSettled
  rw [happlied]
  exact if_neg (by simp [hold'])

theorem openSettled_outdated {operation : OpenOperation} {answer : Except RestoreErrorCode Unit}
    (hold : h.operationIsCurrent (.openJob operation) = false) :
    h.openSettled operation answer = { h with openPending := false } :=
  if_pos (by simp [hold])

end Outdated

/-- The next operation is started behind the one that ends. -/
theorem inv_finish (operation : RestoreOperation) (hcore : Core h h.operations)
    (hcalls : h.operationCalls = [])
    (hqueue : h.operations = [] ∨ ∃ next, h.operations = [next] ∧ h.operationIsCurrent next = true)
    (hpoll : operation.kind ≠ .poll → h.pollQueued = true →
      ∃ next ∈ h.operations, next.kind = .poll) :
    Inv (h.finishOperation operation) ∧ (h.finishOperation operation).starts = h.starts ∧
      (h.finishOperation operation).state.job = h.state.job := by
  have heq : outstanding { h with
      pollQueued := if operation.kind = .poll then false else h.pollQueued
      operationRunning := false
      activeOperation := none } = h.operations := by
    rw [outstanding, hcalls, List.append_nil]
  obtain ⟨hinv, hstarts, hstate⟩ := inv_pump (h := { h with
      pollQueued := if operation.kind = .poll then false else h.pollQueued
      operationRunning := false
      activeOperation := none }) (heq.symm ▸ { hcore with }) hqueue
    (fun hqueued => by
      rw [heq]
      by_cases hkind : operation.kind = .poll
      · simp [hkind] at hqueued
      · exact hpoll hkind (by simpa [hkind] using hqueued)) ⟨rfl, hcalls, rfl⟩
  exact ⟨hinv, hstarts, congrArg (·.job) hstate⟩

/-- An answered operation of an earlier generation or intent is taken away. -/
theorem Inv.drop (hi : Inv h) {operation : RestoreOperation}
    (hcall : operation ∈ h.operationCalls) (hold : h.operationIsCurrent operation = false)
    (cancelPending openPending : Bool) (hpending : cancelPending = true → h.cancelPending = true) :
    h.operationCalls.erase operation = [] ∧
      Core { h with operationCalls := [], cancelPending, openPending } h.operations ∧
      (h.operations = [] ∨ ∃ next, h.operations = [next] ∧ h.operationIsCurrent next = true) ∧
      (operation.kind ≠ .poll → h.pollQueued = true →
        ∃ next ∈ h.operations, next.kind = .poll) := by
  obtain ⟨hrests, _⟩ | ⟨other, hruns⟩ := hi.single
  · cases hrests.calls_eq ▸ hcall
  cases List.mem_singleton.mp (hruns.calls_eq ▸ hcall)
  have hmem : ∀ {next}, next ∈ h.operations → next ∈ h.outstanding :=
    fun hnext => List.mem_append_left _ hnext
  -- what runs is the operation that is answered, and that one is out of date
  have hback : ∀ {next}, next ∈ h.outstanding → next = operation ∨ next ∈ h.operations := by
    intro next hnext
    rcases List.mem_append.mp hnext with hnext | hnext
    · exact .inr hnext
    · exact .inl (List.mem_singleton.mp (hruns.calls_eq ▸ hnext))
  refine ⟨by simp [hruns.calls_eq], ?_, hi.queue.imp_right fun ⟨next, hw⟩ =>
    ⟨next, hw.operations_eq, hw.current⟩, fun hkind hqueued => ?_⟩
  · exact {
      phase := hi.core.phase
      calls := hi.core.calls
      le := fun next hnext => hi.core.le next (hmem hnext)
      job := fun next hnext => hi.core.job next (hmem hnext)
      openJob := fun next hnext => hi.core.openJob next (hmem hnext)
      timer := fun timer htimer => by
        obtain ⟨hcurrent, hactive, hjob, hnone⟩ := hi.core.timer timer htimer
        exact ⟨hcurrent, hactive, hjob, fun next hnext => hnone next (hmem hnext)⟩
      cancelPending := fun hset => by
        obtain ⟨next, hnext, hcurrent, hkind⟩ := hi.core.cancelPending (hpending hset)
        obtain rfl | hnext := hback hnext
        · cases hold.symm.trans hcurrent
        · exact ⟨next, hnext, hcurrent, hkind⟩
      tracked := fun hmounted hactive => by
        refine (hi.core.tracked hmounted hactive).imp_right ?_
        rintro ⟨next, hnext, hcurrent⟩
        obtain rfl | hnext := hback hnext
        · cases hold.symm.trans hcurrent
        · exact ⟨next, hnext, hcurrent⟩ }
  · obtain ⟨next, hnext, hnextKind⟩ := hi.pollQueued hqueued
    obtain rfl | hnext := hback hnext
    · exact absurd hnextKind hkind
    · exact ⟨next, hnext, hnextKind⟩

/-- An answered operation that is current was the only one. -/
theorem Inv.only (hi : Inv h) {operation : RestoreOperation}
    (hcall : operation ∈ h.operationCalls) (hcurrent : h.operationIsCurrent operation = true) :
    h.operations = [] ∧ h.operationCalls = [operation] := by
  obtain ⟨hrests, _⟩ | ⟨other, hruns⟩ := hi.single
  · cases hrests.calls_eq ▸ hcall
  cases List.mem_singleton.mp (hruns.calls_eq ▸ hcall)
  refine ⟨hi.queue.resolve_right ?_, hruns.calls_eq⟩
  rintro ⟨next, hw⟩
  cases hcurrent.symm.trans (hw.exclusive operation hcall)

theorem Core.settling {operations : List RestoreOperation} (hc : Core h operations)
    (hmounted : h.mounted = true) (hphase : h.state.phase = .active ∨ h.state.phase = .finished)
    {cancelPending : Bool} (hpending : cancelPending = false) :
    Settling { h with operationCalls := [], cancelPending } [] where
  mounted := hmounted
  cancelPending := hpending
  calls := fun _ => by
    apply hc.calls.rephase
    · obtain heq | heq := hphase <;> rw [heq] <;> decide
    · obtain heq | heq := hphase <;> rw [heq] <;> decide
  le := by
    intro operation hmem
    cases hmem
  not_current := by
    intro operation hmem
    cases hmem

theorem Settling.of_same {operations : List RestoreOperation} (hs : Settling h operations)
    (hsame : SameQueue h h') (hpending : h'.cancelPending = false) : Settling h' operations := by
  have hcurrent : ∀ operation,
    h'.operationIsCurrent operation = h.operationIsCurrent operation := by
    intro operation
    unfold operationIsCurrent
    rw [hsame.mounted_eq, hsame.generation_eq, hsame.intent_eq]
  constructor
  · exact hsame.mounted_eq.trans hs.mounted
  · exact hpending
  · rw [hsame.generation_eq, hsame.destinationCalls_eq, hsame.startCalls_eq]
    exact hs.calls
  · rw [hsame.generation_eq, hsame.intent_eq]
    exact hs.le
  · exact fun operation hmem => (hcurrent operation).trans (hs.not_current operation hmem)

/-- The end of an operation that has settled and leaves an empty queue. -/
theorem finish_settled {settled : RestoreWorkflow} (operation : RestoreOperation)
    (hcore : Core settled []) (hempty : settled.operations = [])
    (hcalls : settled.operationCalls = [])
    (hpoll : operation.kind ≠ .poll → settled.pollQueued = false) :
    Inv (settled.finishOperation operation) ∧
      (settled.finishOperation operation).starts = settled.starts ∧
      (settled.finishOperation operation).state.job = settled.state.job := by
  apply inv_finish operation (hempty.symm ▸ hcore) hcalls (.inl hempty)
  intro hkind hqueued
  cases (hpoll hkind).symm.trans hqueued

theorem Inv.pollAnswered (hi : Inv h) {operation : JobOperation}
    (hcall : .poll operation ∈ h.operationCalls)
    (answer : Except RestoreErrorCode RestoreJobSnapshotDto) :
    Keeps h (h.pollAnswered operation answer) := by
  unfold RestoreWorkflow.pollAnswered
  by_cases hcurrent : h.operationIsCurrent (.poll operation) = true
  · obtain ⟨hempty, hcalls⟩ := hi.only hcall hcurrent
    have hmem : .poll operation ∈ h.outstanding := List.mem_append_right _ hcall
    have hphase := hi.core.job _ hmem hcurrent (by simp [TracksJob, RestoreOperation.kind])
    obtain ⟨job, hjob, hterminal⟩ := (phaseOk_active hphase).mp hi.core.phase
    have hpending : h.cancelPending = false := by
      apply hi.core.cancelPending_eq
      intro other hother _
      rw [outstanding, hempty, hcalls] at hother
      cases List.mem_singleton.mp hother
      exact RestoreOperationKind.noConfusion
    have hs := hi.core.settling (operationIsCurrent_iff.mp hcurrent).1 (.inl hphase) hpending
    rw [show h.operationCalls.erase (.poll operation) = [] by simp [hcalls]]
    -- the poll was the only operation, so the queue rests behind its answer
    have hfinish : ∀ settled, Core settled [] ∧ SameQueue { h with operationCalls := [] } settled →
        Keeps h (settled.finishOperation (.poll operation)) := by
      rintro settled ⟨hcore, hsame⟩
      obtain ⟨hinv, hstarts, _⟩ := finish_settled (.poll operation) hcore
        (hsame.operations_eq.trans hempty) hsame.calls_eq fun hkind => absurd rfl hkind
      exact ⟨hinv, hstarts.trans hsame.starts_eq,
        fun hfinished => by cases hphase.symm.trans hfinished⟩
    have hguard : operationIsCurrent { h with operationCalls := [] } (.poll operation) = true :=
      hcurrent
    unfold pollSettled
    rw [if_neg (by simp [hguard])]
    cases answer with
    | error code => exact hfinish _ (hs.failJobOperation hjob hterminal code .poll)
    | ok snapshot =>
      dsimp only
      generalize happlied : applyNativeJob snapshot (some operation.jobId) operation.planId false
        { h with operationCalls := [] } = applied
      cases applied with
      | none => exact hfinish _ (hs.failJobOperation hjob hterminal _ .poll)
      | some h' => exact hfinish _ (hs.applyNativeJob h' happlied)
  -- an outdated answer changes nothing but the queue
  · have hold := Bool.eq_false_iff.mpr hcurrent
    obtain ⟨herase, hcore, hqueue, hpoll⟩ := hi.drop hcall hold h.cancelPending h.openPending id
    rw [herase]
    rw [pollSettled_outdated (h := { h with operationCalls := [] }) hold]
    obtain ⟨hinv, hstarts, hjob⟩ := inv_finish (.poll operation) hcore rfl hqueue hpoll
    exact ⟨hinv, hstarts, fun _ => hjob⟩

theorem SameQueue.trans {h'' : RestoreWorkflow} (first : SameQueue h h')
    (second : SameQueue h' h'') : SameQueue h h'' where
  operations_eq := second.operations_eq.trans first.operations_eq
  running_eq := second.running_eq.trans first.running_eq
  active_eq := second.active_eq.trans first.active_eq
  pollQueued_eq := second.pollQueued_eq.trans first.pollQueued_eq
  calls_eq := second.calls_eq.trans first.calls_eq
  starts_eq := second.starts_eq.trans first.starts_eq
  mounted_eq := second.mounted_eq.trans first.mounted_eq
  generation_eq := second.generation_eq.trans first.generation_eq
  intent_eq := second.intent_eq.trans first.intent_eq
  destinationCalls_eq := second.destinationCalls_eq.trans first.destinationCalls_eq
  startCalls_eq := second.startCalls_eq.trans first.startCalls_eq

/-- The `finally` of a cancellation polls an active job. -/
theorem Settling.cancelFinally (hs : Settling h []) (h' : RestoreWorkflow) (hcore : Core h' [])
    (hsame : SameQueue h h')
    (hpending : h'.cancelPending = false) (guard : Bool)
    (hactive : guard = true → h'.state.phase = .active)
    (hjob : guard = true → h'.state.job.any (!isTerminal ·) = true) :
    Core (if guard then h'.schedulePoll else h') [] ∧
      SameQueue h (if guard then h'.schedulePoll else h') := by
  cases guard with
  | false => exact ⟨hcore, hsame⟩
  | true =>
    obtain ⟨job, hsome, hterminal⟩ := (Option.any_eq_true _ _).mp (hjob rfl)
    obtain ⟨hcore', hsame'⟩ := (hs.of_same hsame hpending).schedulePoll (hactive rfl) hsome
      (by simpa using hterminal)
    exact ⟨hcore', hsame.trans hsame'⟩

theorem Inv.cancelAnswered (hi : Inv h) {operation : JobOperation}
    (hcall : .cancel operation ∈ h.operationCalls)
    (answer : Except RestoreErrorCode RestoreJobSnapshotDto) :
    Keeps h (h.cancelAnswered operation answer) := by
  unfold RestoreWorkflow.cancelAnswered
  by_cases hcurrent : h.operationIsCurrent (.cancel operation) = true
  · obtain ⟨hempty, hcalls⟩ := hi.only hcall hcurrent
    have hmem : .cancel operation ∈ h.outstanding := List.mem_append_right _ hcall
    have hphase := hi.core.job _ hmem hcurrent (by simp [TracksJob, RestoreOperation.kind])
    obtain ⟨job, hjob, hterminal⟩ := (phaseOk_active hphase).mp hi.core.phase
    have hs : Settling { h with operationCalls := [], cancelPending := false } [] :=
      hi.core.settling (operationIsCurrent_iff.mp hcurrent).1 (.inl hphase) rfl
    rw [show h.operationCalls.erase (.cancel operation) = [] by simp [hcalls]]
    -- no poll is queued, for the cancellation was the only operation
    have hpoll : h.pollQueued = false := by
      rw [Bool.eq_false_iff]
      intro hqueued
      obtain ⟨other, hother, hkind⟩ := hi.pollQueued hqueued
      rw [outstanding, hempty, hcalls] at hother
      cases List.mem_singleton.mp hother
      cases hkind
    have happlied : Core (cancelApplied operation answer { h with operationCalls := [] }) [] ∧
        SameQueue { h with operationCalls := [], cancelPending := false }
          (cancelApplied operation answer { h with operationCalls := [] }) := by
      have hguard : operationIsCurrent { h with operationCalls := [] } (.cancel operation) = true :=
        hcurrent
      unfold cancelApplied
      rw [if_neg (by simp [hguard])]
      cases answer with
      | error code => exact hs.failJobOperation hjob hterminal code .cancel
      | ok snapshot =>
        dsimp only
        generalize happlied : applyNativeJob snapshot (some operation.jobId) operation.planId true
          { h with operationCalls := [], cancelPending := false } = applied
        cases applied with
        | none => exact hs.failJobOperation hjob hterminal _ .cancel
        | some h' => exact hs.applyNativeJob h' happlied
    obtain ⟨hcore, hsame⟩ := happlied
    unfold cancelSettled
    generalize cancelApplied operation answer
      { h with operationCalls := [] } = applied at hcore hsame
    obtain ⟨hcore', hsame'⟩ := hs.cancelFinally { applied with cancelPending := false }
      { hcore with cancelPending := fun hpending => by cases hpending } { hsame with } rfl
      (operationIsCurrent { applied with cancelPending := false } (.cancel operation) &&
        applied.state.phase = .active && applied.state.job.any (!isTerminal ·))
      (fun hguard => by
        simp only [Bool.and_eq_true, decide_eq_true_eq] at hguard
        exact hguard.1.2)
      (fun hguard => by
        simp only [Bool.and_eq_true] at hguard
        exact hguard.2)
    obtain ⟨hinv, hstarts, _⟩ := finish_settled (.cancel operation) hcore'
      (hsame'.operations_eq.trans hempty) hsame'.calls_eq
      fun _ => hsame'.pollQueued_eq.trans hpoll
    exact ⟨hinv, hstarts.trans hsame'.starts_eq,
      fun hfinished => by cases hphase.symm.trans hfinished⟩
  · have hold := Bool.eq_false_iff.mpr hcurrent
    obtain ⟨herase, hcore, hqueue, hpoll⟩ := hi.drop hcall hold false h.openPending
      (fun hfalse => by cases hfalse)
    rw [herase]
    rw [cancelSettled_outdated (h := { h with operationCalls := [] }) hold]
    obtain ⟨hinv, hstarts, hjob⟩ := inv_finish (.cancel operation) hcore rfl hqueue hpoll
    exact ⟨hinv, hstarts, fun _ => hjob⟩

theorem Inv.openAnswered (hi : Inv h) {operation : OpenOperation}
    (hcall : .openJob operation ∈ h.operationCalls) (answer : Except RestoreErrorCode Unit) :
    Keeps h (h.openAnswered operation answer) := by
  unfold RestoreWorkflow.openAnswered
  by_cases hcurrent : h.operationIsCurrent (.openJob operation) = true
  · obtain ⟨hempty, hcalls⟩ := hi.only hcall hcurrent
    have hmem : .openJob operation ∈ h.outstanding := List.mem_append_right _ hcall
    have hphase := hi.core.openJob _ hmem hcurrent fun htracks => htracks rfl
    have hactive : h.state.phase ≠ .active := by
      rw [hphase]
      decide
    -- the request to open is the only operation in flight
    have hkinds : ∀ other ∈ h.outstanding, other.kind = .openJob := by
      intro other hother
      rw [outstanding, hempty, hcalls] at hother
      cases List.mem_singleton.mp hother
      rfl
    have hpending : h.cancelPending = false := by
      apply hi.core.cancelPending_eq
      intro other hother _ hkind
      cases hkind.symm.trans (hkinds other hother)
    have hpoll : h.pollQueued = false := by
      rw [Bool.eq_false_iff]
      intro hqueued
      obtain ⟨other, hother, hkind⟩ := hi.pollQueued hqueued
      cases hkind.symm.trans (hkinds other hother)
    have hs := hi.core.settling (operationIsCurrent_iff.mp hcurrent).1 (.inr hphase) hpending
    rw [show h.operationCalls.erase (.openJob operation) = [] by simp [hcalls]]
    have hfinish : ∀ s', s'.phase = h.state.phase → s'.job = h.state.job →
        Keeps h (finishOperation (.openJob operation)
          { h with operationCalls := [], openPending := false, state := s' }) := by
      intro s' hsame hjob
      have hcore : Core { h with operationCalls := [], openPending := false, state := s' } [] := by
        refine Settling.core { hs with } ?_ (hsame ▸ hactive) (hi.timer_none hactive)
        have hok := hi.core.phase
        unfold PhaseOk at hok ⊢
        rw [hsame, hjob]
        exact hok
      obtain ⟨hinv, hstarts, hkept⟩ := finish_settled (.openJob operation) hcore hempty
        rfl fun _ => hpoll
      exact ⟨hinv, hstarts, fun _ => hkept.trans hjob⟩
    have hguard : operationIsCurrent { h with operationCalls := [] } (.openJob operation) = true :=
      hcurrent
    unfold openSettled
    dsimp only
    rw [if_neg (by simp [hguard])]
    cases answer with
    | ok _ => exact hfinish _ rfl rfl
    | error code =>
      refine hfinish { h.state with phase := _, operationPhase := .idle, error := some code } ?_ rfl
      show (if h.state.job.any _ then RestoreWorkflowPhase.finished else h.state.phase) = _
      split
      · exact hphase.symm
      · rfl
  -- an outdated answer changes nothing but the queue
  · have hold := Bool.eq_false_iff.mpr hcurrent
    obtain ⟨herase, hcore, hqueue, hpoll⟩ := hi.drop hcall hold h.cancelPending false id
    rw [herase]
    rw [openSettled_outdated (h := { h with operationCalls := [] }) hold]
    obtain ⟨hinv, hstarts, hjob⟩ := inv_finish (.openJob operation) hcore rfl hqueue hpoll
    exact ⟨hinv, hstarts, fun _ => hjob⟩

/-- An operation is queued, and started when none runs. -/
theorem inv_push (operation : RestoreOperation)
    (hcore : Core h (operation :: h.operationCalls)) (hw : Waits h operation)
    (hpoll : h.pollQueued = true → ∃ next ∈ operation :: h.operationCalls, next.kind = .poll)
    (hsingle : Rests h ∨ ∃ running, Runs h running) :
    Inv h.pumpOperations ∧ h.pumpOperations.starts = h.starts ∧
      h.pumpOperations.state.job = h.state.job := by
  have heq : h.outstanding = operation :: h.operationCalls := by
    rw [outstanding, hw.operations_eq]
    rfl
  obtain hrests | ⟨running, hruns⟩ := hsingle
  · obtain ⟨hinv, hstarts, hstate⟩ := inv_pump (heq ▸ hcore)
      (.inr ⟨operation, hw.operations_eq, hw.current⟩) (heq ▸ hpoll) hrests
    exact ⟨hinv, hstarts, congrArg (·.job) hstate⟩
  · have hsame : h.pumpOperations = h := if_pos (by simp [hruns.running])
    rw [hsame]
    exact ⟨⟨heq ▸ hcore, .inr ⟨operation, hw⟩, heq ▸ hpoll, .inr ⟨running, hruns⟩⟩, rfl, rfl⟩

theorem Inv.rests_or_runs (hi : Inv h) : Rests h ∨ ∃ running, Runs h running :=
  hi.single.imp_left And.left

/-- The timer queues its poll: no other one is queued or running. -/
theorem Inv.pollTimerFired (hi : Inv h) {timer : JobOperation} (htimer : h.pollTimer = some timer)
    (hcareful : h.activeOperation ≠ some .poll) : Keeps h (h.pollTimerFired timer) := by
  obtain ⟨hcurrent, hphase, hjob, hnone⟩ := hi.core.timer timer htimer
  -- a timer is set only when no operation waits
  have hempty : h.operations = [] := hi.operations_nil hnone
  -- and no poll runs: this is where the run must be careful
  have hqueued : h.pollQueued = false := by
    rw [Bool.eq_false_iff]
    intro hqueued
    obtain ⟨operation, hmem, hkind⟩ := hi.pollQueued hqueued
    rw [outstanding, hempty, List.nil_append] at hmem
    obtain hrests | ⟨running, hruns⟩ := hi.rests_or_runs
    · cases hrests.calls_eq ▸ hmem
    · cases List.mem_singleton.mp (hruns.calls_eq ▸ hmem)
      exact hcareful (hruns.active_eq.trans (congrArg some hkind))
  have hmem : ∀ operation ∈ h.operationCalls, operation ∈ h.outstanding :=
    fun _ hmem => List.mem_append_right _ hmem
  have hguard : operationIsCurrent h.clearPollTimer (.poll timer) = true := hcurrent
  unfold RestoreWorkflow.pollTimerFired
  dsimp only
  rw [if_neg (by
    have hactive : h.clearPollTimer.state.phase = .active := hphase
    have hid : h.clearPollTimer.state.job.map (·.jobId) = some timer.jobId := hjob
    simp [hguard, hactive, hid])]
  simp only [enqueueOperation, RestoreOperation.kind, clearPollTimer, hqueued, Bool.false_or,
    decide_eq_true_eq, hcareful, if_false, hempty, List.nil_append]
  -- so the poll is queued, and issued at once
  obtain ⟨hinv, hstarts, hkept⟩ := inv_push (.poll timer)
    (h := { h with pollTimer := none, pollQueued := true, operations := [.poll timer] })
    { phase := hi.core.phase
      calls := hi.core.calls
      le := fun operation hop => by
        rcases List.mem_cons.mp hop with rfl | hop
        · obtain ⟨_, hgeneration, hintent⟩ := operationIsCurrent_iff.mp hcurrent
          exact ⟨Nat.le_of_eq hgeneration, Nat.le_of_eq hintent⟩
        · exact hi.core.le operation (hmem operation hop)
      job := fun _ _ _ _ => hphase
      openJob := fun operation hop hop' htracks => by
        rcases List.mem_cons.mp hop with rfl | hop
        · exact absurd (by simp [TracksJob, RestoreOperation.kind]) htracks
        · cases hop'.symm.trans (hnone operation (hmem operation hop))
      timer := fun other hother => by cases hother
      cancelPending := fun hpending => by
        obtain ⟨operation, hop, htrue, _⟩ := hi.core.cancelPending hpending
        cases htrue.symm.trans (hnone operation hop)
      tracked := fun _ _ => .inr ⟨.poll timer, List.mem_cons_self, hcurrent⟩ }
    ⟨rfl, hcurrent, fun hkind => (by cases hkind), fun hkind => (by cases hkind),
      fun running hrunning => hnone running (hmem running hrunning)⟩
    (fun _ => ⟨.poll timer, List.mem_cons_self, rfl⟩)
    (hi.rests_or_runs.imp (fun hrests => { hrests with }) fun ⟨running, hruns⟩ =>
      ⟨running, { hruns with }⟩)
  exact ⟨hinv, hstarts, fun _ => hkept⟩

/-- With another intent, the operations that run are out of date. -/
theorem Inv.not_next (hi : Inv h) {operation : RestoreOperation}
    (hmem : operation ∈ h.operationCalls)
    (s' : RestoreWorkflowState) :
    operationIsCurrent { h with state := s', operationIntent := h.operationIntent + 1 } operation =
      false := by
  rw [Bool.eq_false_iff]
  intro hcurrent
  have hintent := (operationIsCurrent_iff.mp hcurrent).2.2
  have hle := (hi.core.le operation (List.mem_append_right _ hmem)).2
  have hintent : operation.intent = h.operationIntent + 1 := hintent
  omega

/-- A new operation with an intent of its own, behind nothing. -/
theorem Inv.pushNext (hi : Inv h) (hmounted : h.mounted = true) (operation : RestoreOperation)
    (hgeneration : operation.generation = h.generation)
    (hintent : operation.intent = h.operationIntent + 1) (s' : RestoreWorkflowState)
    (hphase : s'.phase = h.state.phase) (hjob : s'.job = h.state.job)
    (htracks : TracksJob operation → h.state.phase = .active)
    (hopen : ¬TracksJob operation → h.state.phase = .finished)
    (pollQueued cancelPending openPending : Bool)
    (hqueued : pollQueued = true → ∃ next ∈ operation :: h.operationCalls, next.kind = .poll)
    (hcancel : cancelPending = true ↔ operation.kind = .cancel)
    (hopenPending : operation.kind = .openJob → openPending = true) :
    Keeps h (pumpOperations { h with
      state := s'
      operationIntent := h.operationIntent + 1
      pollTimer := none
      operations := [operation]
      pollQueued
      cancelPending
      openPending }) := by
  have hcurrent : operationIsCurrent { h with
      state := s', operationIntent := h.operationIntent + 1 } operation = true :=
    operationIsCurrent_iff.mpr ⟨hmounted, hgeneration, hintent⟩
  -- the new intent outdates every operation before it
  have hnot : ∀ next ∈ operation :: h.operationCalls, operationIsCurrent { h with
      state := s', operationIntent := h.operationIntent + 1 } next = true → next = operation := by
    intro next hnext htrue
    rcases List.mem_cons.mp hnext with rfl | hnext
    · rfl
    · cases htrue.symm.trans (hi.not_next hnext s')
  obtain ⟨hinv, hstarts, hkept⟩ := inv_push operation
    (h := { h with
      state := s'
      operationIntent := h.operationIntent + 1
      pollTimer := none
      operations := [operation]
      pollQueued
      cancelPending
      openPending })
    { phase := by
        have hok := hi.core.phase
        unfold PhaseOk at hok ⊢
        rw [hphase, hjob]
        exact hok
      calls := by
        show CallsOk h.generation s'.phase h.destinationCalls h.startCalls
        rw [hphase]
        exact hi.core.calls
      le := fun next hnext => by
        rcases List.mem_cons.mp hnext with rfl | hnext
        · exact ⟨Nat.le_of_eq hgeneration, Nat.le_of_eq hintent⟩
        · obtain ⟨hle, hle'⟩ := hi.core.le next (List.mem_append_right _ hnext)
          exact ⟨hle, Nat.le_succ_of_le hle'⟩
      job := fun next hnext htrue hkind => by
        cases hnot next hnext htrue
        exact hphase.trans (htracks hkind)
      openJob := fun next hnext htrue hkind => by
        cases hnot next hnext htrue
        exact hphase.trans (hopen hkind)
      timer := fun timer htimer => by cases htimer
      cancelPending := fun hpending =>
        ⟨operation, List.mem_cons_self, hcurrent, hcancel.mp hpending⟩
      tracked := fun _ _ => .inr ⟨operation, List.mem_cons_self, hcurrent⟩ }
    ⟨rfl, hcurrent, hcancel.mpr, hopenPending, fun next hnext => hi.not_next hnext s'⟩ hqueued
    (hi.rests_or_runs.imp (fun hrests => { hrests with }) fun ⟨running, hruns⟩ =>
      ⟨running, { hruns with }⟩)
  exact ⟨hinv, hstarts, fun _ => hkept.trans hjob⟩

theorem enqueueOperation_cancel {operation : JobOperation}
    (hfilter : h.operations.filter (·.kind ≠ .poll) = []) :
    h.enqueueOperation (.cancel operation) = pumpOperations { h with
      operations := [.cancel operation]
      pollQueued := if h.operations = [] then h.pollQueued else false } := by
  show pumpOperations { h with
    operations := h.operations.filter (·.kind ≠ .poll) ++ [.cancel operation]
    pollQueued :=
      if (h.operations.filter (·.kind ≠ .poll)).length ≠ h.operations.length then false
      else h.pollQueued } = _
  simp only [hfilter, List.nil_append, List.length_nil]
  by_cases hempty : h.operations = []
  · simp [hempty]
  · have hlength : 0 ≠ h.operations.length := Ne.symm (mt List.length_eq_zero_iff.mp hempty)
    rw [if_pos hlength, if_neg hempty]

theorem enqueueOperation_openJob (operation : OpenOperation) :
    h.enqueueOperation (.openJob operation) =
      pumpOperations { h with operations := h.operations ++ [.openJob operation] } :=
  rfl

/-- A cancellation takes the poll that waits out of the queue. -/
theorem Inv.cancel (hi : Inv h) (hmounted : h.mounted = true) : Keeps h h.cancel := by
  unfold RestoreWorkflow.cancel
  split
  · exact hi.keeps
  · next job hjob =>
    split
    · exact hi.keeps
    · next haccepts =>
      simp only [Bool.or_eq_true, decide_eq_true_eq, not_or, Decidable.not_not, Bool.not_eq_true]
        at haccepts
      obtain ⟨⟨⟨hphase, _⟩, hpending⟩, _⟩ := haccepts
      have hfilter : h.operations.filter (·.kind ≠ .poll) = [] := by
        obtain hempty | ⟨next, hw⟩ := hi.queue
        · rw [hempty]
          rfl
        · have hmem := hw.mem_outstanding
          have hpoll : next.kind = .poll := by
            cases hkind : next.kind with
            | poll => rfl
            | cancel => cases hpending.symm.trans (hw.cancel hkind)
            | openJob =>
              have := hi.core.openJob next hmem hw.current fun htracks => htracks hkind
              cases hphase.symm.trans this
          rw [hw.operations_eq]
          simp [hpoll]
      dsimp only
      rw [enqueueOperation_cancel]
      · dsimp only [clearPollTimer, commitState]
        refine hi.pushNext hmounted
          (.cancel ⟨h.generation, h.operationIntent + 1, job.jobId, job.planId⟩)
          rfl rfl { h.state with operationPhase := .cancelRequest, error := none } rfl rfl
          (fun _ => hphase) ?_ _ true h.openPending ?_ ?_ ?_
        · exact fun hopen => absurd (by simp [TracksJob, RestoreOperation.kind]) hopen
        · intro hqueued
          -- the queue was empty, so the poll runs
          obtain ⟨hempty, hqueued⟩ : h.operations = [] ∧ h.pollQueued = true := by
            by_cases hempty : h.operations = []
            · exact ⟨hempty, (if_pos hempty).symm.trans hqueued⟩
            · cases (if_neg hempty).symm.trans hqueued
          obtain ⟨next, hnext, hkind⟩ := hi.pollQueued hqueued
          rw [outstanding, hempty, List.nil_append] at hnext
          exact ⟨next, List.mem_cons_of_mem _ hnext, hkind⟩
        · exact ⟨fun _ => rfl, fun _ => rfl⟩
        · intro hkind
          cases hkind
      · exact hfilter

theorem Inv.openDestination (hi : Inv h) (hmounted : h.mounted = true) :
    Keeps h h.openDestination := by
  unfold RestoreWorkflow.openDestination
  split
  · exact hi.keeps
  · next job hjob =>
    split
    · exact hi.keeps
    · next haccepts =>
      simp only [Bool.or_eq_true, decide_eq_true_eq, not_or, Decidable.not_not, Bool.not_eq_true]
        at haccepts
      obtain ⟨⟨⟨hphase, _⟩, hpending⟩, _⟩ := haccepts
      have hactive : h.state.phase ≠ .active := by
        rw [hphase]
        decide
      -- in a finished workflow a waiting operation could only open the destination
      have hempty : h.operations = [] := by
        refine hi.queue.resolve_right ?_
        rintro ⟨next, hw⟩
        have hmem := hw.mem_outstanding
        have hopen : next.kind = .openJob := by
          by_contra hkind
          exact hactive (hi.core.job next hmem hw.current hkind)
        cases hpending.symm.trans (hw.openJob hopen)
      -- nor can a cancellation be pending
      have hcancel : h.cancelPending = false := by
        apply hi.core.cancelPending_eq
        intro next hnext hcurrent hkind
        have htracks : TracksJob next := by simp [TracksJob, hkind]
        exact hactive (hi.core.job next hnext hcurrent htracks)
      have htimer := hi.timer_none hactive
      dsimp only
      rw [enqueueOperation_openJob]
      dsimp only [commitState]
      rw [hempty, List.nil_append]
      have hkeeps := hi.pushNext hmounted
        (.openJob ⟨h.generation, h.operationIntent + 1, job.jobId⟩) rfl rfl
        { h.state with operationPhase := .opening, error := none } rfl rfl
        (fun htracks => absurd rfl htracks) (fun _ => hphase) h.pollQueued h.cancelPending
        true ?_ ?_
        fun _ => rfl
      · rw [← htimer] at hkeeps
        exact hkeeps
      · intro hqueued
        obtain ⟨next, hnext, hkind⟩ := hi.pollQueued hqueued
        rw [outstanding, hempty, List.nil_append] at hnext
        exact ⟨next, List.mem_cons_of_mem _ hnext, hkind⟩
      · rw [hcancel]
        exact ⟨fun hfalse => (by cases hfalse), fun hkind => (by cases hkind)⟩

/-! ## Effects -/

/-- A new generation: nothing is queued, and what runs is out of date. -/
theorem Inv.bump (hi : Inv h) (mounted : Bool) (selection : Option CandidateSelectionSummaryDto)
    (s' : RestoreWorkflowState) (hphase : PhaseOk s')
    (hactive : mounted = true → s'.phase ≠ .active)
    (destinationInFlight planInFlight startInFlight : Bool) :
    Inv { h with
      state := s'
      selection
      mounted
      generation := h.generation + 1
      operationIntent := h.operationIntent + 1
      operations := []
      pollTimer := none
      pollQueued := false
      destinationInFlight
      planInFlight
      startInFlight
      cancelPending := false
      openPending := false
      consecutiveInternalPollFailures := 0 } := by
  refine ⟨?_, .inl rfl, fun hqueued => (by cases hqueued), ?_⟩
  -- the new generation outdates every operation in flight
  · have hnot : ∀ operation ∈ h.operationCalls, operation.generation ≠ h.generation + 1 := by
      intro operation hmem
      have := (hi.core.le operation (List.mem_append_right _ hmem)).1
      omega
    exact {
      phase := hphase
      calls := ⟨hi.core.calls.destination.later, hi.core.calls.start.later⟩
      le := fun operation hmem => by
        obtain ⟨hle, hle'⟩ := hi.core.le operation (List.mem_append_right _ hmem)
        exact ⟨Nat.le_succ_of_le hle, Nat.le_succ_of_le hle'⟩
      job := fun operation hmem hcurrent =>
        absurd (operationIsCurrent_iff.mp hcurrent).2.1 (hnot operation hmem)
      openJob := fun operation hmem hcurrent =>
        absurd (operationIsCurrent_iff.mp hcurrent).2.1 (hnot operation hmem)
      timer := fun timer htimer => by cases htimer
      cancelPending := fun hpending => by cases hpending
      tracked := fun hmounted heq => absurd heq (hactive hmounted) }
  · exact hi.single.imp (fun hrests => ⟨{ hrests.1 with }, rfl⟩)
      fun ⟨operation, hruns⟩ => ⟨operation, { hruns with }⟩

theorem Inv.scanChanged (hi : Inv h) (mounted : Bool)
    (selection : Option CandidateSelectionSummaryDto)
    (scanId : Option String) : Inv ({ h with mounted, selection }.scanChanged scanId) :=
  hi.bump mounted selection
    (initialRestoreState scanId (currentRevision { h with mounted, selection })) rfl
    (fun _ => by show RestoreWorkflowPhase.idle ≠ .active; decide) false false false

theorem Inv.mount (hi : Inv h) : Inv h.mount ∧ h.mount.starts = h.starts := by
  have hkeeps := (hi.scanChanged true h.selection h.state.scanId).selectionChanged
  exact ⟨hkeeps.inv, hkeeps.starts_eq⟩

theorem Inv.unmount (hi : Inv h) : Keeps h h.unmount :=
  ⟨hi.bump false h.selection h.state hi.core.phase (fun hfalse => by cases hfalse)
    h.destinationInFlight h.planInFlight h.startInFlight, rfl, fun _ => rfl⟩

theorem Inv.select (hi : Inv h) (selection : Option CandidateSelectionSummaryDto) :
    Inv { h with selection } :=
  ⟨{ hi.core with }, hi.queue.imp_right fun ⟨operation, hw⟩ => ⟨operation, { hw with }⟩,
    hi.pollQueued, hi.single.imp (fun hrests => ⟨{ hrests.1 with }, hrests.2⟩)
      fun ⟨operation, hruns⟩ => ⟨operation, { hruns with }⟩⟩

/-- With the same scan only the selection changes. -/
theorem Inv.rendered (hi : Inv h) (scanId : Option String)
    (selection : Option CandidateSelectionSummaryDto) :
    Inv (h.rendered scanId selection) ∧ (h.rendered scanId selection).starts = h.starts ∧
      (scanId = h.state.scanId → h.state.phase = .finished →
        (h.rendered scanId selection).state.job = h.state.job) := by
  unfold RestoreWorkflow.rendered
  dsimp only
  split
  · next hscan =>
    have hkeeps := (hi.scanChanged h.mounted selection scanId).selectionChanged
    exact ⟨hkeeps.inv, hkeeps.starts_eq, fun heq => absurd heq.symm hscan⟩
  · have hkeeps := (hi.select selection).selectionChanged
    exact ⟨hkeeps.inv, hkeeps.starts_eq, fun _ => hkeeps.job_eq⟩

theorem Inv.close (hi : Inv h) : Inv h.close ∧ h.close.starts = h.starts := by
  unfold RestoreWorkflow.close
  split
  · exact ⟨hi, rfl⟩
  · refine ⟨?_, rfl⟩
    exact hi.bump h.mounted h.selection (initialRestoreState h.state.scanId h.currentRevision) rfl
      (fun _ => by show RestoreWorkflowPhase.idle ≠ .active; decide) _ _ _

/-! ## Runs -/

theorem Keeps.stepTracks (hi : Inv h) (hkeeps : Keeps h h') {e : Event}
    (houtdated : Outdated h e → h'.state = h.state) : StepTracks h e h' where
  starts := .inl hkeeps.starts_eq
  finished := fun _ _ hjob hterminal =>
    (hkeeps.job_eq (hi.core.phase.finished hjob hterminal)).trans hjob
  outdated := houtdated

theorem Inv.execute (hi : Inv h) (hmounted : h.mounted = true) (runtimeAvailable : Bool)
    (command : Command) :
    Inv (h.execute runtimeAvailable command) ∧
      StepTracks h (.command command) (h.execute runtimeAvailable command) := by
  have hkept : ∀ h', Keeps h h' → Inv h' ∧ StepTracks h (.command command) h' :=
    fun h' hkeeps => ⟨hkeeps.inv, hkeeps.stepTracks hi fun houtdated => houtdated.elim⟩
  cases command with
  | chooseDestination => exact hkept _ (hi.chooseDestination runtimeAvailable)
  | setPartialFilePolicy policy => exact hkept _ (hi.setPartialFilePolicy policy)
  | setBestEffortConsent consent => exact hkept _ (hi.setBestEffortConsent consent)
  | createPlan => exact hkept _ hi.createPlan
  | start =>
    obtain ⟨hinv, hjob, hstarts⟩ := hi.start
    refine ⟨hinv, hstarts, fun _ _ hsome hterminal => ?_, fun houtdated => houtdated.elim⟩
    exact (hjob (hi.core.phase.finished hsome hterminal)).trans hsome
  | cancel => exact hkept _ (hi.cancel hmounted)
  | openDestination => exact hkept _ (hi.openDestination hmounted)
  | close =>
    obtain ⟨hinv, hstarts⟩ := hi.close
    exact ⟨hinv, .inl hstarts, fun hcloses => absurd trivial hcloses,
      fun houtdated => houtdated.elim⟩

/-- Every careful step keeps the invariant. -/
theorem inv_next {runtimeAvailable : Bool} {e : Event} (hi : Inv h) (hcareful : Careful h e)
    (hnext : h.next runtimeAvailable e = some h') : Inv h' ∧ StepTracks h e h' := by
  -- one case for each event; what an answer finds is said by the lemma of its handler
  cases e with
  | mount =>
    obtain ⟨_, heq⟩ := Option.ite_none_right_eq_some.mp hnext
    cases heq
    obtain ⟨hinv, hstarts⟩ := hi.mount
    exact ⟨hinv, .inl hstarts, fun hcloses => absurd trivial hcloses,
      fun houtdated => houtdated.elim⟩
  | unmount =>
    obtain ⟨_, heq⟩ := Option.ite_none_right_eq_some.mp hnext
    cases heq
    exact ⟨hi.unmount.inv, hi.unmount.stepTracks hi fun houtdated => houtdated.elim⟩
  | render scanId selection =>
    obtain ⟨_, heq⟩ := Option.ite_none_right_eq_some.mp hnext
    cases heq
    obtain ⟨hinv, hstarts, hjob⟩ := hi.rendered scanId selection
    refine ⟨hinv, .inl hstarts, fun hcloses _ hsome hterminal => ?_,
      fun houtdated => houtdated.elim⟩
    exact (hjob (Decidable.not_not.mp hcloses) (hi.core.phase.finished hsome hterminal)).trans hsome
  | command command =>
    obtain ⟨hmounted, heq⟩ := Option.ite_none_right_eq_some.mp hnext
    cases heq
    exact hi.execute hmounted runtimeAvailable command
  | pollTimer =>
    obtain ⟨timer, htimer, rfl⟩ := Option.map_eq_some_iff.mp hnext
    have hkeeps := hi.pollTimerFired htimer hcareful
    exact ⟨hkeeps.inv, hkeeps.stepTracks hi fun houtdated => houtdated.elim⟩
  | destinationAnswer call answer =>
    obtain ⟨hcall, heq⟩ := Option.ite_none_right_eq_some.mp hnext
    cases heq
    obtain ⟨hkeeps, houtdated⟩ := hi.destinationAnswered hcall answer
    exact ⟨hkeeps.inv, hkeeps.stepTracks hi houtdated⟩
  | planAnswer call answer =>
    obtain ⟨_, heq⟩ := Option.ite_none_right_eq_some.mp hnext
    cases heq
    obtain ⟨hkeeps, houtdated⟩ := hi.planAnswered call answer hcareful
    exact ⟨hkeeps.inv, hkeeps.stepTracks hi houtdated⟩
  | startAnswer call answer =>
    obtain ⟨hcall, heq⟩ := Option.ite_none_right_eq_some.mp hnext
    cases heq
    obtain ⟨hkeeps, houtdated⟩ := hi.startAnswered hcall answer
    exact ⟨hkeeps.inv, hkeeps.stepTracks hi houtdated⟩
  | pollAnswer operation answer =>
    obtain ⟨hcall, heq⟩ := Option.ite_none_right_eq_some.mp hnext
    cases heq
    have hkeeps := hi.pollAnswered hcall answer
    exact ⟨hkeeps.inv, hkeeps.stepTracks hi fun houtdated => houtdated.elim⟩
  | cancelAnswer operation answer =>
    obtain ⟨hcall, heq⟩ := Option.ite_none_right_eq_some.mp hnext
    cases heq
    have hkeeps := hi.cancelAnswered hcall answer
    exact ⟨hkeeps.inv, hkeeps.stepTracks hi fun houtdated => houtdated.elim⟩
  | openAnswer operation answer =>
    obtain ⟨hcall, heq⟩ := Option.ite_none_right_eq_some.mp hnext
    cases heq
    have hkeeps := hi.openAnswered hcall answer
    exact ⟨hkeeps.inv, hkeeps.stepTracks hi fun houtdated => houtdated.elim⟩

theorem outdatedIgnored (h : RestoreWorkflow) : OutdatedIgnored h where
  poll := fun _ _ hold => by rw [pollSettled_outdated hold]
  cancel := fun _ _ hold => by rw [cancelSettled_outdated hold]
  openJob := fun _ _ hold => by rw [openSettled_outdated hold]

/-- What is tracked in every state that careful steps lead to, and after one more of them. -/
theorem reachable_tracks (runtimeAvailable : Bool) (scanId : Option String)
    (selection : Option CandidateSelectionSummaryDto) (h : RestoreWorkflow)
    (hreach : Reachable (next runtimeAvailable) Careful (initial scanId selection) h) :
    Tracks h ∧ OutdatedIgnored h ∧ ∀ e h', Careful h e → h.next runtimeAvailable e = some h' →
      StepTracks h e h' := by
  have hi := hreach.invariant (inv_initial scanId selection) fun _ _ _ hi hcareful hnext =>
    (inv_next hi hcareful hnext).1
  exact ⟨hi.tracks, outdatedIgnored h, fun e h' hcareful hnext => (inv_next hi hcareful hnext).2⟩

/-! ## A poll of an earlier scan -/

def oneSelected : CandidateSelectionSummaryDto := ⟨"1", "1", "1", "0", "4", "0", "0", "0", "1"⟩

def destination : DestinationSummaryDto := ⟨1, "d", "D:", "DATA", "NTFS", "100", "different"⟩

def planOf (scanId : String) : RestorePlanSummaryDto :=
  ⟨1, "p", "digest", scanId, "d", "1", .rename, .completeOnly, "1", "1", "0", "4", "0"⟩

def jobOf (jobId : String) (status : RestoreJobStatusDto) : RestoreJobSnapshotDto :=
  ⟨1, jobId, "p", status, "1", "0", "0", "0", "4", "0", none, [], none⟩

/-- A job is planned and started, up to the answer. -/
def jobEvents (generation : Nat) (scanId jobId : String) : List Event :=
  [.command .chooseDestination, .destinationAnswer ⟨generation, scanId⟩ (.ok (some destination)),
    .command .createPlan,
    .planAnswer ⟨generation, scanId, "1", "d", .rename, .completeOnly⟩ (.ok (planOf scanId)),
    .command .start, .startAnswer ⟨generation, "p"⟩ (.ok (jobOf jobId .running))]

/-- The job of a scan is polled. -/
def pollEvents : List Event := .mount :: jobEvents 1 "s1" "j1" ++ [.pollTimer]

theorem reachable_tracks_poll :
    ∃ h, Reachable.run (next true) (initial (some "s1") (some oneSelected)) pollEvents = some h ∧
      h.state.job = some (jobOf "j1" .running) ∧ h.pollTimer = none ∧
      h.operationCalls = [.poll ⟨1, 1, "j1", "p"⟩] ∧ Tracks h := by
  have hallowed : Reachable.Allowed (next true) Careful (initial (some "s1") (some oneSelected))
      pollEvents :=
    ⟨trivial, trivial, trivial, trivial, fun _ => rfl, trivial, trivial,
      show (none : Option RestoreOperationKind) ≠ some .poll by decide, trivial⟩
  exact ⟨_, rfl, rfl, rfl, rfl, (reachable_tracks true (some "s1") (some oneSelected) _
    (Reachable.init.of_run hallowed rfl)).1⟩

/-- While the poll is running another scan is opened, and the timer of its job fires. -/
def staleEvents : List Event :=
  pollEvents ++ .render (some "s2") (some oneSelected) :: jobEvents 2 "s2" "j2" ++ [.pollTimer]

/-- The second job is active, and nothing will poll it. -/
theorem stale_poll_drops_timer :
    ∃ h, Reachable (next true) (fun _ _ => True) (initial (some "s1") (some oneSelected)) h ∧
      h.state.phase = .active ∧ h.state.job = some (jobOf "j2" .running) ∧ h.pollTimer = none ∧
      h.outstanding = [.poll ⟨1, 1, "j1", "p"⟩] ∧ ¬Tracks h := by
  refine ⟨_, Reachable.init.of_run (Reachable.allowed_of_forall (fun _ _ => trivial) _ staleEvents)
    rfl, rfl, rfl, rfl, rfl, fun htracks => ?_⟩
  rcases htracks.tracked rfl rfl (by rintro _ ⟨⟩; rfl) with htimer |
    ⟨operation, hmem, _, hgeneration⟩
  · exact htimer rfl
  · cases List.mem_singleton.mp hmem
    cases hgeneration

end Undelete.Desktop.RestoreWorkflow
