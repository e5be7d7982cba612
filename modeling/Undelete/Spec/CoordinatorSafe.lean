import Undelete.Spec.CoordinatorSteps
import Undelete.Spec.CursorCorrect

/-!
# Safety of the restore coordinator

What a step may do to the coordinator: retain one more destination or plan, commit a start that is
authorized, or undo a start whose worker was not scheduled. Nothing else changes it, and a worker is
scheduled only for a start that was authorized.

## Key results

- `run_safe`: limits, retention, one worker for each plan, rollbacks and errors, at every step of
  every interleaving.
- `run_authorized`: every worker belongs to a start that was authorized when it was committed.
-/

namespace Undelete.Desktop

open Except Restore RestoreCoordinatorInner

variable {Capability Root : Type}

namespace World

variable {w w' : World Capability Root} {past : List (Vector UInt8 16)} {r : Nat}

/-- What authorizes the start `r` of a plan: the session that the storage holds, the destination
    that the coordinator retains, and the answer of this destination for this start. -/
structure Authorized (w : World Capability Root) (r : Nat) (session : ScanSession)
    (plan : Arc ImmutableRestorePlan) (destination : RetainedDestinationAuthority Capability)
    (current : DestinationRevalidation) : Prop where
  held : w.retained.scans plan.value.summary.scanId = some session
  source : plan.value.source = session.results.source
  revision : plan.value.selectionRevision = session.state.selectionRevision
  ordered : plan.value.orderedCandidateIds =
    (session.results.candidates.filter (·.candidate.id ∈ session.state.selected)).map
      (·.candidate.id)
  startable : w.Retains plan false
  retained : w.inner.destinations.lookup plan.value.summary.destinationId = some destination
  sameScan : destination.scanId = plan.value.summary.scanId
  sameSource : destination.source = plan.value.source
  answered : .revalidated r destination.admitted.capability (.ok current) ∈ w.trace
  revalidates : Revalidates plan.value.source destination.baseline current
  space : ∃ required, parseInternalDecimal plan.value.summary.logicalBytes = .ok required ∧
    required ≤ current.freeBytes

/-- The job of a start that is authorized. -/
def Starts (w : World Capability Root) (r : Nat) (job : RetainedRestoreJob) : Prop :=
  ∃ session plan destination current, w.Authorized r session plan destination current ∧
    job.planId = plan.value.summary.planId ∧ job.jobId = plan.value.engineJobId ∧
    job.destinationId = plan.value.summary.destinationId ∧
    job.itemsTotal = plan.value.orderedCandidateIds.length

/-- What a step may make of the coordinator, and what it replies when it changes it. -/
inductive Changes (w w' : World Capability Root) : CoordinatorStep Capability Root → Prop where
  | keeps (step : CoordinatorStep Capability Root) (hinner : w'.inner = w.inner) : w.Changes w' step
  | admits (step : CoordinatorStep Capability Root) (id : String)
      (destination : RetainedDestinationAuthority Capability)
      (summary : Option DestinationSummaryDto) (hnew : id ∉ w.inner.destinations)
      (hinner : w'.inner =
        { w.inner with destinations := w.inner.destinations.insert id destination })
      (htrace : w'.trace = w.trace ++ [.replied (.destination (.ok summary))]) : w.Changes w' step
  | plans (step : CoordinatorStep Capability Root) (plan : Arc ImmutableRestorePlan)
      (summary : RestorePlanSummaryDto) (hnew : plan.value.summary.planId ∉ w.inner.plans)
      (hinner : w'.inner =
        { w.inner with plans := w.inner.plans.insert plan.value.summary.planId ⟨plan, false⟩ })
      (htrace : w'.trace = w.trace ++ [.replied (.plan (.ok summary))]) : w.Changes w' step
  | starts (r : Nat) (plan : Arc ImmutableRestorePlan) (job : Arc RetainedRestoreJob)
      (hplan : w.Retains plan false) (hnew : job.value.jobId ∉ w.inner.jobs)
      (hsame : plan.value.summary.planId = job.value.planId) (hstarts : w.Starts r job.value)
      (hinner : w'.inner =
        { w.inner with
          plans := w.inner.plans.insert plan.value.summary.planId ⟨plan, true⟩
          jobs := w.inner.jobs.insert job.value.jobId job })
      (htrace : w'.trace = w.trace) : w.Changes w' (.commit r)
  | undoes (r : Nat) (committed : CommittedRestoreStart Root) (error : DesktopRestoreError)
      (hrequest : w.requests r = some (.unscheduled committed error))
      (hcommitted : w.Committed committed)
      (hinner : w'.inner =
        { w.inner with
          plans := w.inner.plans.insert committed.plan.immutable.value.summary.planId
            ⟨committed.plan.immutable, false⟩
          jobs := w.inner.jobs.erase committed.job.value.jobId }) : w.Changes w' (.rollback r)

/-! ## What a change leaves -/

theorem Changes.keepsDestination {step : CoordinatorStep Capability Root} (h : w.Changes w' step)
    {id : String} {destination : RetainedDestinationAuthority Capability}
    (hlookup : w.inner.destinations.lookup id = some destination) :
    w'.inner.destinations.lookup id = some destination := by
  cases h with
  | keeps _ hinner => rw [hinner]; exact hlookup
  | admits _ id' destination' summary hnew hinner =>
    have hne : id ≠ id' := by
      intro heq
      rw [← AList.lookup_eq_none, ← heq, hlookup] at hnew
      cases hnew
    rw [hinner]
    exact (AList.lookup_insert_ne hne).trans hlookup
  | plans _ _ _ _ hinner => rw [hinner]; exact hlookup
  | starts _ _ _ _ _ _ _ hinner => rw [hinner]; exact hlookup
  | undoes _ _ _ _ _ hinner => rw [hinner]; exact hlookup

/-- A plan stays when a plan is inserted that is new, or that replaces itself. -/
theorem lookup_insert_plan {plans : HashMap RetainedRestorePlan} {id id' : String}
    {plan plan' : RetainedRestorePlan} (hlookup : plans.lookup id = some plan)
    (hsame : id = id' → plan'.immutable = plan.immutable) :
    ∃ started, (plans.insert id' plan').lookup id = some ⟨plan.immutable, started⟩ := by
  by_cases heq : id = id'
  · refine ⟨plan'.started, ?_⟩
    rw [← hsame heq, heq]
    exact AList.lookup_insert plans
  · exact ⟨plan.started, (AList.lookup_insert_ne heq).trans hlookup⟩

theorem Changes.keepsPlan {step : CoordinatorStep Capability Root} (h : w.Changes w' step)
    {id : String} {plan : RetainedRestorePlan} (hlookup : w.inner.plans.lookup id = some plan) :
    ∃ started, w'.inner.plans.lookup id = some ⟨plan.immutable, started⟩ := by
  cases h with
  | keeps _ hinner => rw [hinner]; exact ⟨plan.started, hlookup⟩
  | admits _ _ _ _ _ hinner => rw [hinner]; exact ⟨plan.started, hlookup⟩
  -- a new plan has a new id, and a start or its rollback changes the flag only
  | plans _ plan' _ hnew hinner =>
    rw [hinner]
    apply lookup_insert_plan hlookup
    intro heq
    rw [← heq, ← AList.lookup_eq_none, hlookup] at hnew
    cases hnew
  | starts _ plan' _ hplan _ _ _ hinner =>
    rw [hinner]
    apply lookup_insert_plan hlookup
    intro heq
    unfold Retains at hplan
    rw [← heq, hlookup] at hplan
    cases hplan
    rfl
  | undoes _ committed _ _ hcommitted hinner =>
    rw [hinner]
    apply lookup_insert_plan hlookup
    intro heq
    have hplan := hcommitted.plan
    unfold Retains at hplan
    rw [← heq, hlookup] at hplan
    cases hplan
    rfl

theorem Changes.addsJob {step : CoordinatorStep Capability Root} (h : w.Changes w' step)
    {id : String} {job : Arc RetainedRestoreJob} (hlookup : w'.inner.jobs.lookup id = some job) :
    w.inner.jobs.lookup id = some job ∨ ∃ r plan, step = .commit r ∧ w.Starts r job.value ∧
      w.Retains plan false ∧ w'.Retains plan true ∧
      plan.value.summary.planId = job.value.planId := by
  cases h with
  | keeps _ hinner => rw [hinner] at hlookup; exact .inl hlookup
  | admits _ _ _ _ _ hinner => rw [hinner] at hlookup; exact .inl hlookup
  | plans _ _ _ _ hinner => rw [hinner] at hlookup; exact .inl hlookup
  -- the only change that adds a job
  | starts r plan job' hplan hnew hsame hstarts hinner =>
    rw [hinner] at hlookup
    by_cases heq : id = job'.value.jobId
    · rw [heq, AList.lookup_insert] at hlookup
      cases hlookup
      refine .inr ⟨r, plan, rfl, hstarts, hplan, ?_, hsame⟩
      unfold Retains
      rw [hinner]
      exact AList.lookup_insert _
    · rw [AList.lookup_insert_ne heq] at hlookup
      exact .inl hlookup
  | undoes r committed error hrequest hcommitted hinner =>
    rw [hinner] at hlookup
    by_cases heq : id = committed.job.value.jobId
    · rw [heq, AList.lookup_erase] at hlookup
      cases hlookup
    · rw [AList.lookup_erase_ne heq] at hlookup
      exact .inl hlookup

theorem Changes.dropsJob {step : CoordinatorStep Capability Root} (h : w.Changes w' step)
    {id : String} {job : Arc RetainedRestoreJob} (hlookup : w.inner.jobs.lookup id = some job) :
    w'.inner.jobs.lookup id = some job ∨ ∃ r committed error, step = .rollback r ∧
      w.requests r = some (.unscheduled committed error) ∧ committed.job.value.jobId = id := by
  cases h with
  | keeps _ hinner => rw [hinner]; exact .inl hlookup
  | admits _ _ _ _ _ hinner => rw [hinner]; exact .inl hlookup
  | plans _ _ _ _ hinner => rw [hinner]; exact .inl hlookup
  | starts r plan job' hplan hnew hsame hstarts hinner =>
    have hne : id ≠ job'.value.jobId := by
      intro heq
      rw [← AList.lookup_eq_none, ← heq, hlookup] at hnew
      cases hnew
    rw [hinner]
    exact .inl ((AList.lookup_insert_ne hne).trans hlookup)
  | undoes r committed error hrequest hcommitted hinner =>
    by_cases heq : committed.job.value.jobId = id
    · exact .inr ⟨r, committed, error, rfl, hrequest, heq⟩
    · rw [hinner]
      exact .inl ((AList.lookup_erase_ne (Ne.symm heq)).trans hlookup)

/-! ## What each step changes -/

theorem Inv.undoes (h : Inv past w) {committed : CommittedRestoreStart Root}
    {error : DesktopRestoreError} (hrequest : w.requests r = some (.unscheduled committed error))
    (hinner : w'.inner = w.inner.rollbackStart committed) : w.Changes w' (.rollback r) := by
  have hcommitted : w.Committed committed := (h.requests r _ hrequest).2
  have hplan : w.inner.plans.lookup committed.plan.immutable.value.summary.planId =
      some ⟨committed.plan.immutable, true⟩ := hcommitted.plan
  rw [rollbackStart_eq hcommitted.job hplan] at hinner
  exact .undoes r committed error hrequest hcommitted hinner

theorem Changes.refuses {step : CoordinatorStep Capability Root} (h : w.Changes w' step)
    {new : List (CoordinatorEvent Capability)} {reply : RestoreReply}
    (hnew : w'.trace = w.trace ++ new) (hreply : .replied reply ∈ new)
    (herror : reply.isError = true) : w'.inner = w.inner ∨ ∃ r, step = .rollback r := by
  cases h with
  | keeps _ hinner => exact .inl hinner
  | admits _ _ _ summary _ _ htrace =>
    rw [htrace, List.append_cancel_left_eq] at hnew
    subst hnew
    cases List.mem_singleton.mp hreply
    cases herror
  | plans _ _ _ _ _ htrace =>
    rw [htrace, List.append_cancel_left_eq] at hnew
    subst hnew
    cases List.mem_singleton.mp hreply
    cases herror
  | starts _ _ _ _ _ _ _ _ htrace =>
    rw [htrace, List.self_eq_append_right] at hnew
    subst hnew
    cases hreply
  | undoes r => exact .inr ⟨r, rfl⟩

/-- The start that is undone never had a worker. -/
theorem Inv.undone (h : Inv past w) {committed : CommittedRestoreStart Root}
    {error : DesktopRestoreError} (hrequest : w.requests r = some (.unscheduled committed error)) :
    (w.rollback r).inner.jobs.lookup committed.job.value.jobId = none ∧
      (w.rollback r).Retains committed.plan.immutable false ∧
      (w.rollback r).trace.countP (·.schedulesPlan committed.job.value.planId) = 0 := by
  have hcommitted : w.Committed committed := (h.requests r _ hrequest).2
  have hplan : w.inner.plans.lookup committed.plan.immutable.value.summary.planId =
      some ⟨committed.plan.immutable, true⟩ := hcommitted.plan
  have hrollback : w.rollback r =
      { w with inner := w.inner.rollbackStart committed }.refuse r error := by
    unfold World.rollback
    rw [hrequest]
  rw [hrollback]
  unfold Retains
  show (w.inner.rollbackStart committed).jobs.lookup _ = none ∧
    (w.inner.rollbackStart committed).plans.lookup _ = _ ∧ (w.trace ++ [_]).countP _ = 0
  rw [rollbackStart_eq hcommitted.job hplan]
  have hquiet := h.unscheduled (.inr ⟨error, hrequest⟩)
  -- the rollback erases the job, and allows the plan to be started again
  refine ⟨AList.lookup_erase _ _, AList.lookup_insert _, ?_⟩
  rw [List.countP_append, hquiet]
  rfl

/-- The job of a start has moved no bytes, so its first snapshot is read. -/
theorem Inv.unspawned (h : Inv past w) {committed : CommittedRestoreStart Root}
    (hrequest : w.requests r = some (.committed committed)) (error : DesktopRestoreError) :
    (w.launch r (.error error)).requests r = some (.unscheduled committed error) := by
  obtain ⟨hbytes, hcurrent⟩ := h.idle r committed (.inl hrequest)
  have hsnapshot : ∃ snapshot, committed.job.value.snapshotFrom
      (w.cells committed.job.ptr).state = .ok snapshot := by
    unfold RetainedRestoreJob.snapshotFrom
    rw [hbytes, hcurrent]
    exact ⟨_, rfl⟩
  obtain ⟨snapshot, hsnapshot⟩ := hsnapshot
  unfold launch
  rw [hrequest]
  dsimp only
  rw [hsnapshot]
  exact if_pos rfl

theorem holds_move {r' : Nat} {request : Option (RestoreRequest Capability Root)}
    {committed : CommittedRestoreStart Root} (h : (w.move r' request).Holds r committed) :
    w.Holds r committed ∨ r = r' ∧ (request = some (.committed committed) ∨
      ∃ error, request = some (.unscheduled committed error)) := by
  unfold Holds at h
  by_cases hr : r = r'
  · rw [show (w.move r' request).requests r = request from if_pos hr] at h
    exact .inr ⟨hr, h⟩
  · rw [show (w.move r' request).requests r = w.requests r from if_neg hr] at h
    exact .inl h

theorem holds_done {r' : Nat} {committed : CommittedRestoreStart Root}
    (h : (w.move r' none).Holds r committed) : w.Holds r committed := by
  rcases holds_move h with h | ⟨_, hnone | ⟨error, hnone⟩⟩
  · exact h
  · cases hnone
  · cases hnone

/-- A request that is accepted holds no start yet. -/
theorem holds_accept {request : RestoreRequest Capability Root}
    {committed : CommittedRestoreStart Root} (h : (w.accept request).Holds r committed)
    (hrequest : request ≠ .committed committed)
    (hrequest' : ∀ error, request ≠ .unscheduled committed error) : w.Holds r committed := by
  unfold Holds at h
  by_cases hr : r = w.accepted
  · rw [show (w.accept request).requests r = some request from if_pos hr] at h
    rcases h with h | ⟨error, h⟩
    · exact absurd (Option.some.inj h) hrequest
    · exact absurd (Option.some.inj h) (hrequest' error)
  · rw [show (w.accept request).requests r = w.requests r from if_neg hr] at h
    exact h

variable [DecidableEq Capability] {env : CoordinatorEnv} {results : ResultsEnv}

/-- The start that a commit retains is authorized. -/
theorem Inv.starts (h : Inv past w) {scanId : String} {selectionRevision : Nat}
    {prepared : PreparedRestoreStart Capability Root} {committed : CommittedRestoreStart Root}
    {inner' : RestoreCoordinatorInner Capability}
    (hrequest : w.requests r = some (.prepared scanId selectionRevision prepared))
    (hcommit : w.retained.withRestoreStartSelection scanId selectionRevision (fun selection =>
      w.inner.commitPreparedRestoreStart selection prepared w.allocated) =
        .ok (.ok (committed, inner')))
    (hinner' : w'.inner = inner') (htrace : w'.trace = w.trace) :
    w.Changes w' (.commit r) ∧ w.Starts r committed.job.value := by
  obtain ⟨_, ⟨started, hretained⟩, current, hanswered, hrevalidates, hbytes, hspace⟩ :=
    h.requests r _ hrequest
  obtain ⟨session, hsession, hrevision, hcommit⟩ := withRestoreStartSelection_ok hcommit
  have hcommits := commitPreparedRestoreStart_ok hcommit.symm
  obtain ⟨retained, hlookup, hstarted, _, hscan, hsource, hrevision', hordered, hinner⟩ :=
    hcommits.plan
  obtain ⟨destination, hdestination, hdestinationScan, hdestinationSource, hcapability,
    hbaseline⟩ :=
    hcommits.destination
  -- the plan that was prepared is the plan that is retained
  have hsame : retained = ⟨prepared.plan.immutable, started⟩ := by
    rw [hretained] at hlookup
    exact (Option.some.inj hlookup).symm
  subst hsame
  dsimp only at hstarted hscan hsource hrevision' hordered hdestinationScan hdestinationSource
  subst hstarted
  have hauthorized : w.Authorized r session prepared.plan.immutable destination current :=
    { held := by rw [hscan]; exact hsession
      source := hsource
      revision := hrevision'
      ordered := (of_decide_eq_true hordered).symm
      startable := hretained
      retained := hdestination
      sameScan := hdestinationScan.trans hscan.symm
      sameSource := hdestinationSource.trans hsource.symm
      answered := by rw [← hcapability]; exact hanswered
      revalidates := by rw [hbaseline]; exact hrevalidates
      space := ⟨prepared.requiredBytes, hbytes, hspace⟩ }
  have hstarts : w.Starts r (newJob prepared) :=
    ⟨session, prepared.plan.immutable, destination, current, hauthorized, rfl, rfl, rfl, rfl⟩
  have hnew : (newJob prepared).jobId ∉ w.inner.jobs := AList.lookup_eq_none.mp hcommits.fresh
  rw [hcommits.result]
  exact ⟨.starts r prepared.plan.immutable ⟨w.allocated, newJob prepared⟩ hretained hnew rfl hstarts
    (hinner'.trans hinner) htrace, hstarts⟩

/-- A step keeps the coordinator, or changes it in one of the four ways. -/
theorem step_changes (h : Inv past w) (step : CoordinatorStep Capability Root)
    (hfresh : ∀ bytes ∈ step.drawn, bytes ∉ past) :
    w.Changes (w.step env results step) step := by
  cases step with
  | storeSession session => exact .keeps _ rfl
  | serve scanId request => exact .keeps _ rfl
  | admitDestination scan admitted revalidation random =>
    unfold World.step
    dsimp only
    split
    · exact .keeps _ rfl
    -- an id that is drawn afresh is not retained yet
    · next summary inner hadmitted =>
      rcases admitDestination_ok hadmitted with rfl | ⟨hlimit, bytes, destination, rfl, rfl⟩
      · exact .keeps _ rfl
      · refine .admits _ _ destination summary ?_ rfl rfl
        intro hmem
        obtain ⟨bytes', hbytes', hid⟩ := h.destinationId _ hmem
        rw [opaqueId_inj hid] at hfresh
        exact hfresh bytes' (List.mem_singleton_self bytes') hbytes'
  | createRestorePlan scan destinationId collisionPolicy partialFilePolicy =>
    unfold World.step
    dsimp only
    split
    · exact .keeps _ rfl
    · exact .keeps _ rfl
  | retainPlan r revalidation planRandom jobRandom =>
    unfold World.step World.retainPlan
    dsimp only
    split
    · split
      · exact .keeps _ rfl
      · next plan hbuilt =>
        split
        · exact .keeps _ rfl
        · next summary inner hretained =>
          obtain ⟨_, rfl⟩ := retainPlan_ok hretained
          obtain ⟨bytes, rfl, hid⟩ := buildPlan_planId hbuilt
          refine .plans _ ⟨w.allocated + 1, plan⟩ summary ?_ rfl rfl
          show plan.summary.planId ∉ w.inner.plans
          rw [hid]
          intro hmem
          obtain ⟨bytes', hbytes', hid'⟩ := h.planId _ hmem
          rw [opaqueId_inj hid'] at hfresh
          exact hfresh bytes' (List.mem_append_left _ (List.mem_singleton_self bytes')) hbytes'
    · exact .keeps _ rfl
  | startRestore planId =>
    unfold World.step
    dsimp only
    split
    · exact .keeps _ rfl
    · exact .keeps _ rfl
  | preflight r =>
    unfold World.step World.preflight
    dsimp only
    split
    · split
      · exact .keeps _ rfl
      · exact .keeps _ rfl
    · exact .keeps _ rfl
  | prepare r revalidation root =>
    unfold World.step World.prepare
    dsimp only
    split
    · split
      · exact .keeps _ rfl
      · exact .keeps _ rfl
    · exact .keeps _ rfl
  | commit r =>
    unfold World.step World.commit
    dsimp only
    split
    -- the steps in between only move a request, or change a cell
    · next hrequest =>
      split
      · exact .keeps _ rfl
      · exact .keeps _ rfl
      · next hcommit => exact And.left (h.starts hrequest hcommit rfl rfl)
    · exact .keeps _ rfl
  | launch r spawned =>
    unfold World.step World.launch
    dsimp only
    split
    · split
      · exact .keeps _ rfl
      · split
        · exact .keeps _ rfl
        · exact .keeps _ rfl
    · exact .keeps _ rfl
  | rollback r =>
    unfold World.step World.rollback
    dsimp only
    split
    · next hrequest => exact h.undoes hrequest rfl
    · exact .keeps _ rfl
  | getRestoreJob jobId =>
    unfold World.step World.getRestoreJob
    dsimp only
    split
    · exact .keeps _ rfl
    · exact .keeps _ rfl
  | cancelRestore jobId =>
    unfold World.step World.cancelRestore
    dsimp only
    split
    · exact .keeps _ rfl
    · exact .keeps _ rfl
  | work ptr state =>
    unfold World.step World.work
    dsimp only
    split
    · exact .keeps _ rfl
    · exact .keeps _ rfl

/-! ## A step is safe -/

/-- What holds of the step `step` from `w` to `w'`. -/
structure StepSafe (w : World Capability Root) (step : CoordinatorStep Capability Root)
    (w' : World Capability Root) : Prop where
  destinations : ∀ id destination, w.inner.destinations.lookup id = some destination →
    w'.inner.destinations.lookup id = some destination
  plans : ∀ id plan, w.inner.plans.lookup id = some plan →
    ∃ started, w'.inner.plans.lookup id = some ⟨plan.immutable, started⟩
  added : ∀ id job, w'.inner.jobs.lookup id = some job → w.inner.jobs.lookup id = some job ∨
    ∃ r plan, step = .commit r ∧ w.Starts r job.value ∧ w.Retains plan false ∧
      w'.Retains plan true ∧ plan.value.summary.planId = job.value.planId
  removed : ∀ id job, w.inner.jobs.lookup id = some job → w'.inner.jobs.lookup id = some job ∨
    ∃ r committed error, step = .rollback r ∧
      w.requests r = some (.unscheduled committed error) ∧ committed.job.value.jobId = id
  undone : ∀ r committed error, step = .rollback r →
    w.requests r = some (.unscheduled committed error) →
    w'.inner.jobs.lookup committed.job.value.jobId = none ∧
      w'.Retains committed.plan.immutable false ∧
      w'.trace.countP (·.schedulesPlan committed.job.value.planId) = 0
  unspawned : ∀ r committed error, step = .launch r (.error error) →
    w.requests r = some (.committed committed) →
    w'.requests r = some (.unscheduled committed error)
  refused : ∀ new reply, w'.trace = w.trace ++ new → .replied reply ∈ new →
    reply.isError = true → w'.inner = w.inner ∨ ∃ r, step = .rollback r

theorem step_safe (h : Inv past w) (step : CoordinatorStep Capability Root)
    (hfresh : ∀ bytes ∈ step.drawn, bytes ∉ past) :
    StepSafe w step (w.step env results step) := by
  have hchanges : w.Changes (w.step env results step) step := step_changes h step hfresh
  exact
    { destinations := fun _ _ => hchanges.keepsDestination
      plans := fun _ _ => hchanges.keepsPlan
      added := fun _ _ => hchanges.addsJob
      removed := fun _ _ => hchanges.dropsJob
      undone := by
        intro r committed error hstep hrequest
        subst hstep
        exact h.undone hrequest
      unspawned := by
        intro r committed error hstep hrequest
        subst hstep
        exact h.unspawned hrequest error
      refused := fun _ _ hnew hreply herror => hchanges.refuses hnew hreply herror }

/-- At every step of every interleaving the coordinator stays within its limits and loses nothing
    but starts without a worker, and no plan has two workers. -/
theorem run_safe (env : CoordinatorEnv) (results : ResultsEnv) (retained : RetainedScans)
    (steps : List (CoordinatorStep Capability Root))
    (hfresh : (steps.flatMap (·.drawn)).Nodup) :
    ((run env results { retained } steps).inner.destinations.keys.length ≤
      maxDestinationAuthorities ∧
      (run env results { retained } steps).inner.plans.keys.length ≤ maxRetainedRestorePlans ∧
      (run env results { retained } steps).inner.jobs.keys.length ≤ maxRetainedRestoreJobs ∧
      ∀ planId, (run env results { retained } steps).trace.countP (·.schedulesPlan planId) ≤ 1) ∧
    ∀ before step after, steps = before ++ step :: after →
      StepSafe (run env results { retained } before) step
        (run env results { retained } (before ++ [step])) := by
  constructor
  · have hinv : Inv (steps.flatMap (·.drawn)) (run env results { retained } steps) :=
      run_inv retained hfresh
    exact ⟨hinv.destinationsLimit, hinv.plansLimit, hinv.jobsLimit, hinv.once⟩
  · intro before step after hsplit
    rw [hsplit, List.flatMap_append, List.flatMap_cons] at hfresh
    obtain ⟨hbefore, _, hapart⟩ := List.nodup_append.mp hfresh
    rw [run_append]
    apply step_safe (run_inv retained hbefore)
    intro bytes hbytes hpast
    exact hapart bytes hpast bytes (List.mem_append_left _ hbytes) rfl

/-! ## Workers -/

/-- A request that holds a start after a step held it before, or has just committed it. -/
theorem Inv.holds (h : Inv past w) {step : CoordinatorStep Capability Root}
    {committed : CommittedRestoreStart Root} (hheld : (w.step env results step).Holds r committed) :
    w.Holds r committed ∨ step = .commit r ∧ w.Starts r committed.job.value := by
  cases step with
  | storeSession session => exact .inl hheld
  | serve scanId request => exact .inl hheld
  | admitDestination scan admitted revalidation random =>
    unfold World.step at hheld
    dsimp only at hheld
    split at hheld
    · exact .inl hheld
    · exact .inl hheld
  | createRestorePlan scan destinationId collisionPolicy partialFilePolicy =>
    unfold World.step at hheld
    dsimp only at hheld
    split at hheld
    · exact .inl hheld
    · exact .inl (holds_accept hheld (fun heq => (by cases heq)) fun _ heq => (by cases heq))
  | retainPlan r' revalidation planRandom jobRandom =>
    unfold World.step World.retainPlan at hheld
    dsimp only at hheld
    split at hheld
    · split at hheld
      · exact .inl (holds_done hheld)
      · split at hheld
        · exact .inl (holds_done hheld)
        · exact .inl (holds_done hheld)
    · exact .inl hheld
  | startRestore planId =>
    unfold World.step at hheld
    dsimp only at hheld
    split at hheld
    · exact .inl hheld
    · exact .inl (holds_accept hheld (fun heq => (by cases heq)) fun _ heq => (by cases heq))
  | preflight r' =>
    unfold World.step World.preflight at hheld
    dsimp only at hheld
    split at hheld
    · split at hheld
      · exact .inl (holds_done hheld)
      · rcases holds_move hheld with hheld | ⟨_, hnone | ⟨error, hnone⟩⟩
        · exact .inl hheld
        · cases hnone
        · cases hnone
    · exact .inl hheld
  | prepare r' revalidation root =>
    unfold World.step World.prepare at hheld
    dsimp only at hheld
    split at hheld
    · split at hheld
      · exact .inl (holds_done hheld)
      · rcases holds_move hheld with hheld | ⟨_, hnone | ⟨error, hnone⟩⟩
        · exact .inl hheld
        · cases hnone
        · cases hnone
    · exact .inl hheld
  -- a request comes to hold a start in its commit only
  | commit r' =>
    unfold World.step World.commit at hheld
    dsimp only at hheld
    split at hheld
    · next hrequest =>
      split at hheld
      · exact .inl (holds_done hheld)
      · exact .inl (holds_done hheld)
      · next inner hcommit =>
        rcases holds_move hheld with hheld | ⟨rfl, hcommitted | ⟨error, hnone⟩⟩
        · exact .inl hheld
        · cases hcommitted
          have hinner : World.inner { w with inner } = inner := rfl
          exact .inr ⟨rfl, (h.starts hrequest hcommit hinner rfl).2⟩
        · cases hnone
    · exact .inl hheld
  | launch r' spawned =>
    unfold World.step World.launch at hheld
    dsimp only at hheld
    split at hheld
    · next committed' hrequest =>
      split at hheld
      · exact .inl (holds_done hheld)
      · split at hheld
        · exact .inl (holds_done hheld)
        · rcases holds_move hheld with hheld | ⟨rfl, hnone | ⟨error, hunscheduled⟩⟩
          · exact .inl hheld
          · cases hnone
          -- a launch that fails leaves the start with its request
          · cases hunscheduled
            exact .inl (.inl hrequest)
    · exact .inl hheld
  | rollback r' =>
    unfold World.step World.rollback at hheld
    dsimp only at hheld
    split at hheld
    · exact .inl (holds_done hheld)
    · exact .inl hheld
  | getRestoreJob jobId =>
    unfold World.step World.getRestoreJob at hheld
    dsimp only at hheld
    split at hheld
    · exact .inl hheld
    · exact .inl hheld
  | cancelRestore jobId =>
    unfold World.step World.cancelRestore at hheld
    dsimp only at hheld
    split at hheld
    · exact .inl hheld
    · exact .inl hheld
  | work ptr state =>
    unfold World.step World.work at hheld
    dsimp only at hheld
    split at hheld
    · exact .inl hheld
    · exact .inl hheld

/-- A worker is scheduled for a request that holds its start. -/
theorem mem_scheduled {step : CoordinatorStep Capability Root} {job : Arc RetainedRestoreJob}
    (hmem : .scheduled r job ∈ (w.step env results step).trace) :
    .scheduled r job ∈ w.trace ∨ ∃ committed, w.Holds r committed ∧ committed.job = job := by
  -- replies and revalidations are events of another kind
  have hreply : ∀ {w' : World Capability Root} {reply : RestoreReply},
      .scheduled r job ∈ (w'.reply reply).trace → .scheduled r job ∈ w'.trace := by
    intro w' reply hmem
    rcases List.mem_append.mp hmem with hmem | hmem
    · exact hmem
    · cases List.mem_singleton.mp hmem
  have hrevalidated : ∀ {r' : Nat} {capability : Capability}
      {answer : Except DesktopRestoreError DestinationRevalidation},
      .scheduled r job ∈ (w.revalidated r' capability answer).trace →
        .scheduled r job ∈ w.trace := by
    intro r' capability answer hmem
    rcases List.mem_append.mp hmem with hmem | hmem
    · exact hmem
    · cases List.mem_singleton.mp hmem
  cases step with
  | storeSession session => exact .inl hmem
  | serve scanId request => exact .inl hmem
  | admitDestination scan admitted revalidation random =>
    unfold World.step at hmem
    dsimp only at hmem
    split at hmem
    · exact .inl (hreply hmem)
    · exact .inl (hreply hmem)
  | createRestorePlan scan destinationId collisionPolicy partialFilePolicy =>
    unfold World.step at hmem
    dsimp only at hmem
    split at hmem
    · exact .inl (hreply hmem)
    · exact .inl hmem
  | retainPlan r' revalidation planRandom jobRandom =>
    unfold World.step World.retainPlan at hmem
    dsimp only at hmem
    split at hmem
    · split at hmem
      · exact .inl (hreply hmem)
      · split at hmem
        · exact .inl (hreply hmem)
        · exact .inl (hreply hmem)
    · exact .inl hmem
  | startRestore planId =>
    unfold World.step at hmem
    dsimp only at hmem
    split at hmem
    · exact .inl (hreply hmem)
    · exact .inl hmem
  | preflight r' =>
    unfold World.step World.preflight at hmem
    dsimp only at hmem
    split at hmem
    · split at hmem
      · exact .inl (hreply hmem)
      · exact .inl hmem
    · exact .inl hmem
  | prepare r' revalidation root =>
    unfold World.step World.prepare at hmem
    dsimp only at hmem
    split at hmem
    · split at hmem
      · exact .inl (hrevalidated (hreply hmem))
      · exact .inl (hrevalidated hmem)
    · exact .inl hmem
  | commit r' =>
    unfold World.step World.commit at hmem
    dsimp only at hmem
    split at hmem
    · split at hmem
      · exact .inl (hreply hmem)
      · exact .inl (hreply hmem)
      · exact .inl hmem
    · exact .inl hmem
  | launch r' spawned =>
    unfold World.step World.launch at hmem
    dsimp only at hmem
    split at hmem
    · next committed hrequest =>
      split at hmem
      · exact .inl (hreply hmem)
      · split at hmem
        -- the one place where a worker is scheduled
        · rcases List.mem_append.mp (hreply hmem) with hmem | hmem
          · exact .inl hmem
          · cases List.mem_singleton.mp hmem
            exact .inr ⟨committed, .inl hrequest, rfl⟩
        · exact .inl hmem
    · exact .inl hmem
  | rollback r' =>
    unfold World.step World.rollback at hmem
    dsimp only at hmem
    split at hmem
    · exact .inl (hreply hmem)
    · exact .inl hmem
  | getRestoreJob jobId =>
    unfold World.step World.getRestoreJob at hmem
    dsimp only at hmem
    split at hmem
    · exact .inl (hreply hmem)
    · exact .inl (hreply hmem)
  | cancelRestore jobId =>
    unfold World.step World.cancelRestore at hmem
    dsimp only at hmem
    split at hmem
    · exact .inl (hreply hmem)
    · exact .inl (hreply hmem)
  | work ptr state =>
    unfold World.step World.work at hmem
    dsimp only at hmem
    split at hmem
    · exact .inl hmem
    · exact .inl hmem

/-- The steps before a start was committed, in a world that authorizes it. -/
def StartedIn (env : CoordinatorEnv) (results : ResultsEnv) (w : World Capability Root)
    (steps : List (CoordinatorStep Capability Root)) (r : Nat) (job : RetainedRestoreJob) : Prop :=
  ∃ before after, steps = before ++ .commit r :: after ∧
    (run env results w before).Starts r job

theorem StartedIn.append {steps : List (CoordinatorStep Capability Root)} {job : RetainedRestoreJob}
    (h : StartedIn env results w steps r job) (step : CoordinatorStep Capability Root) :
    StartedIn env results w (steps ++ [step]) r job := by
  obtain ⟨before, after, hsplit, hstarts⟩ := h
  refine ⟨before, after ++ [step], ?_, hstarts⟩
  rw [hsplit, List.append_assoc, List.cons_append]

/-- A request that holds a start has committed it, and it was authorized then. -/
theorem run_holds (retained : RetainedScans) {steps : List (CoordinatorStep Capability Root)}
    (hfresh : (steps.flatMap (·.drawn)).Nodup) {committed : CommittedRestoreStart Root}
    (hheld : (run env results { retained } steps).Holds r committed) :
    StartedIn env results { retained } steps r committed.job.value := by
  induction steps using List.reverseRecOn with
  | nil =>
    rcases hheld with hnone | ⟨error, hnone⟩
    · cases hnone
    · cases hnone
  | append_singleton steps step ih =>
    rw [List.flatMap_append, List.flatMap_singleton] at hfresh
    have hbefore := (List.nodup_append.mp hfresh).1
    rw [run_append] at hheld
    rcases (run_inv retained hbefore).holds hheld with hheld | ⟨rfl, hstarts⟩
    · exact (ih hbefore hheld).append step
    · exact ⟨steps, [], rfl, hstarts⟩

/-- Every worker that is scheduled in an interleaving belongs to a start that was authorized when
    it was committed. -/
theorem run_authorized (env : CoordinatorEnv) (results : ResultsEnv) (retained : RetainedScans)
    (steps : List (CoordinatorStep Capability Root))
    (hfresh : (steps.flatMap (·.drawn)).Nodup) (r : Nat) (job : Arc RetainedRestoreJob)
    (hscheduled : .scheduled r job ∈ (run env results { retained } steps).trace) :
    StartedIn env results { retained } steps r job.value := by
  induction steps using List.reverseRecOn with
  | nil => cases hscheduled
  | append_singleton steps step ih =>
    rw [List.flatMap_append, List.flatMap_singleton] at hfresh
    have hbefore := (List.nodup_append.mp hfresh).1
    rw [run_append] at hscheduled
    rcases mem_scheduled hscheduled with hscheduled | ⟨committed, hheld, rfl⟩
    · exact (ih hbefore hscheduled).append step
    · exact (run_holds retained hbefore hheld).append step

/-! One directory, its plan and its start. -/

def startRetained : RetainedScans where
  scans id :=
    if id = "s" then some ⟨numberedScan, { selected := {7}, selectionRevision := 1 }⟩ else none
  scanOrder := ["s"]

def startEnv : CoordinatorEnv where
  paths := { sha256 := fun _ => Vector.replicate 32 0, evidenceToString := fun _ => "" }
  trim := id
  digestToVec _ := some []
  sha256 _ := Vector.replicate 32 0

def apartDisk : DestinationRevalidation := ⟨"NTFS", 100, 1, true⟩

def startSteps : List (CoordinatorStep Unit Unit) :=
  [.admitDestination ⟨"s", numberedScan.source⟩ (some ⟨"d", "v", ()⟩) (.ok apartDisk)
      (some (Vector.replicate 16 1)),
    .createRestorePlan ⟨"s", numberedScan.source, 1, [⟨(numbered 7).candidate, none, []⟩]⟩
      "destination-01010101010101010101010101010101" .rename .completeOnly,
    .retainPlan 0 (.ok apartDisk) (some (Vector.replicate 16 2)) (some (Vector.replicate 16 3)),
    .startRestore "plan-02020202020202020202020202020202",
    .preflight 1,
    .prepare 1 (.ok apartDisk) (.ok ()),
    .commit 1]

def launchStep : CoordinatorStep Unit Unit := .launch 1 (.ok ())

theorem startSteps_drawn : ((startSteps ++ [launchStep]).flatMap (·.drawn)).Nodup := by
  decide +kernel

/-- The worker an event schedules, with its request. -/
def workerOf : CoordinatorEvent Unit → Option (Nat × Arc RetainedRestoreJob)
  | .scheduled r job => some (r, job)
  | _ => none

/-- The first attempt, whose worker thread is not spawned. -/
def unspawnedSteps : List (CoordinatorStep Unit Unit) :=
  startSteps ++ [.launch 1 (.error .internal)]

/-- It is rolled back, and the plan is started once more. -/
def retriedSteps : List (CoordinatorStep Unit Unit) :=
  unspawnedSteps ++ [.rollback 1, .startRestore "plan-02020202020202020202020202020202",
    .preflight 2, .prepare 2 (.ok apartDisk) (.ok ()), .commit 2, .launch 2 (.ok ())]

/-- The ids of the job and the plan that a request could not start a worker for. -/
def unscheduledOf : RestoreRequest Unit Unit → Option (String × String)
  | .unscheduled committed _ => some (committed.job.value.jobId, committed.job.value.planId)
  | _ => none

/-- A start whose worker is not spawned leaves no job behind, and its plan is started by the next
    attempt. -/
theorem run_safe_retried :
    (run startEnv pagedEnv { retained := startRetained }
        (unspawnedSteps ++ [.rollback 1])).inner.jobs.lookup
          "job-03030303030303030303030303030303" = none ∧
      (run startEnv pagedEnv { retained := startRetained }
        (unspawnedSteps ++ [.rollback 1])).trace.countP
          (·.schedulesPlan "plan-02020202020202020202020202020202") = 0 ∧
      (run startEnv pagedEnv { retained := startRetained } retriedSteps).trace.countP
        (·.schedulesPlan "plan-02020202020202020202020202020202") = 1 := by
  obtain ⟨⟨_, _, _, honce⟩, hsafe⟩ := run_safe startEnv pagedEnv startRetained retriedSteps
    (by decide +kernel)
  have hrequest : ((run startEnv pagedEnv { retained := startRetained }
      unspawnedSteps).requests 1).bind unscheduledOf =
      some ("job-03030303030303030303030303030303", "plan-02020202020202020202020202020202") := by
    decide +kernel
  obtain ⟨request, hunspawned, hids⟩ := Option.bind_eq_some_iff.mp hrequest
  cases request with
  | unscheduled committed error =>
    obtain ⟨hjob, hplan⟩ := Prod.mk.inj (Option.some.inj hids)
    obtain ⟨hdropped, _, hnone⟩ :=
      (hsafe unspawnedSteps (.rollback 1) _ rfl).undone 1 committed error rfl hunspawned
    rw [hjob] at hdropped
    rw [hplan] at hnone
    refine ⟨hdropped, hnone, Nat.le_antisymm (honce _) ?_⟩
    decide +kernel
  | _ => cases hids

theorem run_authorized_started :
    ∃ job, job.jobId = "job-03030303030303030303030303030303" ∧
      StartedIn startEnv pagedEnv ({ retained := startRetained } : World Unit Unit)
        (startSteps ++ [launchStep]) 1 job := by
  have hworkers : ((run startEnv pagedEnv { retained := startRetained }
      (startSteps ++ [launchStep])).trace.filterMap workerOf).map
        (fun worker => (worker.1, worker.2.value.jobId)) =
      [(1, "job-03030303030303030303030303030303")] := by
    decide +kernel
  have hmem := List.mem_singleton_self (1, "job-03030303030303030303030303030303")
  rw [← hworkers] at hmem
  obtain ⟨worker, hworker, hpair⟩ := List.mem_map.mp hmem
  obtain ⟨e, he, hsome⟩ := List.mem_filterMap.mp hworker
  cases e with
  | scheduled r job =>
    cases hsome
    have hr : r = 1 := congrArg Prod.fst hpair
    have hid : job.value.jobId = _ := congrArg Prod.snd hpair
    subst hr
    exact ⟨job.value, hid, run_authorized startEnv pagedEnv startRetained
      (startSteps ++ [launchStep]) startSteps_drawn 1 job he⟩
  | revalidated => cases hsome
  | replied => cases hsome

end World

end Undelete.Desktop
