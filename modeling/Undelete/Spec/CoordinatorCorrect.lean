import Undelete.ForStd.Except
import Undelete.Native.Desktop.Coordinator
import Undelete.Spec.HashCorrect

/-!
# The restore coordinator under interleaving

Over every interleaving of requests, selection changes and workers: the coordinator stays within
its limits, evicts nothing, schedules one worker for each plan, and commits a start only for the
selection the storage holds and a destination that was revalidated for that start.

## Key results

- `Inv`: what holds in every world a run reaches.
- `Inv.keep`: a step that leaves the coordinator as it is keeps it.
-/

namespace Undelete.Desktop

open Except Restore

variable {Capability Root : Type}

/-! ## Opaque ids -/

theorem createOpaqueId_eq_ok {kind id : String} {random : Option (Vector UInt8 16)} :
    createOpaqueId kind random = .ok id ↔
      ∃ bytes, random = some bytes ∧ kind ++ "-" ++ hexLower bytes.toList = id := by
  unfold createOpaqueId
  cases random with
  | none => simp
  | some bytes => simp

theorem opaqueId_inj {kind : String} {a b : Vector UInt8 16}
    (h : kind ++ "-" ++ hexLower a.toList = kind ++ "-" ++ hexLower b.toList) : a = b := by
  have hbytes := congrArg Bytes.ofString h
  simp only [Bytes.ofString_append, List.append_cancel_left_eq] at hbytes
  exact Vector.toList_inj.mp (hexLower_inj (Bytes.ofString_inj.mp hbytes))

/-! ## Checks -/

/-- What `validateDestinationBaseline` and `validateDestinationSeparation` accept: a destination
    that is safe, has NTFS, and lies on the disk it had and not on the source's. -/
structure Revalidates (source : ScanSourceBinding) (baseline current : DestinationRevalidation) :
    Prop where
  reparseSafe : current.reparseSafe = true
  ntfs : eqIgnoreAsciiCase current.fileSystem "NTFS" = true
  sameDisk : current.physicalDiskNumber = baseline.physicalDiskNumber
  otherDisk : current.physicalDiskNumber ≠ source.physicalDiskNumber

theorem revalidates {source : ScanSourceBinding} {baseline current : DestinationRevalidation}
    (hbaseline : validateDestinationBaseline baseline current = .ok ())
    (hseparation : validateDestinationSeparation source current = .ok ()) :
    Revalidates source baseline current := by
  unfold validateDestinationBaseline at hbaseline
  unfold validateDestinationSeparation validateDestinationPolicy at hseparation
  split at hbaseline
  · cases hbaseline
  · next hchecks =>
    split at hseparation
    · next hpolicy =>
      simp only [Bool.or_eq_true, Bool.not_eq_true', decide_eq_true_eq, not_or,
        Bool.not_eq_false] at hchecks
      simp only [Bool.and_eq_true, decide_eq_true_eq] at hpolicy
      exact ⟨hchecks.1.1.1, hchecks.1.1.2, (not_not.mp hchecks.1.2).symm, Ne.symm hpolicy.2⟩
    · cases hseparation

theorem validateDestinationBinding_eq_ok {scanId : String} {source : ScanSourceBinding}
    {destination : RetainedDestinationAuthority Capability} :
    validateDestinationBinding scanId source destination = .ok () ↔
      destination.scanId = scanId ∧ destination.source = source := by
  unfold validateDestinationBinding
  split
  · next h => exact ⟨fun h => (by cases h), fun hsame => absurd h (by simp [hsame])⟩
  · next h =>
    rw [not_or, not_not, not_not] at h
    exact ⟨fun _ => h, fun _ => rfl⟩

theorem validatePlanStartFields_eq_ok {scanId : String} {source : ScanSourceBinding}
    {selectionRevision : Nat} {selectionMatches : List Nat → Bool} {plan : ImmutableRestorePlan}
    (h : validatePlanStartFields scanId source selectionRevision selectionMatches plan = .ok ()) :
    plan.summary.scanId = scanId ∧ plan.source = source ∧
      plan.selectionRevision = selectionRevision ∧
      selectionMatches plan.orderedCandidateIds = true := by
  unfold validatePlanStartFields at h
  split at h
  · cases h
  · next hsource =>
    split at h
    · cases h
    · next hrevision =>
      split at h
      · cases h
      · next hmatches =>
        rw [not_or, not_not, not_not] at hsource
        rw [Bool.not_eq_true, Bool.not_eq_false'] at hmatches
        exact ⟨hsource.1, hsource.2, not_not.mp hrevision, hmatches⟩

/-! ## Locked blocks -/

namespace RestoreCoordinatorInner

variable {inner inner' : RestoreCoordinatorInner Capability} {env : CoordinatorEnv}

theorem length_insert {β : Type} (map : HashMap β) (key : String) (value : β) :
    (map.insert key value).keys.length ≤ map.keys.length + 1 := by
  rw [AList.keys_insert, List.length_cons]
  have := List.length_erase_le (a := key) (l := map.keys)
  omega

theorem length_insert_of_mem {β : Type} {map : HashMap β} {key : String} (value : β)
    (h : key ∈ map) : (map.insert key value).keys.length = map.keys.length := by
  have hmem : key ∈ map.keys := AList.mem_keys.mp h
  rw [AList.keys_insert, List.length_cons, List.length_erase_of_mem hmem]
  have := List.length_pos_of_mem hmem
  omega

theorem length_erase {β : Type} (map : HashMap β) (key : String) :
    (map.erase key).keys.length ≤ map.keys.length := by
  rw [AList.keys_erase]
  exact List.length_erase_le

/-- Nothing is admitted, or one destination under a new id. -/
theorem admitDestination_ok {scan : RestoreScanBinding}
    {admitted : Option (AdmittedDestination Capability)}
    {revalidation : Except DesktopRestoreError DestinationRevalidation}
    {random : Option (Vector UInt8 16)} {summary : Option DestinationSummaryDto}
    (h : inner.admitDestination env scan admitted revalidation random = .ok (summary, inner')) :
    inner' = inner ∨ inner.destinations.keys.length < maxDestinationAuthorities ∧
      ∃ bytes destination, random = some bytes ∧ inner' = { inner with
        destinations := inner.destinations.insert ("destination" ++ "-" ++ hexLower bytes.toList)
          destination } := by
  unfold admitDestination at h
  cases admitted with
  | none =>
    cases h
    exact .inl rfl
  | some admitted =>
    simp only [throw_bind, bind_eq_ok, ite_throw_eq_ok, pure_eq_ok, Prod.mk.injEq,
      createOpaqueId_eq_ok] at h
    obtain ⟨baseline, _, _, _, hlimit, id, ⟨bytes, hrandom, rfl⟩, _, rfl⟩ := h
    exact .inr ⟨by omega, bytes, _, hrandom, rfl⟩

theorem retainPlan_ok [DecidableEq Capability] {scan : RestoreScanSnapshot} {destinationId : String}
    {capability : Capability} {baseline : DestinationRevalidation}
    {plan : Arc ImmutableRestorePlan} {summary : RestorePlanSummaryDto}
    (h : inner.retainPlan scan destinationId capability baseline plan = .ok (summary, inner')) :
    inner.plans.keys.length < maxRetainedRestorePlans ∧ inner' = { inner with
      plans := inner.plans.insert plan.value.summary.planId ⟨plan, false⟩ } := by
  unfold retainPlan at h
  simp only [throw_bind, bind_eq_ok, ite_throw_eq_ok, pure_eq_ok, Prod.mk.injEq] at h
  obtain ⟨hlimit, _, _, _, _, _, _, rfl⟩ := h
  exact ⟨by omega, rfl⟩

theorem startAuthority_ok {planId : String} {plan : RetainedRestorePlan} {capability : Capability}
    {baseline : DestinationRevalidation}
    (h : inner.startAuthority planId = .ok (plan, capability, baseline)) :
    inner.plans.lookup planId = some plan := by
  unfold startAuthority at h
  simp only [throw_bind, bind_eq_ok, ite_throw_eq_ok, pure_eq_ok, Prod.mk.injEq, okOr_eq_ok] at h
  obtain ⟨_, plan', hplan, _, _, _, rfl, _⟩ := h
  exact hplan

theorem prepareRestoreStart_ok {plan : RetainedRestorePlan} {capability : Capability}
    {baseline : DestinationRevalidation}
    {revalidation : Except DesktopRestoreError DestinationRevalidation}
    {root : Except DesktopRestoreError Root} {prepared : PreparedRestoreStart Capability Root}
    (h : prepareRestoreStart plan capability baseline revalidation root = .ok prepared) :
    prepared.plan = plan ∧ prepared.capability = capability ∧
      prepared.destinationBaseline = baseline ∧ ∃ current, revalidation = .ok current ∧
        Revalidates plan.immutable.value.source baseline current ∧
        parseInternalDecimal plan.immutable.value.summary.logicalBytes =
        .ok prepared.requiredBytes ∧
        prepared.requiredBytes ≤ current.freeBytes := by
  unfold prepareRestoreStart at h
  simp only [throw_bind, bind_eq_ok, ite_throw_eq_ok, pure_eq_ok] at h
  obtain ⟨current, hcurrent, _, hbaseline, _, hseparation, required, hrequired, hspace, _, _,
    rfl⟩ := h
  exact ⟨rfl, rfl, rfl, current, hcurrent, revalidates hbaseline hseparation, hrequired,
    Nat.le_of_not_lt hspace⟩

/-- What a commit checked, and what it retains. -/
structure Commits (inner : RestoreCoordinatorInner Capability)
    (selection : RestoreStartSelectionView) (prepared : PreparedRestoreStart Capability Root)
    (ptr : Nat) (committed : CommittedRestoreStart Root)
    (inner' : RestoreCoordinatorInner Capability) : Prop where
  limit : inner.jobs.keys.length < maxRetainedRestoreJobs
  plan : ∃ retained,
    inner.plans.lookup prepared.plan.immutable.value.summary.planId = some retained ∧
    retained.started = false ∧ retained.immutable.ptr = prepared.plan.immutable.ptr ∧
    retained.immutable.value.summary.scanId = selection.scanId ∧
    retained.immutable.value.source = selection.source ∧
    retained.immutable.value.selectionRevision = selection.selectionRevision ∧
    selection.matchesOrderedCandidateIds retained.immutable.value.orderedCandidateIds = true ∧
    inner' = { inner with
      plans := inner.plans.insert prepared.plan.immutable.value.summary.planId
        { retained with started := true }
      jobs := inner.jobs.insert (newJob prepared).jobId ⟨ptr, newJob prepared⟩ }
  destination : ∃ destination,
    inner.destinations.lookup prepared.plan.immutable.value.summary.destinationId =
      some destination ∧
    destination.scanId = selection.scanId ∧ destination.source = selection.source ∧
    prepared.capability = destination.admitted.capability ∧
    destination.baseline = prepared.destinationBaseline
  fresh : inner.jobs.lookup (newJob prepared).jobId = none
  result : committed = ⟨⟨ptr, newJob prepared⟩, prepared.plan, prepared.destinationRoot⟩

theorem commitPreparedRestoreStart_ok [DecidableEq Capability]
    {selection : RestoreStartSelectionView} {prepared : PreparedRestoreStart Capability Root}
    {ptr : Nat}
    {committed : CommittedRestoreStart Root}
    (h : inner.commitPreparedRestoreStart selection prepared ptr = .ok (committed, inner')) :
    inner.Commits selection prepared ptr committed inner' := by
  unfold commitPreparedRestoreStart commitPreparedRestoreStartFields at h
  simp only [throw_bind, bind_eq_ok, ite_throw_eq_ok, pure_eq_ok, Prod.mk.injEq, okOr_eq_ok] at h
  obtain ⟨hlimit, retained, hretained, _, hfields, hstarted, hptr, destination, hdestination, _,
    hbinding, hcapability, hfresh, hcommitted, hinner⟩ := h
  obtain ⟨hscan, hsource, hrevision, hmatches⟩ := validatePlanStartFields_eq_ok hfields
  obtain ⟨hscan', hsource'⟩ := validateDestinationBinding_eq_ok.mp hbinding
  rw [not_or, not_not, not_not] at hcapability
  exact
    { limit := by omega
      plan := ⟨retained, hretained, by simpa using hstarted, not_not.mp hptr, hscan, hsource,
        hrevision, hmatches, hinner.symm⟩
      destination := ⟨destination, hdestination, hscan', hsource', hcapability.1, hcapability.2⟩
      fresh := by simpa using hfresh
      result := hcommitted.symm }

/-- The rollback of a start whose job and plan are still as the start left them. -/
theorem rollbackStart_eq {committed : CommittedRestoreStart Root} {started : Bool}
    (hjob : inner.jobs.lookup committed.job.value.jobId = some committed.job)
    (hplan : inner.plans.lookup committed.plan.immutable.value.summary.planId =
      some ⟨committed.plan.immutable, started⟩) :
    inner.rollbackStart committed = { inner with
      plans := inner.plans.insert committed.plan.immutable.value.summary.planId
        ⟨committed.plan.immutable, false⟩
      jobs := inner.jobs.erase committed.job.value.jobId } := by
  unfold rollbackStart
  simp only [hjob, hplan, Option.any_some, decide_true, if_true]

end RestoreCoordinatorInner

/-! ## The invariant -/

/-- The random bytes a step draws. -/
def CoordinatorStep.drawn : CoordinatorStep Capability Root → List (Vector UInt8 16)
  | .admitDestination _ _ _ random => random.toList
  | .retainPlan _ _ planRandom jobRandom => planRandom.toList ++ jobRandom.toList
  | _ => []

/-- The worker of a job of the plan `planId` was scheduled. -/
def CoordinatorEvent.schedulesPlan (planId : String) : CoordinatorEvent Capability → Bool
  | .scheduled _ job => job.value.planId = planId
  | _ => false

namespace World

variable {w w' : World Capability Root}

/-- The request `r` holds a committed start: its worker is not scheduled yet, or was not. -/
def Holds (w : World Capability Root) (r : Nat) (committed : CommittedRestoreStart Root) : Prop :=
  w.requests r = some (.committed committed) ∨
    ∃ error, w.requests r = some (.unscheduled committed error)

/-- A plan that is retained, and was started as `started` says. -/
def Retains (w : World Capability Root) (plan : Arc ImmutableRestorePlan) (started : Bool) : Prop :=
  w.inner.plans.lookup plan.value.summary.planId = some ⟨plan, started⟩

/-- The destination of a prepared start was revalidated for the request `r`. -/
def Checked (w : World Capability Root) (r : Nat)
    (prepared : PreparedRestoreStart Capability Root) :
    Prop :=
  ∃ current, .revalidated r prepared.capability (.ok current) ∈ w.trace ∧
    Revalidates prepared.plan.immutable.value.source prepared.destinationBaseline current ∧
    parseInternalDecimal prepared.plan.immutable.value.summary.logicalBytes =
      .ok prepared.requiredBytes ∧
    prepared.requiredBytes ≤ current.freeBytes

/-- A committed start whose job is retained, and whose plan is started. -/
structure Committed (w : World Capability Root) (committed : CommittedRestoreStart Root) :
    Prop where
  job : w.inner.jobs.lookup committed.job.value.jobId = some committed.job
  plan : w.Retains committed.plan.immutable true
  planId : committed.job.value.planId = committed.plan.immutable.value.summary.planId
  ptr : committed.job.ptr < w.allocated

/-- Where a request waits, with what the world retains for it. -/
def RequestOk (w : World Capability Root) (r : Nat) : RestoreRequest Capability Root → Prop
  | .planning .. | .bound .. => True
  | .preflight _ _ plan _ _ => ∃ started, w.Retains plan.immutable started
  | .prepared _ _ prepared =>
    (∃ started, w.Retains prepared.plan.immutable started) ∧ w.Checked r prepared
  | .committed committed | .unscheduled committed _ => w.Committed committed

/-- What holds in every world that a run reaches with the random bytes `past`. -/
structure Inv (past : List (Vector UInt8 16)) (w : World Capability Root) : Prop where
  destinationsLimit : w.inner.destinations.keys.length ≤ maxDestinationAuthorities
  plansLimit : w.inner.plans.keys.length ≤ maxRetainedRestorePlans
  jobsLimit : w.inner.jobs.keys.length ≤ maxRetainedRestoreJobs
  destinationId : ∀ id ∈ w.inner.destinations, ∃ bytes ∈ past,
    id = "destination" ++ "-" ++ hexLower bytes.toList
  planId : ∀ id ∈ w.inner.plans, ∃ bytes ∈ past, id = "plan" ++ "-" ++ hexLower bytes.toList
  plans : ∀ id plan, w.inner.plans.lookup id = some plan →
    plan.immutable.value.summary.planId = id
  requests : ∀ r request, w.requests r = some request → r < w.accepted ∧ w.RequestOk r request
  exclusive : ∀ r r' committed committed', w.Holds r committed → w.Holds r' committed' →
    committed.job.value.planId = committed'.job.value.planId ∨
      committed.job.value.jobId = committed'.job.value.jobId ∨
      committed.job.ptr = committed'.job.ptr → r = r'
  /-- the bytes of a job whose worker was not scheduled -/
  idle : ∀ r committed, w.Holds r committed →
    (w.cells committed.job.ptr).state.committedBytes = 0 ∧
      (w.cells committed.job.ptr).state.currentBytes = 0
  scheduled : ∀ r job, .scheduled r job ∈ w.trace → job.ptr < w.allocated ∧
    (∃ plan, w.Retains plan true ∧ plan.value.summary.planId = job.value.planId) ∧
    ∀ r' committed, w.Holds r' committed → committed.job.value.planId ≠ job.value.planId ∧
      committed.job.ptr ≠ job.ptr
  once : ∀ planId, w.trace.countP (·.schedulesPlan planId) ≤ 1

/-! ## Steps that keep the coordinator -/

variable {past past' : List (Vector UInt8 16)} {r : Nat}

theorem RequestOk.mono {request : RestoreRequest Capability Root} (h : w.RequestOk r request)
    (hrequest : w.requests r = some request)
    (hplans : ∀ plan started, w.Retains plan started → ∃ started', w'.Retains plan started')
    (htrace : w.trace ⊆ w'.trace)
    (hheld : ∀ committed, w.Holds r committed → w.Committed committed → w'.Committed committed) :
    w'.RequestOk r request := by
  have hchecked : ∀ prepared, w.Checked r prepared → w'.Checked r prepared := by
    intro prepared ⟨current, hcurrent, hrest⟩
    exact ⟨current, htrace hcurrent, hrest⟩
  cases request with
  | planning => trivial
  | bound => trivial
  | preflight scanId selectionRevision plan capability baseline =>
    obtain ⟨started, hplan⟩ := h
    exact hplans _ started hplan
  | prepared scanId selectionRevision prepared =>
    obtain ⟨⟨started, hplan⟩, hcheck⟩ := h
    exact ⟨hplans _ started hplan, hchecked prepared hcheck⟩
  | committed committed => exact hheld committed (.inl hrequest) h
  | unscheduled committed error => exact hheld committed (.inr ⟨error, hrequest⟩) h

theorem Committed.mono {committed : CommittedRestoreStart Root} (h : w.Committed committed)
    (hinner : w'.inner = w.inner) (hallocated : w.allocated ≤ w'.allocated) :
    w'.Committed committed where
  job := by rw [hinner]; exact h.job
  plan := by unfold Retains; rw [hinner]; exact h.plan
  planId := h.planId
  ptr := Nat.lt_of_lt_of_le h.ptr hallocated

theorem RequestOk.congr {request : RestoreRequest Capability Root} (h : w.RequestOk r request)
    (hinner : w'.inner = w.inner) (htrace : w'.trace = w.trace)
    (hallocated : w'.allocated = w.allocated) : w'.RequestOk r request := by
  have hretains : ∀ plan started, w.Retains plan started → w'.Retains plan started := by
    intro plan started hplan
    unfold Retains
    rw [hinner]
    exact hplan
  cases request with
  | planning => trivial
  | bound => trivial
  | preflight scanId selectionRevision plan capability baseline =>
    obtain ⟨started, hplan⟩ := h
    exact ⟨started, hretains _ _ hplan⟩
  | prepared scanId selectionRevision prepared =>
    obtain ⟨⟨started, hplan⟩, current, hcurrent, hrest⟩ := h
    exact ⟨⟨started, hretains _ _ hplan⟩, current, by rw [htrace]; exact hcurrent, hrest⟩
  | committed committed => exact Committed.mono h hinner (Nat.le_of_eq hallocated.symm)
  | unscheduled committed error => exact Committed.mono h hinner (Nat.le_of_eq hallocated.symm)

/-- A request that holds a committed start. -/
theorem Inv.committed (h : Inv past w) {committed : CommittedRestoreStart Root}
    (hheld : w.Holds r committed) : w.Committed committed := by
  rcases hheld with hrequest | ⟨error, hrequest⟩
  · exact (h.requests r _ hrequest).2
  · exact (h.requests r _ hrequest).2

theorem Inv.mono (h : Inv past w) (hpast : past ⊆ past') : Inv past' w :=
  { h with
    destinationId := fun id hid => by
      obtain ⟨bytes, hbytes, hid⟩ := h.destinationId id hid
      exact ⟨bytes, hpast hbytes, hid⟩
    planId := fun id hid => by
      obtain ⟨bytes, hbytes, hid⟩ := h.planId id hid
      exact ⟨bytes, hpast hbytes, hid⟩ }

/-- A step that leaves the coordinator as it is, and lets no request hold a start. -/
theorem Inv.keep (h : Inv past w) (hinner : w'.inner = w.inner)
    (hallocated : w.allocated ≤ w'.allocated) (haccepted : w.accepted ≤ w'.accepted)
    (htrace : ∃ new, w'.trace = w.trace ++ new ∧
      ∀ e ∈ new, ∀ r job, e ≠ CoordinatorEvent.scheduled r job)
    (hheld : ∀ r committed, w'.Holds r committed → w.Holds r committed)
    (hrequests : ∀ r request, w'.requests r = some request →
      w.requests r = some request ∨ r < w'.accepted ∧ w'.RequestOk r request)
    (hidle : ∀ r committed, w.Holds r committed →
      (w'.cells committed.job.ptr).state.committedBytes =
        (w.cells committed.job.ptr).state.committedBytes ∧
      (w'.cells committed.job.ptr).state.currentBytes =
        (w.cells committed.job.ptr).state.currentBytes) : Inv past w' := by
  obtain ⟨new, hnew, hquiet⟩ := htrace
  have hretains : ∀ plan started, w'.Retains plan started ↔ w.Retains plan started := by
    intro plan started
    unfold Retains
    rw [hinner]
  exact
    { destinationsLimit := by rw [hinner]; exact h.destinationsLimit
      plansLimit := by rw [hinner]; exact h.plansLimit
      jobsLimit := by rw [hinner]; exact h.jobsLimit
      destinationId := by rw [hinner]; exact h.destinationId
      planId := by rw [hinner]; exact h.planId
      plans := by rw [hinner]; exact h.plans
      requests := fun r request hrequest => by
        rcases hrequests r request hrequest with hold | hnew'
        · obtain ⟨hlt, hok⟩ := h.requests r request hold
          refine ⟨by omega, hok.mono hold (fun plan started hplan => ⟨started, ?_⟩) ?_
            fun committed _ hcommitted => hcommitted.mono hinner hallocated⟩
          · exact (hretains plan started).mpr hplan
          · rw [hnew]
            exact List.subset_append_left _ _
        · exact hnew'
      exclusive := fun r r' committed committed' hr hr' =>
        h.exclusive r r' committed committed' (hheld r committed hr) (hheld r' committed' hr')
      idle := fun r committed hr => by
        obtain ⟨hcommittedBytes, hcurrentBytes⟩ := hidle r committed (hheld r committed hr)
        rw [hcommittedBytes, hcurrentBytes]
        exact h.idle r committed (hheld r committed hr)
      scheduled := fun r job hmem => by
        rw [hnew, List.mem_append] at hmem
        rcases hmem with hmem | hmem
        · obtain ⟨hlt, ⟨plan, hplan, hid⟩, hother⟩ := h.scheduled r job hmem
          exact ⟨by omega, ⟨plan, (hretains plan true).mpr hplan, hid⟩,
            fun r' committed hr' => hother r' committed (hheld r' committed hr')⟩
        · exact absurd rfl (hquiet _ hmem r job)
      once := fun planId => by
        have hnone : new.countP (·.schedulesPlan planId) = 0 := by
          rw [List.countP_eq_zero]
          intro e he
          cases e with
          | scheduled r job => exact absurd rfl (hquiet _ he r job)
          | revalidated => exact Bool.false_ne_true
          | replied => exact Bool.false_ne_true
        rw [hnew, List.countP_append, hnone]
        exact h.once planId }

theorem Inv.reply (h : Inv past w) (reply : RestoreReply) : Inv past (w.reply reply) := by
  refine h.keep rfl (Nat.le_refl _) (Nat.le_refl _) ⟨_, rfl, fun e he r job => ?_⟩
    (fun r committed hr => hr) (fun r request hrequest => .inl hrequest) fun r committed _ =>
    ⟨rfl, rfl⟩
  rw [List.mem_singleton.mp he]
  exact fun heq => (by cases heq)

/-- A request moves on, but not to a committed start. -/
theorem Inv.move (h : Inv past w) {request : Option (RestoreRequest Capability Root)}
    (hlt : r < w.accepted) (hok : ∀ q, request = some q → w.RequestOk r q)
    (hheld : ∀ committed, request = some (.committed committed) ∨
      (∃ error, request = some (.unscheduled committed error)) → w.Holds r committed) :
    Inv past (w.move r request) := by
  have hother : ∀ r', r' ≠ r → (w.move r request).requests r' = w.requests r' :=
    fun r' hne => if_neg hne
  have hself : (w.move r request).requests r = request := if_pos rfl
  refine h.keep rfl (Nat.le_refl _) (Nat.le_refl _)
    ⟨[], (List.append_nil _).symm, fun e he => (by cases he)⟩ ?_ ?_ fun r committed _ => ⟨rfl, rfl⟩
  · intro r' committed hr'
    unfold Holds at hr'
    by_cases hr : r' = r
    · rw [hr, hself] at hr'
      rw [hr]
      exact hheld committed hr'
    · rw [hother r' hr] at hr'
      exact hr'
  · intro r' q hq
    by_cases hr : r' = r
    · rw [hr, hself] at hq
      rw [hr]
      exact .inr ⟨hlt, (hok q hq).congr rfl rfl rfl⟩
    · rw [hother r' hr] at hq
      exact .inl hq

theorem Inv.refuse (h : Inv past w) (hlt : r < w.accepted) (error : DesktopRestoreError) :
    Inv past (w.refuse r error) := by
  apply Inv.reply
  apply h.move hlt
  · exact fun q hq => (by cases hq)
  · rintro committed (hnone | ⟨error, hnone⟩) <;> cases hnone

theorem Inv.accept (h : Inv past w) {request : RestoreRequest Capability Root}
    (hok : w.RequestOk w.accepted request)
    (hheld : ∀ committed, request ≠ .committed committed ∧
      ∀ error, request ≠ .unscheduled committed error) : Inv past (w.accept request) := by
  have hself : (w.accept request).requests w.accepted = some request := if_pos rfl
  have hother : ∀ r', r' ≠ w.accepted → (w.accept request).requests r' = w.requests r' :=
    fun r' hne => if_neg hne
  refine h.keep rfl (Nat.le_refl _) (Nat.le_succ _)
    ⟨[], (List.append_nil _).symm, fun e he => (by cases he)⟩ ?_ ?_ fun r committed _ => ⟨rfl, rfl⟩
  · intro r' committed hr'
    unfold Holds at hr'
    by_cases hr : r' = w.accepted
    · rw [hr, hself] at hr'
      rcases hr' with hr' | ⟨error, hr'⟩
      · exact absurd (Option.some.inj hr') (hheld committed).1
      · exact absurd (Option.some.inj hr') ((hheld committed).2 error)
    · rw [hother r' hr] at hr'
      exact hr'
  · intro r' q hq
    by_cases hr : r' = w.accepted
    · rw [hr, hself] at hq
      cases hq
      rw [hr]
      exact .inr ⟨Nat.lt_succ_self _, hok.congr rfl rfl rfl⟩
    · rw [hother r' hr] at hq
      exact .inl hq

theorem Inv.revalidated (h : Inv past w) (capability : Capability)
    (answer : Except DesktopRestoreError DestinationRevalidation) :
    Inv past (w.revalidated r capability answer) := by
  refine h.keep rfl (Nat.le_refl _) (Nat.le_refl _) ⟨_, rfl, fun e he r job => ?_⟩
    (fun r committed hr => hr) (fun r request hrequest => .inl hrequest) fun r committed _ =>
    ⟨rfl, rfl⟩
  rw [List.mem_singleton.mp he]
  exact fun heq => (by cases heq)

/-- A step that changes cells, but no bytes of a job that waits for its worker. -/
theorem Inv.cells (h : Inv past w) (cells : Nat → JobCell)
    (hcells : ∀ r committed, w.Holds r committed →
      (cells committed.job.ptr).state.committedBytes =
        (w.cells committed.job.ptr).state.committedBytes ∧
      (cells committed.job.ptr).state.currentBytes =
        (w.cells committed.job.ptr).state.currentBytes) : Inv past { w with cells } := by
  exact h.keep rfl (Nat.le_refl _) (Nat.le_refl _)
    ⟨[], (List.append_nil _).symm, fun e he => (by cases he)⟩ (fun r committed hr => hr)
    (fun r request hrequest => .inl hrequest) hcells

end World

end Undelete.Desktop
