import Undelete.Spec.CoordinatorCorrect

/-!
# The steps of the restore coordinator

Every step of the world keeps its invariant, one lemma for each locked block. The random bytes a
step draws are new: two ids are never equal.

## Key results

- `step_inv`: every step keeps the invariant.
- `run_inv`: it holds in every world that a run reaches.
-/

namespace Undelete.Desktop

open Except Restore RestoreCoordinatorInner

variable {Capability Root : Type}

/-! ## Parts of the steps -/

/-- The id of a plan is drawn for it. -/
theorem buildPlan_planId {env : CoordinatorEnv} {scan : RestoreScanSnapshot}
    {destinationId : String}
    {collisionPolicy : CollisionPolicyDto} {partialFilePolicy : PartialPolicy}
    {baseline : DestinationRevalidation}
    {revalidation : Except DesktopRestoreError DestinationRevalidation}
    {planRandom jobRandom : Option (Vector UInt8 16)} {plan : ImmutableRestorePlan}
    (h : buildPlan env scan destinationId collisionPolicy partialFilePolicy baseline revalidation
      planRandom jobRandom = .ok plan) :
    ∃ bytes, planRandom = some bytes ∧
      plan.summary.planId = "plan" ++ "-" ++ hexLower bytes.toList := by
  unfold buildPlan at h
  simp only [throw_bind, bind_eq_ok, ite_throw_eq_ok, createOpaqueId_eq_ok] at h
  obtain ⟨_, _, _, _, _, _, _, _, _, _, ⟨bytes, hbytes, rfl⟩, _, _, _, _, _, _, hplan⟩ := h
  cases hplan
  exact ⟨bytes, hbytes, rfl⟩

theorem pushJobWarning_bytes (state : RestoreJobMutable) (warning : String) :
    (state.pushJobWarning warning).committedBytes = state.committedBytes ∧
      (state.pushJobWarning warning).currentBytes = state.currentBytes := by
  unfold RestoreJobMutable.pushJobWarning
  split
  · exact ⟨rfl, rfl⟩
  · exact ⟨rfl, rfl⟩

theorem notScheduled_bytes (state : RestoreJobMutable) :
    state.notScheduled.committedBytes = state.committedBytes ∧
      state.notScheduled.currentBytes = state.currentBytes :=
  pushJobWarning_bytes _ _

theorem cancel_bytes (state : RestoreJobMutable) :
    state.cancel.committedBytes = state.committedBytes ∧
      state.cancel.currentBytes = state.currentBytes := by
  unfold RestoreJobMutable.cancel
  split
  · exact ⟨rfl, rfl⟩
  · exact ⟨rfl, rfl⟩

namespace World

variable {w w' : World Capability Root} {past : List (Vector UInt8 16)} {r : Nat}

/-! ## Destinations and plans -/

/-- One more destination. -/
theorem Inv.withDestination (h : Inv past w) {bytes : Vector UInt8 16}
    (hlimit : w.inner.destinations.keys.length < maxDestinationAuthorities)
    (destination : RetainedDestinationAuthority Capability) :
    Inv (past ++ [bytes]) { w with inner := { w.inner with
      destinations := w.inner.destinations.insert ("destination" ++ "-" ++ hexLower bytes.toList)
        destination } } := by
  have hmono := h.mono (List.subset_append_left past [bytes])
  exact
    { hmono with
      destinationsLimit := by
        have hlength := length_insert w.inner.destinations
          ("destination" ++ "-" ++ hexLower bytes.toList) destination
        dsimp only
        omega
      destinationId := by
        intro id hid
        rcases (AList.mem_insert _).mp hid with heq | hid
        · exact ⟨bytes, List.mem_concat_self, heq⟩
        · exact hmono.destinationId id hid
      requests := by
        intro r request hrequest
        obtain ⟨hlt, hok⟩ := h.requests r request hrequest
        refine ⟨hlt, hok.mono hrequest (fun plan started hplan => ⟨started, hplan⟩)
          (List.Subset.refl _) fun committed _ hcommitted => ?_⟩
        exact ⟨hcommitted.job, hcommitted.plan, hcommitted.planId, hcommitted.ptr⟩ }

/-- What a world with one more plan retains. -/
theorem retains_insert {plan plan' : Arc ImmutableRestorePlan} {started started' : Bool}
    (hne : plan'.value.summary.planId ≠ plan.value.summary.planId)
    (h : w.Retains plan' started') :
    Retains { w with inner := { w.inner with
      plans := w.inner.plans.insert plan.value.summary.planId ⟨plan, started⟩ } } plan'
      started' := by
  unfold Retains
  rw [AList.lookup_insert_ne hne]
  exact h

/-- A new id is that of no plan. -/
theorem Inv.fresh (h : Inv past w) {bytes : Vector UInt8 16} (hfresh : bytes ∉ past)
    {plan : Arc ImmutableRestorePlan} {started : Bool} (hplan : w.Retains plan started) :
    plan.value.summary.planId ≠ "plan" ++ "-" ++ hexLower bytes.toList := by
  intro heq
  have hmem : plan.value.summary.planId ∈ w.inner.plans := by
    rw [← AList.lookup_isSome, hplan]
    rfl
  obtain ⟨bytes', hbytes', hid⟩ := h.planId _ hmem
  rw [heq] at hid
  rw [opaqueId_inj hid] at hfresh
  exact hfresh hbytes'

/-- One more plan. -/
theorem Inv.withPlan (h : Inv past w) {bytes : Vector UInt8 16} (hfresh : bytes ∉ past)
    (hlimit : w.inner.plans.keys.length < maxRetainedRestorePlans)
    {plan : Arc ImmutableRestorePlan}
    (hid : plan.value.summary.planId = "plan" ++ "-" ++ hexLower bytes.toList) :
    Inv (past ++ [bytes]) { w with inner := { w.inner with
      plans := w.inner.plans.insert plan.value.summary.planId ⟨plan, false⟩ } } := by
  have hmono := h.mono (List.subset_append_left past [bytes])
  -- the id is fresh, so no plan is overwritten
  have hretains : ∀ plan' started, w.Retains plan' started →
      Retains { w with inner := { w.inner with
        plans := w.inner.plans.insert plan.value.summary.planId ⟨plan, false⟩ } } plan'
        started := by
    intro plan' started hplan'
    apply retains_insert _ hplan'
    rw [hid]
    exact h.fresh hfresh hplan'
  exact
    { hmono with
      plansLimit := by
        have hlength := length_insert w.inner.plans plan.value.summary.planId ⟨plan, false⟩
        dsimp only
        omega
      planId := by
        intro id hid'
        rcases (AList.mem_insert _).mp hid' with heq | hid'
        · exact ⟨bytes, List.mem_concat_self, heq.trans hid⟩
        · exact hmono.planId id hid'
      plans := by
        intro id plan' hlookup
        by_cases heq : id = plan.value.summary.planId
        · subst heq
          rw [AList.lookup_insert] at hlookup
          cases hlookup
          rfl
        · rw [AList.lookup_insert_ne heq] at hlookup
          exact h.plans id plan' hlookup
      requests := by
        intro r request hrequest
        obtain ⟨hlt, hok⟩ := h.requests r request hrequest
        refine ⟨hlt, hok.mono hrequest (fun plan' started hplan' => ⟨started, hretains _ _ hplan'⟩)
          (List.Subset.refl _) fun committed _ hcommitted => ?_⟩
        exact ⟨hcommitted.job, hretains _ _ hcommitted.plan, hcommitted.planId, hcommitted.ptr⟩
      scheduled := by
        intro r job hmem
        obtain ⟨hlt, ⟨plan', hplan', hid'⟩, hother⟩ := h.scheduled r job hmem
        exact ⟨hlt, ⟨plan', hretains _ _ hplan', hid'⟩, hother⟩ }

/-- Memory is allocated for a plan. -/
theorem Inv.allocate (h : Inv past w) : Inv past { w with allocated := w.allocated + 1 } := by
  exact h.keep rfl (Nat.le_succ _) (Nat.le_refl _)
    ⟨[], (List.append_nil _).symm, fun e he => (by cases he)⟩ (fun r committed hr => hr)
    (fun r request hrequest => .inl hrequest) fun r committed _ => ⟨rfl, rfl⟩

/-- A request is done. -/
theorem Inv.done (h : Inv past w) (hlt : r < w.accepted) : Inv past (w.move r none) := by
  apply h.move hlt
  · intro q hq
    cases hq
  · intro committed hcommitted
    rcases hcommitted with hnone | ⟨error, hnone⟩
    · cases hnone
    · cases hnone

/-! ## A start -/

/-- A commit: the plan is started, and its job is retained. -/
theorem Inv.commit (h : Inv past w) {scanId : String} {selectionRevision : Nat}
    {prepared : PreparedRestoreStart Capability Root} {selection : RestoreStartSelectionView}
    {committed : CommittedRestoreStart Root} {inner' : RestoreCoordinatorInner Capability}
    (hrequest : w.requests r = some (.prepared scanId selectionRevision prepared))
    (hcommits : w.inner.Commits selection prepared w.allocated committed inner') :
    Inv past ({ w with
      inner := inner'
      cells := fun ptr => if ptr = w.allocated then {} else w.cells ptr
      allocated := w.allocated + 1 }.move r (some (.committed committed))) := by
  obtain ⟨hlt, ⟨started, hretained⟩, hchecked⟩ := h.requests r _ hrequest
  obtain ⟨retained, hlookup, hstarted, _, _, _, _, _, hinner⟩ := hcommits.plan
  have hresult := hcommits.result
  have hfresh := hcommits.fresh
  -- the plan of the request is the plan that is retained
  have hsame : retained = ⟨prepared.plan.immutable, started⟩ := by
    rw [hretained] at hlookup
    exact (Option.some.inj hlookup).symm
  subst hsame
  dsimp only at hstarted
  subst hstarted hinner hresult
  -- a plan that is started is another one
  have hne : ∀ plan, w.Retains plan true →
      plan.value.summary.planId ≠ prepared.plan.immutable.value.summary.planId := by
    intro plan hplan heq
    unfold Retains at hplan
    rw [heq, hlookup] at hplan
    cases hplan
  have hjobNe : ∀ {r' committed'}, w.Holds r' committed' →
      committed'.job.value.jobId ≠ (newJob prepared).jobId := by
    intro r' committed' hheld heq
    have hjob := (h.committed hheld).job
    rw [heq, hfresh] at hjob
    cases hjob
  have hplanNe : ∀ {r' committed'}, w.Holds r' committed' →
      committed'.job.value.planId ≠ (newJob prepared).planId := by
    intro r' committed' hheld heq
    have hcommitted := h.committed hheld
    exact hne _ hcommitted.plan (hcommitted.planId.symm.trans heq)
  generalize hw : World.move _ r _ = w''
  have hplans : w''.inner.plans = w.inner.plans.insert
      prepared.plan.immutable.value.summary.planId ⟨prepared.plan.immutable, true⟩ := by
    rw [← hw]
    rfl
  have hjobs : w''.inner.jobs =
      w.inner.jobs.insert (newJob prepared).jobId ⟨w.allocated, newJob prepared⟩ := by
    rw [← hw]
    rfl
  have hdestinations : w''.inner.destinations = w.inner.destinations := by
    rw [← hw]
    rfl
  have htrace : w''.trace = w.trace := by
    rw [← hw]
    rfl
  have hallocated : w''.allocated = w.allocated + 1 := by
    rw [← hw]
    rfl
  have haccepted : w''.accepted = w.accepted := by
    rw [← hw]
    rfl
  have hcells : ∀ ptr, w''.cells ptr = if ptr = w.allocated then {} else w.cells ptr := by
    rw [← hw]
    exact fun _ => rfl
  have hself : w''.requests r = some (.committed
      ⟨⟨w.allocated, newJob prepared⟩, prepared.plan, prepared.destinationRoot⟩) := by
    rw [← hw]
    exact if_pos rfl
  have hother : ∀ r', r' ≠ r → w''.requests r' = w.requests r' := by
    rw [← hw]
    exact fun r' hr' => if_neg hr'
  clear hw
  have hretains : ∀ plan started', w.Retains plan started' →
      plan.value.summary.planId ≠ prepared.plan.immutable.value.summary.planId →
      w''.Retains plan started' := by
    intro plan started' hplan hdifferent
    unfold Retains
    rw [hplans, AList.lookup_insert_ne hdifferent]
    exact hplan
  have hstarts : w''.Retains prepared.plan.immutable true := by
    unfold Retains
    rw [hplans, AList.lookup_insert]
  have hsome : ∀ plan started', w.Retains plan started' → ∃ started'',
    w''.Retains plan started'' := by
    intro plan started' hplan
    by_cases heq : plan.value.summary.planId = prepared.plan.immutable.value.summary.planId
    · unfold Retains at hplan
      rw [heq, hlookup] at hplan
      cases hplan
      exact ⟨true, hstarts⟩
    · exact ⟨started', hretains plan started' hplan heq⟩
  have hheld : ∀ {r' committed'}, w''.Holds r' committed' →
      (r' = r ∧ committed' =
        ⟨⟨w.allocated, newJob prepared⟩, prepared.plan, prepared.destinationRoot⟩) ∨
      (r' ≠ r ∧ w.Holds r' committed') := by
    intro r' committed' hholds
    unfold Holds at hholds
    by_cases hr : r' = r
    · rw [hr, hself] at hholds
      rcases hholds with hholds | ⟨error, hholds⟩
      · cases hholds
        exact .inl ⟨hr, rfl⟩
      · cases hholds
    · rw [hother r' hr] at hholds
      exact .inr ⟨hr, hholds⟩
  exact
    { destinationsLimit := by
        rw [hdestinations]
        exact h.destinationsLimit
      plansLimit := by
        have hmem : prepared.plan.immutable.value.summary.planId ∈ w.inner.plans := by
          rw [← AList.lookup_isSome, hlookup]
          rfl
        rw [hplans, length_insert_of_mem _ hmem]
        exact h.plansLimit
      jobsLimit := by
        have hlength := length_insert w.inner.jobs (newJob prepared).jobId
          ⟨w.allocated, newJob prepared⟩
        have hlimit := hcommits.limit
        rw [hjobs]
        omega
      destinationId := by
        rw [hdestinations]
        exact h.destinationId
      planId := by
        intro id hid
        rw [hplans] at hid
        rcases (AList.mem_insert _).mp hid with heq | hid
        · apply h.planId
          rw [heq, ← AList.lookup_isSome, hlookup]
          rfl
        · exact h.planId id hid
      plans := by
        intro id plan hplan
        rw [hplans] at hplan
        by_cases heq : id = prepared.plan.immutable.value.summary.planId
        · subst heq
          rw [AList.lookup_insert] at hplan
          cases hplan
          rfl
        · rw [AList.lookup_insert_ne heq] at hplan
          exact h.plans id plan hplan
      requests := by
        intro r' request hreq
        by_cases hr : r' = r
        · rw [hr, hself] at hreq
          cases hreq
          refine ⟨by rw [hr, haccepted]; exact hlt, ?_, hstarts, rfl, ?_⟩
          · rw [hjobs]
            exact AList.lookup_insert _
          · rw [hallocated]
            exact Nat.lt_succ_self _
        · rw [hother r' hr] at hreq
          obtain ⟨hlt', hok⟩ := h.requests r' request hreq
          refine ⟨by rw [haccepted]; exact hlt', hok.mono hreq hsome ?_ ?_⟩
          · rw [htrace]
            exact List.Subset.refl _
          · intro committed' hholds hcommitted'
            refine ⟨?_, hretains _ _ hcommitted'.plan (hne _ hcommitted'.plan),
              hcommitted'.planId, ?_⟩
            · rw [hjobs, AList.lookup_insert_ne (hjobNe hholds)]
              exact hcommitted'.job
            · rw [hallocated]
              exact Nat.lt_succ_of_lt hcommitted'.ptr
      exclusive := by
        intro r₁ r₂ committed₁ committed₂ h₁ h₂ heq
        rcases hheld h₁ with ⟨hr₁, rfl⟩ | ⟨_, h₁⟩
        · rcases hheld h₂ with ⟨hr₂, rfl⟩ | ⟨_, h₂⟩
          · rw [hr₁, hr₂]
          · rcases heq with heq | heq | heq
            · exact absurd heq.symm (hplanNe h₂)
            · exact absurd heq.symm (hjobNe h₂)
            · exact absurd heq.symm (Nat.ne_of_lt (h.committed h₂).ptr)
        · rcases hheld h₂ with ⟨hr₂, rfl⟩ | ⟨_, h₂⟩
          · rcases heq with heq | heq | heq
            · exact absurd heq (hplanNe h₁)
            · exact absurd heq (hjobNe h₁)
            · exact absurd heq (Nat.ne_of_lt (h.committed h₁).ptr)
          · exact h.exclusive r₁ r₂ committed₁ committed₂ h₁ h₂ heq
      idle := by
        intro r' committed' hholds
        rw [hcells]
        rcases hheld hholds with ⟨_, rfl⟩ | ⟨_, hholds⟩
        · rw [if_pos rfl]
          exact ⟨rfl, rfl⟩
        · rw [if_neg (Nat.ne_of_lt (h.committed hholds).ptr)]
          exact h.idle r' committed' hholds
      scheduled := by
        intro r' job hmem
        rw [htrace] at hmem
        obtain ⟨hptr, ⟨plan, hplan, hid⟩, hnot⟩ := h.scheduled r' job hmem
        refine ⟨by rw [hallocated]; exact Nat.lt_succ_of_lt hptr,
          ⟨plan, hretains _ _ hplan (hne _ hplan), hid⟩, fun r'' committed' hholds => ?_⟩
        rcases hheld hholds with ⟨_, rfl⟩ | ⟨_, hholds⟩
        · refine ⟨?_, Nat.ne_of_gt hptr⟩
          intro heq
          exact hne _ hplan (hid.trans heq.symm)
        · exact hnot r'' committed' hholds
      once := by
        rw [htrace]
        exact h.once }

/-- A request that has ended holds no start, and the others hold what they held. -/
theorem holds_of_ended {w' : World Capability Root} (hself : w'.requests r = none)
    (hother : ∀ r', r' ≠ r → w'.requests r' = w.requests r') {r' : Nat}
    {committed : CommittedRestoreStart Root} (h : w'.Holds r' committed) :
    r' ≠ r ∧ w.Holds r' committed := by
  unfold Holds at h
  by_cases hr : r' = r
  · rw [hr, hself] at h
    rcases h with h | ⟨error, h⟩
    · cases h
    · cases h
  · rw [hother r' hr] at h
    exact ⟨hr, h⟩

/-- No worker was scheduled for a plan whose start is still held. -/
theorem Inv.unscheduled (h : Inv past w) {committed : CommittedRestoreStart Root}
    (hholds : w.Holds r committed) :
    w.trace.countP (·.schedulesPlan committed.job.value.planId) = 0 := by
  rw [List.countP_eq_zero]
  intro e he hschedules
  cases e with
  | scheduled r' job =>
    obtain ⟨_, _, hnot⟩ := h.scheduled r' job he
    exact (hnot r committed hholds).1 (of_decide_eq_true hschedules).symm
  | revalidated => cases hschedules
  | replied => cases hschedules

/-- The worker of a committed start is scheduled, and the request is done. -/
theorem Inv.schedule (h : Inv past w) {committed : CommittedRestoreStart Root}
    (hrequest : w.requests r = some (.committed committed)) :
    Inv past ((w.scheduled r committed.job).move r none) := by
  obtain ⟨hlt, hcommitted⟩ := h.requests r _ hrequest
  have hholds : w.Holds r committed := .inl hrequest
  have hself : ((w.scheduled r committed.job).move r none).requests r = none := if_pos rfl
  have hother : ∀ r', r' ≠ r →
      ((w.scheduled r committed.job).move r none).requests r' = w.requests r' :=
    fun r' hr' => if_neg hr'
  have hheld : ∀ {r' committed'},
      ((w.scheduled r committed.job).move r none).Holds r' committed' →
        r' ≠ r ∧ w.Holds r' committed' := holds_of_ended hself hother
  exact
    { h with
      requests := by
        intro r' request hreq
        by_cases hr : r' = r
        · rw [hr, hself] at hreq
          cases hreq
        · rw [hother r' hr] at hreq
          obtain ⟨hlt', hok⟩ := h.requests r' request hreq
          refine ⟨hlt', hok.mono hreq (fun plan started hplan => ⟨started, hplan⟩) ?_
            fun _ _ hcommitted' => ⟨hcommitted'.job, hcommitted'.plan, hcommitted'.planId,
              hcommitted'.ptr⟩⟩
          exact List.subset_append_left _ _
      exclusive := fun r₁ r₂ committed₁ committed₂ h₁ h₂ =>
        h.exclusive r₁ r₂ committed₁ committed₂ (hheld h₁).2 (hheld h₂).2
      idle := fun r' committed' hr' => h.idle r' committed' (hheld hr').2
      scheduled := by
        intro r' job hmem
        rcases List.mem_append.mp hmem with hmem | hmem
        · obtain ⟨hptr, hplan, hnot⟩ := h.scheduled r' job hmem
          exact ⟨hptr, hplan, fun r'' committed' hr'' => hnot r'' committed' (hheld hr'').2⟩
        · cases List.mem_singleton.mp hmem
          -- no other request holds a start of this plan or of this job
          refine ⟨hcommitted.ptr, ⟨committed.plan.immutable, hcommitted.plan,
            hcommitted.planId.symm⟩, fun r'' committed' hr'' => ?_⟩
          obtain ⟨hne, hholds'⟩ := hheld hr''
          constructor
          · intro heq
            exact hne (h.exclusive r'' r committed' committed hholds' hholds (.inl heq))
          · intro heq
            exact hne (h.exclusive r'' r committed' committed hholds' hholds (.inr (.inr heq)))
      once := by
        intro planId
        show (w.trace ++ [_]).countP _ ≤ 1
        rw [List.countP_append, List.countP_singleton]
        split
        · next hsame =>
          have hzero := h.unscheduled hholds
          rw [show committed.job.value.planId = planId from of_decide_eq_true hsame] at hzero
          omega
        · exact h.once planId }

/-- The rollback of a start whose worker was not scheduled. -/
theorem Inv.rollback (h : Inv past w) {committed : CommittedRestoreStart Root}
    {error : DesktopRestoreError} (hrequest : w.requests r = some (.unscheduled committed error)) :
    Inv past ({ w with inner := w.inner.rollbackStart committed }.move r none) := by
  obtain ⟨hlt, hcommitted⟩ := h.requests r _ hrequest
  have hholds : w.Holds r committed := .inr ⟨error, hrequest⟩
  have hplan : w.inner.plans.lookup committed.plan.immutable.value.summary.planId =
      some ⟨committed.plan.immutable, true⟩ := hcommitted.plan
  -- what was committed is still there to be undone
  rw [rollbackStart_eq hcommitted.job hplan]
  -- the new world is named, and only its fields are kept
  generalize hw : World.move _ r none = w''
  have hplans : w''.inner.plans = w.inner.plans.insert
      committed.plan.immutable.value.summary.planId ⟨committed.plan.immutable, false⟩ := by
    rw [← hw]
    rfl
  have hjobs : w''.inner.jobs = w.inner.jobs.erase committed.job.value.jobId := by
    rw [← hw]
    rfl
  have hdestinations : w''.inner.destinations = w.inner.destinations := by
    rw [← hw]
    rfl
  have htrace : w''.trace = w.trace := by
    rw [← hw]
    rfl
  have hallocated : w''.allocated = w.allocated := by
    rw [← hw]
    rfl
  have haccepted : w''.accepted = w.accepted := by
    rw [← hw]
    rfl
  have hcells : w''.cells = w.cells := by
    rw [← hw]
    rfl
  have hself : w''.requests r = none := by
    rw [← hw]
    exact if_pos rfl
  have hother : ∀ r', r' ≠ r → w''.requests r' = w.requests r' := by
    rw [← hw]
    exact fun r' hr' => if_neg hr'
  clear hw
  have hretains : ∀ plan started', w.Retains plan started' →
      plan.value.summary.planId ≠ committed.plan.immutable.value.summary.planId →
      w''.Retains plan started' := by
    intro plan started' hplan' hdifferent
    unfold Retains
    rw [hplans, AList.lookup_insert_ne hdifferent]
    exact hplan'
  have hsome : ∀ plan started', w.Retains plan started' → ∃ started'',
    w''.Retains plan started'' := by
    intro plan started' hplan'
    by_cases heq : plan.value.summary.planId = committed.plan.immutable.value.summary.planId
    · unfold Retains at hplan'
      rw [heq, hplan] at hplan'
      cases hplan'
      refine ⟨false, ?_⟩
      unfold Retains
      rw [hplans, AList.lookup_insert]
    · exact ⟨started', hretains plan started' hplan' heq⟩
  have hheld : ∀ {r' committed'}, w''.Holds r' committed' → r' ≠ r ∧ w.Holds r' committed' :=
    holds_of_ended hself hother
  exact
    { destinationsLimit := by
        rw [hdestinations]
        exact h.destinationsLimit
      plansLimit := by
        have hmem : committed.plan.immutable.value.summary.planId ∈ w.inner.plans := by
          rw [← AList.lookup_isSome, hplan]
          rfl
        rw [hplans, length_insert_of_mem _ hmem]
        exact h.plansLimit
      jobsLimit := by
        rw [hjobs]
        exact Nat.le_trans (length_erase w.inner.jobs _) h.jobsLimit
      destinationId := by
        rw [hdestinations]
        exact h.destinationId
      planId := by
        intro id hid
        rw [hplans] at hid
        rcases (AList.mem_insert _).mp hid with heq | hid
        · apply h.planId
          rw [heq, ← AList.lookup_isSome, hplan]
          rfl
        · exact h.planId id hid
      plans := by
        intro id plan' hplan'
        rw [hplans] at hplan'
        by_cases heq : id = committed.plan.immutable.value.summary.planId
        · subst heq
          rw [AList.lookup_insert] at hplan'
          cases hplan'
          rfl
        · rw [AList.lookup_insert_ne heq] at hplan'
          exact h.plans id plan' hplan'
      requests := by
        intro r' request hreq
        by_cases hr : r' = r
        · rw [hr, hself] at hreq
          cases hreq
        · rw [hother r' hr] at hreq
          obtain ⟨hlt', hok⟩ := h.requests r' request hreq
          refine ⟨by rw [haccepted]; exact hlt', hok.mono hreq hsome ?_ ?_⟩
          · rw [htrace]
            exact List.Subset.refl _
          · -- another start has another plan and another job
            intro committed' hholds' hcommitted'
            refine ⟨?_, hretains _ _ hcommitted'.plan ?_, hcommitted'.planId, ?_⟩
            · rw [hjobs, AList.lookup_erase_ne]
              · exact hcommitted'.job
              · intro heq
                exact hr (h.exclusive r' r committed' committed hholds' hholds (.inr (.inl heq)))
            · rw [← hcommitted'.planId, ← hcommitted.planId]
              intro heq
              exact hr (h.exclusive r' r committed' committed hholds' hholds (.inl heq))
            · rw [hallocated]
              exact hcommitted'.ptr
      exclusive := fun r₁ r₂ committed₁ committed₂ h₁ h₂ =>
        h.exclusive r₁ r₂ committed₁ committed₂ (hheld h₁).2 (hheld h₂).2
      idle := by
        intro r' committed' hr'
        rw [hcells]
        exact h.idle r' committed' (hheld hr').2
      scheduled := by
        intro r' job hmem
        rw [htrace] at hmem
        obtain ⟨hptr, ⟨plan', hplan', hid⟩, hnot⟩ := h.scheduled r' job hmem
        refine ⟨by rw [hallocated]; exact hptr, ⟨plan', hretains _ _ hplan' ?_, hid⟩,
          fun r'' committed' hr'' => hnot r'' committed' (hheld hr'').2⟩
        rw [hid, ← hcommitted.planId]
        exact fun heq => (hnot r committed hholds).1 heq.symm
      once := by
        rw [htrace]
        exact h.once }

/-! ## Every step -/

/-- The world before any request. -/
theorem inv_start (retained : RetainedScans) :
    Inv [] ({ retained } : World Capability Root) where
  destinationsLimit := Nat.zero_le _
  plansLimit := Nat.zero_le _
  jobsLimit := Nat.zero_le _
  destinationId := fun _ hid => (by cases hid)
  planId := fun _ hid => (by cases hid)
  plans := fun _ _ hplan => (by cases hplan)
  requests := fun _ _ hrequest => (by cases hrequest)
  exclusive := by
    intro _ _ _ _ hheld
    rcases hheld with hnone | ⟨error, hnone⟩
    · cases hnone
    · cases hnone
  idle := by
    intro _ _ hheld
    rcases hheld with hnone | ⟨error, hnone⟩
    · cases hnone
    · cases hnone
  scheduled := fun _ _ hmem => (by cases hmem)
  once := fun _ => Nat.zero_le _

theorem Inv.withRetained (h : Inv past w) (retained : RetainedScans) :
    Inv past { w with retained } := by
  exact h.keep rfl (Nat.le_refl _) (Nat.le_refl _)
    ⟨[], (List.append_nil _).symm, fun e he => (by cases he)⟩ (fun r committed hr => hr)
    (fun r request hrequest => .inl hrequest) fun r committed _ => ⟨rfl, rfl⟩

theorem preflight_inv (h : Inv past w) : Inv past (w.preflight r) := by
  unfold preflight
  split
  · next planId scanId selectionRevision hrequest =>
    have hlt := (h.requests r _ hrequest).1
    split
    · exact h.refuse hlt _
    · next plan capability baseline hauthority =>
      have hplan := startAuthority_ok hauthority
      apply h.move hlt
      · intro q hq
        cases hq
        refine ⟨plan.started, ?_⟩
        unfold Retains
        rw [h.plans planId plan hplan]
        exact hplan
      · intro committed hcommitted
        rcases hcommitted with hnone | ⟨error, hnone⟩
        · cases hnone
        · cases hnone
  · exact h

theorem prepare_inv (h : Inv past w)
    {revalidation : Except DesktopRestoreError DestinationRevalidation}
    {root : Except DesktopRestoreError Root} : Inv past (w.prepare r revalidation root) := by
  unfold prepare
  split
  · next scanId selectionRevision plan capability baseline hrequest =>
    obtain ⟨hlt, started, hplan⟩ := h.requests r _ hrequest
    have hrevalidated := h.revalidated (r := r) capability revalidation
    dsimp only
    split
    · exact hrevalidated.refuse hlt _
    · next prepared hprepared =>
      obtain ⟨rfl, rfl, rfl, current, rfl, hchecks, hbytes, hspace⟩ :=
        prepareRestoreStart_ok hprepared
      apply hrevalidated.move hlt
      · intro q hq
        cases hq
        exact ⟨⟨started, hplan⟩, current, List.mem_concat_self, hchecks, hbytes, hspace⟩
      · intro committed hcommitted
        rcases hcommitted with hnone | ⟨error, hnone⟩
        · cases hnone
        · cases hnone
  · exact h

theorem rollback_inv (h : Inv past w) : Inv past (w.rollback r) := by
  unfold World.rollback
  split
  · next committed error hrequest => exact (h.rollback hrequest).reply _
  · exact h

theorem cancelRestore_inv (h : Inv past w) (jobId : String) : Inv past (w.cancelRestore jobId) := by
  unfold cancelRestore
  split
  · exact h.reply _
  · next job hjob =>
    dsimp only
    apply Inv.reply
    apply h.cells
    intro r committed _
    split
    · next heq =>
      rw [heq]
      exact cancel_bytes _
    · exact ⟨rfl, rfl⟩

theorem work_inv (h : Inv past w) (ptr : Nat) (state : RestoreJobMutable) :
    Inv past (w.work ptr state) := by
  unfold work
  split
  · next hscheduled =>
    obtain ⟨e, he, hschedules⟩ := List.any_eq_true.mp hscheduled
    cases e with
    | scheduled r job =>
      have hptr : job.ptr = ptr := of_decide_eq_true hschedules
      apply h.cells
      intro r' committed hheld
      rw [if_neg]
      · exact ⟨rfl, rfl⟩
      · rw [← hptr]
        exact ((h.scheduled r job he).2.2 r' committed hheld).2
    | revalidated => cases hschedules
    | replied => cases hschedules
  · exact h

theorem launch_inv (h : Inv past w) {spawned : Except DesktopRestoreError Unit} :
    Inv past (w.launch r spawned) := by
  unfold launch
  split
  · next committed hrequest =>
    obtain ⟨hlt, hcommitted⟩ := h.requests r _ hrequest
    dsimp only
    split
    · exact h.refuse hlt _
    · split
      -- the worker is scheduled
      · exact (h.schedule hrequest).reply _
      · next error =>
        -- or not: then its state says so, and the request holds the start until it is rolled back
        have hcells := h.cells (fun ptr =>
          if ptr = committed.job.ptr then
            { w.cells committed.job.ptr with
              state := (w.cells committed.job.ptr).state.notScheduled }
          else w.cells ptr) (by
            intro r' committed' _
            split
            · next heq =>
              rw [heq]
              exact notScheduled_bytes _
            · exact ⟨rfl, rfl⟩)
        apply hcells.move hlt
        · intro q hq
          cases hq
          exact Committed.mono hcommitted rfl (Nat.le_refl _)
        · intro committed' hcommitted'
          rcases hcommitted' with heq | ⟨error', heq⟩
          · cases heq
          · cases heq
            exact .inl hrequest
  · exact h

/-- What the storage holds for a start that it authorizes. -/
theorem withRestoreStartSelection_ok {α : Type} {retained : RetainedScans} {scanId : String}
    {revision : Nat} {authorize : RestoreStartSelectionView → α} {a : α}
    (h : retained.withRestoreStartSelection scanId revision authorize = .ok a) :
    ∃ session, retained.scans scanId = some session ∧
      session.state.selectionRevision = revision ∧
      a = authorize
        { scanId
          source := session.results.source
          selectionRevision := session.state.selectionRevision
          candidates := session.results.candidates
          selected := session.state.selected } := by
  unfold RetainedScans.withRestoreStartSelection at h
  split at h
  · cases h
  · split at h
    · cases h
    · next session hsession =>
      split at h
      · cases h
      · next hrevision =>
        cases h
        exact ⟨session, hsession, (not_not.mp hrevision).symm, rfl⟩

variable [DecidableEq Capability] {env : CoordinatorEnv} {results : ResultsEnv}

theorem retainPlan_inv (h : Inv past w)
    {revalidation : Except DesktopRestoreError DestinationRevalidation}
    {planRandom jobRandom : Option (Vector UInt8 16)}
    (hfresh : ∀ bytes ∈ planRandom.toList, bytes ∉ past) :
    Inv (past ++ (planRandom.toList ++ jobRandom.toList))
      (w.retainPlan env r revalidation planRandom jobRandom) := by
  have hmono : ∀ {w' : World Capability Root}, Inv past w' →
      Inv (past ++ (planRandom.toList ++ jobRandom.toList)) w' :=
    fun h' => h'.mono (List.subset_append_left _ _)
  unfold retainPlan
  split
  · next scan destinationId collisionPolicy partialFilePolicy capability baseline hrequest =>
    have hlt := (h.requests r _ hrequest).1
    have hdone := h.allocate.done hlt
    dsimp only
    split
    · exact hmono (hdone.reply _)
    · next plan hbuilt =>
      split
      · exact hmono (hdone.reply _)
      -- only the id of the plan enters the maps, the one of the job is kept in the plan
      · next summary inner hretained =>
        obtain ⟨hlimit, rfl⟩ := retainPlan_ok hretained
        obtain ⟨bytes, hbytes, hid⟩ := buildPlan_planId hbuilt
        subst hbytes
        have hid' : (Arc.mk (w.allocated + 1) plan).value.summary.planId =
            "plan" ++ "-" ++ hexLower bytes.toList := hid
        have hplan := hdone.withPlan (hfresh bytes (List.mem_singleton_self bytes)) hlimit hid'
        apply Inv.reply
        apply hplan.mono
        intro x hx
        rcases List.mem_append.mp hx with hx | hx
        · exact List.mem_append_left _ hx
        · exact List.mem_append_right _ (List.mem_append_left _ hx)
  · exact hmono h

theorem commit_inv (h : Inv past w) : Inv past (w.commit r) := by
  unfold World.commit
  split
  · next scanId selectionRevision prepared hrequest =>
    have hlt := (h.requests r _ hrequest).1
    split
    · exact h.refuse hlt _
    · exact h.refuse hlt _
    · next committed inner hauthorized =>
      obtain ⟨session, _, _, hcommit⟩ := withRestoreStartSelection_ok hauthorized
      exact h.commit hrequest (commitPreparedRestoreStart_ok hcommit.symm)
  · exact h

/-- Every step keeps the invariant, when the bytes it draws are new. -/
theorem step_inv (h : Inv past w) (step : CoordinatorStep Capability Root)
    (hfresh : ∀ bytes ∈ step.drawn, bytes ∉ past) :
    Inv (past ++ step.drawn) (w.step env results step) := by
  have hnone : ∀ {w' : World Capability Root}, step.drawn = [] → Inv past w' →
      Inv (past ++ step.drawn) w' := by
    intro w' hdrawn h'
    rw [hdrawn, List.append_nil]
    exact h'
  -- a step that draws nothing keeps the ids that were drawn
  cases step with
  | storeSession session => exact hnone rfl (h.withRetained _)
  | serve scanId request => exact hnone rfl (h.withRetained _)
  | admitDestination scan admitted revalidation random =>
    unfold World.step
    dsimp only
    split
    · exact (h.mono (List.subset_append_left _ _)).reply _
    · next summary inner hadmitted =>
      apply Inv.reply
      rcases admitDestination_ok hadmitted with rfl | ⟨hlimit, bytes, destination, rfl, rfl⟩
      · exact h.mono (List.subset_append_left _ _)
      · exact h.withDestination hlimit destination
  | createRestorePlan scan destinationId collisionPolicy partialFilePolicy =>
    apply hnone rfl
    unfold World.step
    dsimp only
    split
    · exact h.reply _
    · exact h.accept trivial fun committed => ⟨fun h => (by cases h), fun _ h => (by cases h)⟩
  | retainPlan r revalidation planRandom jobRandom =>
    apply retainPlan_inv h
    intro bytes hbytes
    exact hfresh bytes (List.mem_append_left _ hbytes)
  | startRestore planId =>
    apply hnone rfl
    unfold World.step
    dsimp only
    split
    · exact h.reply _
    · exact h.accept trivial fun committed => ⟨fun h => (by cases h), fun _ h => (by cases h)⟩
  | preflight r => exact hnone rfl (preflight_inv h)
  | prepare r revalidation root => exact hnone rfl (prepare_inv h)
  | commit r => exact hnone rfl (commit_inv h)
  | launch r spawned => exact hnone rfl (launch_inv h)
  | rollback r => exact hnone rfl (rollback_inv h)
  | getRestoreJob jobId =>
    apply hnone rfl
    unfold World.step getRestoreJob
    dsimp only
    split
    · exact h.reply _
    · exact h.reply _
  | cancelRestore jobId => exact hnone rfl (cancelRestore_inv h jobId)
  | work ptr state => exact hnone rfl (work_inv h ptr state)

theorem run_append (w : World Capability Root)
    (steps steps' : List (CoordinatorStep Capability Root)) :
    run env results w (steps ++ steps') = run env results (run env results w steps) steps' :=
  List.foldl_append

/-- The invariant holds in every world that a run reaches, when all bytes it draws differ. -/
theorem run_inv (retained : RetainedScans) {steps : List (CoordinatorStep Capability Root)}
    (hfresh : (steps.flatMap (·.drawn)).Nodup) :
    Inv (steps.flatMap (·.drawn)) (run env results { retained } steps) := by
  induction steps using List.reverseRecOn with
  | nil => exact inv_start retained
  | append_singleton steps step ih =>
    rw [List.flatMap_append, List.flatMap_singleton] at hfresh ⊢
    obtain ⟨hbefore, _, hapart⟩ := List.nodup_append.mp hfresh
    rw [run_append]
    apply step_inv (ih hbefore)
    intro bytes hbytes hpast
    exact hapart bytes hpast bytes hbytes rfl

end World

end Undelete.Desktop
