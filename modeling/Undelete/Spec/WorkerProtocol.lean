import Undelete.Native.Desktop.RestoreContract
import Undelete.Native.Desktop.RestoreWorker
import Undelete.Spec.ObserverCorrect

/-!
# The protocol of a restore worker

Which update of a job's state may come next (`WorkerStep`): a cancellation at any time, and the
worker's own updates in their order. The worker reports what the engine told its observer, the
bytes of the item that is being streamed, and the end of the engine. `WorkerInv` is what holds of
the state behind any of them.

## Key results

- `WorkerInv.step`: every update keeps the invariant.
-/

namespace Undelete.Desktop

open Except Restore Trace

variable {Value : Type} {plan : RestoreJobPlan} {job : RetainedRestoreJob}

/-! ## Updates -/

/-- The events that the observer was told. -/
def observed (updates : List (JobUpdate Value)) : List RestoreJobEvent :=
  updates.filterMap JobUpdate.event

/-- The worker has ended. -/
def ended (updates : List (JobUpdate Value)) : Bool := updates.any JobUpdate.ends

/-- Nothing but cancellations. -/
def untouched (updates : List (JobUpdate Value)) : Prop := ∀ u ∈ updates, u = .cancel

/-- The manifest that `JobObserver` holds when the engine is done. -/
def pendingManifest (trace : List (Event Value)) : Option RestoreManifestSummaryDto :=
  (trace.filterMap Event.reportedSummary).getLast?.map RestoreJobMutable.manifestSummary

/-- What may change the state of a job behind `past`, when the engine leaves `trace` and ends with
    `result`. -/
inductive WorkerStep (plan : RestoreJobPlan) (job : RetainedRestoreJob) (trace : List (Event Value))
    (result : Except JobError (RestoreSummary Value)) (past : List (JobUpdate Value)) :
    JobUpdate Value → Prop
  | cancel : WorkerStep plan job trace result past .cancel
  | notScheduled (h : untouched past) : WorkerStep plan job trace result past .notScheduled
  | run (h : untouched past) : WorkerStep plan job trace result past .run
  | refused {code : String} (hrun : .run ∈ past) (hopen : ended past = false)
      (htold : observed past = []) (hcode : code ∈ sourceErrorCodes) :
      WorkerStep plan job trace result past (.fail code false none)
  | observe {event : RestoreJobEvent} (hrun : .run ∈ past) (hopen : ended past = false)
      (htold : observed past ++ [event] <+: told trace) :
      WorkerStep plan job trace result past (.observe event)
  | advanced {item : FileRestorePlan} {i bytesWritten : Nat} (hrun : .run ∈ past)
      (hopen : ended past = false) (hitem : plan.items[i]? = some item)
      (hlast : (observed past).getLast? = some (startedEvent item i))
      (hgrows : (job.after past).currentBytes ≤ bytesWritten)
      (hsize : bytesWritten ≤ item.logicalSize) :
      WorkerStep plan job trace result past (.advanced ⟨bytesWritten, item.logicalSize⟩)
  | engineEnd (hrun : .run ∈ past) (hopen : ended past = false)
      (htold : observed past = told trace) :
      WorkerStep plan job trace result past (engineEnd result (pendingManifest trace))

/-- The job of a plan: its totals are those of the items. -/
structure JobOf (plan : RestoreJobPlan) (job : RetainedRestoreJob) : Prop where
  ids : Contract.isOpaqueId job.jobId = true ∧ Contract.isOpaqueId job.planId = true
  items : job.itemsTotal = plan.items.length
  bytes : job.bytesTotal = (plan.items.map (·.logicalSize)).sum
  bytes_lt : job.bytesTotal < 2 ^ 64
  candidateId_lt : ∀ item ∈ plan.items, item.candidateId < 2 ^ 64

/-- A plan has an item, and no more than the limit. -/
theorem JobOf.itemsTotal_bounds (h : JobOf plan job) :
    job.itemsTotal ≠ 0 ∧ job.itemsTotal ≤ maxRestoreJobItems := by
  have haccepted := plan.accepted
  unfold checkJobPlan at haccepted
  simp only [throw_bind, bind_eq_ok, ite_throw_eq_ok] at haccepted
  obtain ⟨hsome, hlimit⟩ := not_or.mp haccepted.2.1
  rw [h.items]
  refine ⟨?_, by omega⟩
  intro hnone
  rw [List.length_eq_zero_iff.mp hnone] at hsome
  exact hsome rfl

section Lists

variable (past : List (JobUpdate Value)) (u : JobUpdate Value) (job : RetainedRestoreJob)

theorem observed_concat : observed (past ++ [u]) = observed past ++ u.event.toList := by
  unfold observed
  rw [List.filterMap_append]
  cases hevent : u.event with
  | none =>
    rw [List.filterMap_cons, hevent]
    rfl
  | some event =>
    rw [List.filterMap_cons, hevent]
    rfl

theorem ended_concat : ended (past ++ [u]) = (ended past || u.ends) := by
  unfold ended
  rw [List.any_append, List.any_cons, List.any_nil, Bool.or_false]

theorem after_concat : job.after (past ++ [u]) = job.apply (job.after past) u :=
  List.foldl_append

end Lists

theorem observed_untouched {past : List (JobUpdate Value)} (h : untouched past) :
    observed past = [] := by
  apply List.filterMap_eq_nil_iff.mpr
  intro u hu
  rw [h u hu]
  rfl

theorem ended_untouched {past : List (JobUpdate Value)} (h : untouched past) :
    ended past = false := by
  apply List.any_eq_false.mpr
  intro u hu
  rw [h u hu]
  exact Bool.false_ne_true

/-! ## The invariant -/

/-- The bytes of the first `n` items. -/
def sizeOfItems (plan : RestoreJobPlan) (n : Nat) : Nat :=
  ((plan.items.take n).map (·.logicalSize)).sum

theorem sizeOfItems_le (plan : RestoreJobPlan) (n : Nat) :
    sizeOfItems plan n ≤ (plan.items.map (·.logicalSize)).sum := by
  have hsplit : (plan.items.map (·.logicalSize)).sum =
      sizeOfItems plan n + ((plan.items.drop n).map (·.logicalSize)).sum := by
    unfold sizeOfItems
    rw [← List.sum_append, ← List.map_append, List.take_append_drop]
  omega

theorem sizeOfItems_succ {plan : RestoreJobPlan} {n : Nat} {item : FileRestorePlan}
    (h : plan.items[n]? = some item) :
    sizeOfItems plan (n + 1) = sizeOfItems plan n + item.logicalSize := by
  obtain ⟨hlt, hitem⟩ := List.getElem?_eq_some_iff.mp h
  unfold sizeOfItems
  rw [List.take_succ_eq_append_getElem hlt, hitem, List.map_append, List.sum_append]
  rfl

/-- The warnings that a job may carry. -/
def jobWarnings : List String :=
  sourceErrorCodes ++ ["RESTORE_CANCELLED", "RESTORE_ENGINE_FAILED",
    "RESTORE_DIRECTORY_NEEDS_RECONCILIATION", "RESTORE_WORKER_START_FAILED"]

/-- The item that is shown behind `k` events: the one that began, until it ends. -/
def ItemShown (plan : RestoreJobPlan) (k : Nat) (shown : Option RestoreCurrentItemDto) : Prop :=
  k % 2 = 0 ∧ shown = none ∨ k % 2 = 1 ∧ ∃ item, plan.items[k / 2]? = some item ∧
    shown = some ⟨toString (k / 2), toString item.candidateId,
      RestoreJobMutable.itemKindName item.observerKind⟩

/-- What the state of a job says of the updates behind it. -/
structure WorkerInv (plan : RestoreJobPlan) (job : RetainedRestoreJob) (trace : List (Event Value))
    (past : List (JobUpdate Value)) (state : RestoreJobMutable) : Prop where
  told : observed past <+: told trace
  completed : state.itemsCompleted = (observed past).countP (·.completes)
  failed : state.itemsFailed = (observed past).countP (·.failsItem)
  cancelled : state.itemsCancelled = (observed past).countP (·.cancelsItem)
  bytes : state.committedBytes + state.currentBytes ≤ job.bytesTotal
  warnings : state.warnings.length ≤ maxRestoreWarnings ∧ state.warnings ⊆ jobWarnings
  queued : state.status = .queued → past = []
  terminal : state.status.isTerminal = ended past
  /-- while the worker is at work -/
  committed : ended past = false →
    state.committedBytes ≤ sizeOfItems plan ((observed past).length / 2)
  moved : ended past = false → state.committedBytes + state.currentBytes ≤
    sizeOfItems plan (((observed past).length + 1) / 2)
  resting : ended past = false → (observed past).length % 2 = 0 → state.currentBytes = 0
  item : ended past = false → ItemShown plan (observed past).length state.currentItem
  unpublished : ended past = false → state.manifest = none
  /-- behind its end -/
  idle : ended past = true → state.currentItem = none ∧ state.currentBytes = 0
  manifest : ∀ manifest, state.manifest = some manifest → ∃ summary : RestoreSummary Value,
    manifest = RestoreJobMutable.manifestSummary summary ∧
      summary.items.length ≤ state.itemsCompleted
  whole : state.status = .completed → state.itemsCompleted = job.itemsTotal ∧
    state.itemsFailed = 0 ∧ state.itemsCancelled = 0 ∧ state.committedBytes = job.bytesTotal ∧
    ∃ summary : RestoreSummary Value,
      state.manifest = some (RestoreJobMutable.manifestSummary summary) ∧
        summary.items.length = job.itemsTotal

variable {trace : List (Event Value)}
  {result : Except JobError (RestoreSummary Value)} {past : List (JobUpdate Value)}
  {state : RestoreJobMutable} {u : JobUpdate Value}

theorem WorkerInv.start : WorkerInv plan job trace ([] : List (JobUpdate Value)) {} where
  told := List.nil_prefix
  completed := rfl
  failed := rfl
  cancelled := rfl
  bytes := Nat.zero_le _
  warnings := ⟨Nat.zero_le _, List.nil_subset _⟩
  queued := fun _ => rfl
  terminal := rfl
  committed := fun _ => Nat.zero_le _
  moved := fun _ => Nat.zero_le _
  resting := fun _ _ => rfl
  item := fun _ => .inl ⟨rfl, rfl⟩
  unpublished := fun _ => rfl
  idle := fun h => (by cases h)
  manifest := fun _ h => (by cases h)
  whole := fun h => (by cases h)

theorem pushJobWarning_warnings {warning : String} (hwarning : warning ∈ jobWarnings)
    (h : state.warnings.length ≤ maxRestoreWarnings ∧ state.warnings ⊆ jobWarnings) :
    (state.pushJobWarning warning).warnings.length ≤ maxRestoreWarnings ∧
      (state.pushJobWarning warning).warnings ⊆ jobWarnings := by
  unfold RestoreJobMutable.pushJobWarning
  split
  · next hroom =>
    rw [Bool.and_eq_true, decide_eq_true_eq] at hroom
    show (state.warnings ++ [warning]).length ≤ _ ∧ state.warnings ++ [warning] ⊆ _
    rw [List.length_append, List.length_singleton]
    refine ⟨hroom.1, ?_⟩
    intro w hw
    rcases List.mem_append.mp hw with hw | hw
    · exact h.2 hw
    · rw [List.mem_singleton.mp hw]
      exact hwarning
  · exact h

/-- A warning changes nothing else. -/
theorem pushJobWarning_eq (state : RestoreJobMutable) (warning : String) :
    ∃ warnings, state.pushJobWarning warning = { state with warnings } := by
  unfold RestoreJobMutable.pushJobWarning
  split
  · exact ⟨_, rfl⟩
  · exact ⟨state.warnings, rfl⟩

/-! ## Every update keeps the invariant -/

/-- An update that tells nothing, and does not end the worker. -/
theorem WorkerInv.quiet (h : WorkerInv plan job trace past state) {status : RestoreJobStatusDto}
    (hevent : u.event = none) (hends : u.ends = false)
    (hstatus : status = state.status ∨ status ≠ .queued ∧ status.isTerminal = false ∧
      state.status.isTerminal = false) (hqueued : status ≠ .queued) :
    WorkerInv plan job trace (past ++ [u]) { state with status } := by
  -- an update without an event leaves the observed events as they are
  have hobserved : observed (past ++ [u]) = observed past := by
    rw [observed_concat, hevent]
    exact List.append_nil _
  have hended : ended (past ++ [u]) = ended past := by
    rw [ended_concat, hends, Bool.or_false]
  exact
    { told := by rw [hobserved]; exact h.told
      completed := by rw [hobserved]; exact h.completed
      failed := by rw [hobserved]; exact h.failed
      cancelled := by rw [hobserved]; exact h.cancelled
      bytes := h.bytes
      warnings := h.warnings
      queued := fun heq => absurd heq hqueued
      terminal := by
        rw [hended, ← h.terminal]
        rcases hstatus with heq | ⟨_, hopen, hopen'⟩
        · rw [heq]
        · rw [hopen']
          exact hopen
      committed := by rw [hobserved, hended]; exact h.committed
      moved := by rw [hobserved, hended]; exact h.moved
      resting := by rw [hobserved, hended]; exact h.resting
      item := by rw [hobserved, hended]; exact h.item
      unpublished := by rw [hended]; exact h.unpublished
      idle := by rw [hended]; exact h.idle
      manifest := h.manifest
      whole := by
        intro heq
        rcases hstatus with hsame | ⟨_, hopen, _⟩
        · exact h.whole (hsame.symm.trans heq)
        · rw [show status = .completed from heq] at hopen
          cases hopen }

theorem WorkerInv.cancel (h : WorkerInv plan job trace past state) :
    WorkerInv plan job trace (past ++ [.cancel]) state.cancel := by
  unfold RestoreJobMutable.cancel
  split
  · next hstatus =>
    apply h.quiet rfl rfl
    · right
      refine ⟨RestoreJobStatusDto.noConfusion, rfl, ?_⟩
      rcases hstatus with hstatus | hstatus
      · rw [hstatus]
        rfl
      · rw [hstatus]
        rfl
    · exact RestoreJobStatusDto.noConfusion
  · next hstatus =>
    rw [not_or] at hstatus
    exact h.quiet rfl rfl (.inl rfl) hstatus.1

theorem WorkerInv.run (h : WorkerInv plan job trace past state) :
    WorkerInv plan job trace (past ++ [.run]) state.run := by
  unfold RestoreJobMutable.run
  split
  · next hstatus =>
    apply h.quiet rfl rfl
    · right
      refine ⟨RestoreJobStatusDto.noConfusion, rfl, ?_⟩
      rw [hstatus]
      rfl
    · exact RestoreJobStatusDto.noConfusion
  · next hstatus => exact h.quiet rfl rfl (.inl rfl) hstatus

theorem WorkerInv.advanced (h : WorkerInv plan job trace past state) (hjob : JobOf plan job)
    (htells : TellsPlan plan (Restore.told trace)) {item : FileRestorePlan} {i bytesWritten : Nat}
    (hrun : .run ∈ past) (hopen : ended past = false) (hitem : plan.items[i]? = some item)
    (hlast : (observed past).getLast? = some (startedEvent item i))
    (hsize : bytesWritten ≤ item.logicalSize) :
    WorkerInv plan job trace (past ++ [.advanced ⟨bytesWritten, item.logicalSize⟩])
      (state.advanced ⟨bytesWritten, item.logicalSize⟩) := by
  have hlength := (htells.front h.told).length_of_started hlast
  have hobserved : observed (past ++ [.advanced ⟨bytesWritten, item.logicalSize⟩]) =
      observed past := by
    rw [observed_concat]
    exact List.append_nil _
  have hended : ended (past ++ [.advanced ⟨bytesWritten, item.logicalSize⟩]) = false := by
    rw [ended_concat, hopen]
    rfl
  -- the bytes of the item in flight count up to its planned size
  have hmoved : state.committedBytes + min bytesWritten item.logicalSize ≤
      sizeOfItems plan (((observed past).length + 1) / 2) := by
    have hcommitted := h.committed hopen
    rw [show (observed past).length / 2 = i by omega] at hcommitted
    rw [show ((observed past).length + 1) / 2 = i + 1 by omega, sizeOfItems_succ hitem]
    omega
  exact
    { told := by rw [hobserved]; exact h.told
      completed := by rw [hobserved]; exact h.completed
      failed := by rw [hobserved]; exact h.failed
      cancelled := by rw [hobserved]; exact h.cancelled
      bytes := by
        rw [hjob.bytes]
        exact Nat.le_trans hmoved (sizeOfItems_le plan _)
      warnings := h.warnings
      queued := by
        intro hqueued
        exact absurd (h.queued hqueued) (List.ne_nil_of_mem hrun)
      terminal := by rw [hended, ← hopen]; exact h.terminal
      committed := by rw [hobserved]; exact fun _ => h.committed hopen
      moved := by rw [hobserved]; exact fun _ => hmoved
      resting := by
        rw [hobserved]
        intro _ heven
        omega
      item := by rw [hobserved]; exact fun _ => h.item hopen
      unpublished := fun _ => h.unpublished hopen
      idle := by
        rw [hended]
        intro hfalse
        cases hfalse
      manifest := h.manifest
      whole := by
        intro hcompleted
        have hterminal := h.terminal
        rw [show state.status = .completed from hcompleted, hopen] at hterminal
        cases hterminal }

theorem WorkerInv.started (h : WorkerInv plan job trace past state) (hrun : .run ∈ past)
    (hopen : ended past = false) {item : FileRestorePlan} {i : Nat}
    (hlength : (observed past).length = 2 * i) (hitem : plan.items[i]? = some item)
    (htold : observed past ++ [startedEvent item i] <+: Restore.told trace) :
    WorkerInv plan job trace (past ++ [.observe (startedEvent item i)])
      (state.observe (startedEvent item i)) := by
  have hobserved : observed (past ++ [.observe (startedEvent item i)]) =
      observed past ++ [startedEvent item i] := observed_concat _ _
  have hended : ended (past ++ [.observe (startedEvent item i)]) = false := by
    rw [ended_concat, hopen]
    rfl
  -- an odd number of events means an item is in flight
  have hlength' : (observed past ++ [startedEvent item i]).length = 2 * i + 1 := by
    rw [List.length_append, List.length_singleton, hlength]
  have hcommitted : state.committedBytes ≤ sizeOfItems plan i := by
    have hcommitted := h.committed hopen
    rw [hlength, Nat.mul_div_cancel_left i Nat.two_pos] at hcommitted
    exact hcommitted
  have hnone : [startedEvent item i].countP (·.completes) = 0 ∧
      [startedEvent item i].countP (·.failsItem) = 0 ∧
      [startedEvent item i].countP (·.cancelsItem) = 0 := ⟨rfl, rfl, rfl⟩
  exact
    { told := by rw [hobserved]; exact htold
      completed := by rw [hobserved, List.countP_append, hnone.1]; exact h.completed
      failed := by rw [hobserved, List.countP_append, hnone.2.1]; exact h.failed
      cancelled := by rw [hobserved, List.countP_append, hnone.2.2]; exact h.cancelled
      bytes := Nat.le_trans (Nat.le_add_right state.committedBytes state.currentBytes) h.bytes
      warnings := h.warnings
      queued := by
        intro hqueued
        exact absurd (h.queued hqueued) (List.ne_nil_of_mem hrun)
      terminal := by rw [hended, ← hopen]; exact h.terminal
      committed := by
        rw [hobserved, hlength', show (2 * i + 1) / 2 = i by omega]
        exact fun _ => hcommitted
      moved := by
        rw [hobserved, hlength', show (2 * i + 1 + 1) / 2 = i + 1 by omega, sizeOfItems_succ hitem]
        exact fun _ => Nat.le_trans hcommitted (Nat.le_add_right _ _)
      resting := fun _ _ => rfl
      item := by
        rw [hobserved, hlength']
        refine fun _ => .inr ⟨by omega, item, ?_⟩
        rw [show (2 * i + 1) / 2 = i by omega]
        exact ⟨hitem, rfl⟩
      unpublished := fun _ => h.unpublished hopen
      idle := by
        rw [hended]
        intro hfalse
        cases hfalse
      manifest := h.manifest
      whole := by
        intro hcompleted
        have hterminal := h.terminal
        rw [show state.status = .completed from hcompleted, hopen] at hterminal
        cases hterminal }

/-- The counters of an item that ended. -/
theorem countOutcome_spec (outcome : RestoreItemOutcome) {i candidateId : Nat}
    {kind : RestoreItemKind} (hcompleted : state.itemsCompleted + 1 < 2 ^ 64)
    (hfailed : state.itemsFailed + 1 < 2 ^ 64) (hcancelled : state.itemsCancelled + 1 < 2 ^ 64)
    (hwarnings : state.warnings.length ≤ maxRestoreWarnings ∧ state.warnings ⊆ jobWarnings) :
    ∃ warnings, (warnings.length ≤ maxRestoreWarnings ∧ warnings ⊆ jobWarnings) ∧
      state.countOutcome outcome =
        { state with
          itemsCompleted := state.itemsCompleted +
            [RestoreJobEvent.itemFinished i candidateId kind outcome].countP (·.completes)
          itemsFailed := state.itemsFailed +
            [RestoreJobEvent.itemFinished i candidateId kind outcome].countP (·.failsItem)
          itemsCancelled := state.itemsCancelled +
            [RestoreJobEvent.itemFinished i candidateId kind outcome].countP (·.cancelsItem)
          warnings } := by
  -- each outcome moves one counter; only reconciliation adds a warning
  cases outcome with
  | published =>
    refine ⟨state.warnings, hwarnings, ?_⟩
    unfold RestoreJobMutable.countOutcome
    dsimp only
    rw [U64.saturatingAdd_of_lt hcompleted]
    rfl
  | directoryCreated =>
    refine ⟨state.warnings, hwarnings, ?_⟩
    unfold RestoreJobMutable.countOutcome
    dsimp only
    rw [U64.saturatingAdd_of_lt hcompleted]
    rfl
  | directoryNeedsReconciliation =>
    unfold RestoreJobMutable.countOutcome
    dsimp only
    rw [U64.saturatingAdd_of_lt hcompleted]
    obtain ⟨warnings, heq⟩ := pushJobWarning_eq
      { state with itemsCompleted := state.itemsCompleted + 1 }
      "RESTORE_DIRECTORY_NEEDS_RECONCILIATION"
    have hpushed := @pushJobWarning_warnings { state with itemsCompleted :=
      state.itemsCompleted + 1 }
      "RESTORE_DIRECTORY_NEEDS_RECONCILIATION" (by decide) hwarnings
    rw [heq] at hpushed ⊢
    exact ⟨warnings, hpushed, rfl⟩
  | failed =>
    refine ⟨state.warnings, hwarnings, ?_⟩
    unfold RestoreJobMutable.countOutcome
    dsimp only
    rw [U64.saturatingAdd_of_lt hfailed]
    rfl
  | cancelled =>
    refine ⟨state.warnings, hwarnings, ?_⟩
    unfold RestoreJobMutable.countOutcome
    dsimp only
    rw [U64.saturatingAdd_of_lt hcancelled]
    rfl

/-- No more than one event of each item was counted. -/
theorem WorkerInv.counters_lt (h : WorkerInv plan job trace past state) (hjob : JobOf plan job)
    (htells : TellsPlan plan (Restore.told trace)) :
    state.itemsCompleted + state.itemsFailed + state.itemsCancelled =
        (observed past).length / 2 ∧
      (observed past).length / 2 ≤ job.itemsTotal ∧ job.itemsTotal ≤ maxRestoreJobItems := by
  have hfront := htells.front h.told
  have hcounts := countP_outcomes hfront.event
  rw [h.completed, h.failed, h.cancelled]
  refine ⟨hcounts, ?_, ?_⟩
  · by_cases hnil : (observed past).length = 0
    · rw [hnil]
      exact Nat.zero_le _
    · have hlast : (observed past)[(observed past).length - 1]? =
          some (observed past)[(observed past).length - 1] :=
        List.getElem?_eq_getElem (by omega)
      obtain ⟨item, hitem, _⟩ := hfront.event _ _ hlast
      obtain ⟨hlt, _⟩ := List.getElem?_eq_some_iff.mp hitem
      rw [hjob.items]
      omega
  · exact hjob.itemsTotal_bounds.2

theorem WorkerInv.finished (h : WorkerInv plan job trace past state) (hjob : JobOf plan job)
    (htells : TellsPlan plan (Restore.told trace)) (hrun : .run ∈ past)
    (hopen : ended past = false) {i candidateId : Nat} {kind : RestoreItemKind}
    {outcome : RestoreItemOutcome} (hlength : (observed past).length = 2 * i + 1)
    (htold : observed past ++ [.itemFinished i candidateId kind outcome] <+: Restore.told trace) :
    WorkerInv plan job trace (past ++ [.observe (.itemFinished i candidateId kind outcome)])
      (state.observe (.itemFinished i candidateId kind outcome)) := by
  obtain ⟨hsum, hle, hlimit⟩ := h.counters_lt hjob htells
  have hsmall : maxRestoreJobItems + 1 < 2 ^ 64 := by decide
  -- the committed bytes stay within the job total, so the addition is exact
  have hbytes : U64.checkedAdd state.committedBytes state.currentBytes =
      some (state.committedBytes + state.currentBytes) :=
    U64.checkedAdd_of_lt (Nat.lt_of_le_of_lt h.bytes hjob.bytes_lt)
  have hobserve : state.observe (.itemFinished i candidateId kind outcome) =
      RestoreJobMutable.countOutcome { state with
        committedBytes := state.committedBytes + state.currentBytes
        currentBytes := 0
        currentItem := none } outcome := by
    unfold RestoreJobMutable.observe
    dsimp only
    rw [hbytes]
    rfl
  obtain ⟨warnings, hwarnings, hcount⟩ := @countOutcome_spec { state with
        committedBytes := state.committedBytes + state.currentBytes
        currentBytes := 0
        currentItem := none } outcome i candidateId kind (by dsimp only; omega)
    (by dsimp only; omega) (by dsimp only; omega) h.warnings
  rw [hobserve, hcount]
  have hobserved : observed (past ++ [.observe (.itemFinished i candidateId kind outcome)]) =
      observed past ++ [.itemFinished i candidateId kind outcome] := observed_concat _ _
  have hended : ended (past ++ [.observe (.itemFinished i candidateId kind outcome)]) = false := by
    rw [ended_concat, hopen]
    rfl
  -- the end of an item makes the number of events even again
  have hlength' : (observed past ++ [RestoreJobEvent.itemFinished i candidateId kind
      outcome]).length = 2 * (i + 1) := by
    rw [List.length_append, List.length_singleton, hlength]
    omega
  have hmoved := h.moved hopen
  rw [hlength, show (2 * i + 1 + 1) / 2 = i + 1 by omega] at hmoved
  exact
    { told := by rw [hobserved]; exact htold
      completed := by rw [hobserved, List.countP_append, ← h.completed]
      failed := by rw [hobserved, List.countP_append, ← h.failed]
      cancelled := by rw [hobserved, List.countP_append, ← h.cancelled]
      bytes := h.bytes
      warnings := hwarnings
      queued := by
        intro hqueued
        exact absurd (h.queued hqueued) (List.ne_nil_of_mem hrun)
      terminal := by rw [hended, ← hopen]; exact h.terminal
      committed := by
        rw [hobserved, hlength', Nat.mul_div_cancel_left _ Nat.two_pos]
        exact fun _ => hmoved
      moved := by
        rw [hobserved, hlength', show (2 * (i + 1) + 1) / 2 = i + 1 by omega]
        exact fun _ => hmoved
      resting := fun _ _ => rfl
      item := by
        rw [hobserved, hlength']
        exact fun _ => .inl ⟨by omega, rfl⟩
      unpublished := fun _ => h.unpublished hopen
      idle := by
        rw [hended]
        intro hfalse
        cases hfalse
      manifest := by
        intro manifest hmanifest
        rw [h.unpublished hopen] at hmanifest
        cases hmanifest
      whole := by
        intro hcompleted
        have hterminal := h.terminal
        rw [show state.status = .completed from hcompleted, hopen] at hterminal
        cases hterminal }

/-- The worker comes to its end. -/
theorem WorkerInv.ending (h : WorkerInv plan job trace past state) {u : JobUpdate Value}
    (hevent : u.event = none) (hends : u.ends = true) {status : RestoreJobStatusDto}
    {committedBytes : Nat} {warnings : List String} {manifest : Option RestoreManifestSummaryDto}
    (hstatus : status.isTerminal = true) (hbytes : committedBytes ≤ job.bytesTotal)
    (hwarnings : warnings.length ≤ maxRestoreWarnings ∧ warnings ⊆ jobWarnings)
    (hmanifest : ∀ m, manifest = some m → ∃ summary : RestoreSummary Value,
      m = RestoreJobMutable.manifestSummary summary ∧
        summary.items.length ≤ state.itemsCompleted)
    (hwhole : status = .completed → state.itemsCompleted = job.itemsTotal ∧
      state.itemsFailed = 0 ∧ state.itemsCancelled = 0 ∧ committedBytes = job.bytesTotal ∧
      ∃ summary : RestoreSummary Value,
        manifest = some (RestoreJobMutable.manifestSummary summary) ∧
          summary.items.length = job.itemsTotal) :
    WorkerInv plan job trace (past ++ [u]) { state with
      status
      committedBytes
      currentBytes := 0
      currentItem := none
      warnings
      manifest } := by
  have hobserved : observed (past ++ [u]) = observed past := by
    rw [observed_concat, hevent]
    exact List.append_nil _
  have hended : ended (past ++ [u]) = true := by
    rw [ended_concat, hends, Bool.or_true]
  -- the facts about open runs are void once the job ended
  have hclosed : ∀ {P : Prop}, ended (past ++ [u]) = false → P := by
    intro P hopen
    rw [hended] at hopen
    cases hopen
  exact
    { told := by rw [hobserved]; exact h.told
      completed := by rw [hobserved]; exact h.completed
      failed := by rw [hobserved]; exact h.failed
      cancelled := by rw [hobserved]; exact h.cancelled
      bytes := hbytes
      warnings := hwarnings
      queued := by
        intro hqueued
        rw [show status = .queued from hqueued] at hstatus
        cases hstatus
      terminal := by rw [hended]; exact hstatus
      committed := hclosed
      moved := hclosed
      resting := hclosed
      item := hclosed
      unpublished := hclosed
      idle := fun _ => ⟨rfl, rfl⟩
      manifest := hmanifest
      whole := hwhole }

theorem WorkerInv.fail (h : WorkerInv plan job trace past state) {warning : String}
    {cancelled : Bool} {manifest : Option RestoreManifestSummaryDto}
    (hwarning : warning ∈ jobWarnings)
    (hmanifest : ∀ m, manifest = some m → ∃ summary : RestoreSummary Value,
      m = RestoreJobMutable.manifestSummary summary ∧
        summary.items.length ≤ state.itemsCompleted) :
    WorkerInv plan job trace (past ++ [.fail warning cancelled manifest])
      (state.fail warning cancelled manifest) := by
  have hpushed := @pushJobWarning_warnings { state with
    currentItem := none
    currentBytes := 0
    manifest
    status := if cancelled then .cancelled else .failed } warning hwarning h.warnings
  obtain ⟨warnings, heq⟩ := pushJobWarning_eq { state with
    currentItem := none
    currentBytes := 0
    manifest
    status := if cancelled then .cancelled else .failed } warning
  rw [heq] at hpushed
  unfold RestoreJobMutable.fail
  rw [heq]
  apply h.ending rfl rfl
  · cases cancelled <;> rfl
  · exact Nat.le_trans (Nat.le_add_right _ _) h.bytes
  · exact hpushed
  · exact hmanifest
  · intro hcompleted
    cases cancelled <;> cases hcompleted

theorem WorkerInv.notScheduled (h : WorkerInv plan job trace past state)
    (huntouched : untouched past) :
    WorkerInv plan job trace (past ++ [.notScheduled]) state.notScheduled := by
  have hopen := ended_untouched huntouched
  have hnothing := observed_untouched huntouched
  have hbytes : state.currentBytes = 0 := h.resting hopen (by rw [hnothing]; rfl)
  have hitem : state.currentItem = none := by
    rcases h.item hopen with ⟨_, hnone⟩ | ⟨hodd, _⟩
    · exact hnone
    · rw [hnothing] at hodd
      cases hodd
  have hpushed := @pushJobWarning_warnings { state with status := .failed }
    "RESTORE_WORKER_START_FAILED" (by decide) h.warnings
  obtain ⟨warnings, heq⟩ := pushJobWarning_eq { state with status := .failed }
    "RESTORE_WORKER_START_FAILED"
  rw [heq] at hpushed
  have hstate : state.notScheduled = { state with
      status := .failed
      committedBytes := state.committedBytes
      currentBytes := 0
      currentItem := none
      warnings
      manifest := state.manifest } := by
    unfold RestoreJobMutable.notScheduled
    rw [heq, hbytes, hitem]
  rw [hstate]
  apply h.ending rfl rfl rfl
  · exact Nat.le_trans (Nat.le_add_right _ _) h.bytes
  · exact hpushed
  · exact h.manifest
  · intro hcompleted
    cases hcompleted

/-- The engine published every item. -/
theorem WorkerInv.complete (h : WorkerInv plan job trace past state) (hjob : JobOf plan job)
    (htells : JobTells plan trace result) {summary : RestoreSummary Value}
    (hresult : result = .ok summary) (htold : observed past = Restore.told trace) :
    WorkerInv plan job trace (past ++ [.complete summary]) (state.complete job summary) := by
  obtain ⟨hitems, hlength, hgood⟩ := htells.finished summary hresult
  -- a run that returns a summary told of no failed and no cancelled item
  have hfailed : state.itemsFailed = 0 := by
    rw [h.failed, htold, List.countP_eq_zero]
    intro event hevent hfails
    have hends := hgood event hevent
    unfold RestoreJobEvent.failsItem at hfails
    split at hfails
    · cases hends
    · cases hfails
  have hcancelled : state.itemsCancelled = 0 := by
    rw [h.cancelled, htold, List.countP_eq_zero]
    intro event hevent hcancels
    have hends := hgood event hevent
    unfold RestoreJobEvent.cancelsItem at hcancels
    split at hcancels
    · cases hends
    · cases hcancels
  have hcompleted : state.itemsCompleted = job.itemsTotal := by
    obtain ⟨hsum, _, _⟩ := h.counters_lt hjob htells.tells
    rw [htold, hlength, hfailed, hcancelled, Nat.mul_div_cancel_left _ Nat.two_pos] at hsum
    rw [hjob.items]
    exact hsum
  -- so the check of the terminal commit passes and the status is completed
  have hcommit : state.complete job summary = { state with
      status := .completed
      committedBytes := job.bytesTotal
      currentBytes := 0
      currentItem := none
      warnings := state.warnings
      manifest := some (RestoreJobMutable.manifestSummary summary) } := by
    unfold RestoreJobMutable.complete RestoreJobMutable.commitEngineSuccessTerminal
    dsimp only
    rw [if_pos]
    rw [hjob.items] at hcompleted ⊢
    exact ⟨hcompleted.trans hitems.symm, hcompleted, hfailed, hcancelled, hitems⟩
  rw [hcommit]
  apply h.ending rfl rfl rfl (Nat.le_refl _) h.warnings
  · intro m hm
    cases hm
    exact ⟨summary, rfl, by rw [hcompleted, hitems, hjob.items]⟩
  · intro _
    exact ⟨hcompleted, hfailed, hcancelled, rfl, summary, rfl, by rw [hitems, hjob.items]⟩

/-- The manifest that the observer holds lists no item that it did not count. -/
theorem pendingManifest_counted (htells : JobTells plan trace result)
    {m : RestoreManifestSummaryDto} (h : pendingManifest trace = some m) :
    ∃ summary : RestoreSummary Value, m = RestoreJobMutable.manifestSummary summary ∧
      summary.items.length ≤ (Restore.told trace).countP (·.completes) := by
  unfold pendingManifest at h
  rw [Option.map_eq_some_iff] at h
  obtain ⟨summary, hlast, rfl⟩ := h
  exact ⟨summary, rfl, htells.summary summary (List.mem_of_getLast? hlast)⟩

theorem WorkerInv.engineEnd (h : WorkerInv plan job trace past state) (hjob : JobOf plan job)
    (htells : JobTells plan trace result) (htold : observed past = Restore.told trace) :
    WorkerInv plan job trace (past ++ [engineEnd result (pendingManifest trace)])
      (job.apply state (Desktop.engineEnd result (pendingManifest trace))) := by
  cases hresult : result with
  | ok summary => exact h.complete hjob htells hresult htold
  | error error =>
    apply h.fail
    · cases error.isCancelled <;> decide
    · intro m hm
      obtain ⟨summary, hsummary, hcounted⟩ := pendingManifest_counted htells hm
      refine ⟨summary, hsummary, ?_⟩
      rw [h.completed, htold]
      exact hcounted

theorem WorkerInv.observe (h : WorkerInv plan job trace past state) (hjob : JobOf plan job)
    (htells : TellsPlan plan (Restore.told trace)) (hrun : .run ∈ past) (hopen : ended past = false)
    {event : RestoreJobEvent} (htold : observed past ++ [event] <+: Restore.told trace) :
    WorkerInv plan job trace (past ++ [.observe event]) (state.observe event) := by
  obtain ⟨item, hitem, hevent⟩ :=
    (htells.front htold).event (observed past).length event List.getElem?_concat_length
  rcases hevent with ⟨hparity, rfl⟩ | ⟨hparity, outcome, rfl⟩
  · exact h.started hrun hopen (by omega) hitem htold
  · exact h.finished hjob htells hrun hopen (by omega) htold

/-- Every update keeps the invariant. -/
theorem WorkerInv.step (h : WorkerInv plan job trace past (job.after past)) (hjob : JobOf plan job)
    (htells : JobTells plan trace result) (hstep : WorkerStep plan job trace result past u) :
    WorkerInv plan job trace (past ++ [u]) (job.after (past ++ [u])) := by
  rw [after_concat]
  cases hstep with
  | cancel => exact h.cancel
  | notScheduled huntouched => exact h.notScheduled huntouched
  | run huntouched => exact h.run
  | refused hrun hopen htold hcode =>
    apply h.fail
    · exact List.mem_append_left _ hcode
    · intro m hm
      cases hm
  | observe hrun hopen htold => exact h.observe hjob htells.tells hrun hopen htold
  | advanced hrun hopen hitem hlast hgrows hsize =>
    exact h.advanced hjob htells.tells hrun hopen hitem hlast hsize
  | engineEnd hrun hopen htold => exact h.engineEnd hjob htells htold

/-- It holds behind every run of the worker. -/
theorem workerInv_of_guarded {updates : List (JobUpdate Value)} (hjob : JobOf plan job)
    (htells : JobTells plan trace result)
    (h : Guarded (WorkerStep plan job trace result) [] updates) :
    WorkerInv plan job trace updates (job.after updates) := by
  induction updates using List.reverseRecOn with
  | nil => exact .start
  | append_singleton past u ih => exact (ih h.front).step hjob htells h.at

end Undelete.Desktop
