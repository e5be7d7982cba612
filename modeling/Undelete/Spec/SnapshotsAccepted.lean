import Undelete.Spec.SnapshotContract
import Undelete.Spec.TextContract
import Undelete.Spec.WorkerProtocol

/-!
# Every snapshot of a restore job is accepted

The window polls a job and accepts a snapshot only when it may follow the one it accepted before.
Whatever two moments of a run it polls at, it accepts both, unless the worker fails while the bytes
of an item are still counted: its last update forgets them, and the counter of the bytes falls.

## Key results

- `snapshots_accepted`: exactly when the window accepts every snapshot of a run.
-/

namespace Undelete.Desktop

open Except Restore Trace Contract

variable {σ Value : Type} {plan : RestoreJobPlan} {job : RetainedRestoreJob}
  {trace : List (Event Value)} {result : Except JobError (RestoreSummary Value)}
  {past earlier later : List (JobUpdate Value)} {u : JobUpdate Value}

/-! ## The snapshot of a state -/

/-- What `snapshotFrom` writes, when the bytes stay below the total. -/
def RetainedRestoreJob.shown (job : RetainedRestoreJob) (state : RestoreJobMutable) :
    RestoreJobSnapshotDto where
  schemaVersion := restoreSchemaVersion
  jobId := job.jobId
  planId := job.planId
  status := state.status
  itemsTotal := toString job.itemsTotal
  itemsCompleted := toString state.itemsCompleted
  itemsFailed := toString state.itemsFailed
  itemsCancelled := toString state.itemsCancelled
  bytesTotal := toString job.bytesTotal
  bytesCompleted := toString (state.committedBytes + state.currentBytes)
  currentItem := state.currentItem
  warnings := state.warnings
  manifest := visibleManifest state.status state.manifest

theorem dispositions_shown (job : RetainedRestoreJob) (state : RestoreJobMutable) :
    dispositions (job.shown state) =
      state.itemsCompleted + state.itemsFailed + state.itemsCancelled := by
  show bigInt (toString state.itemsCompleted) + bigInt (toString state.itemsFailed) +
    bigInt (toString state.itemsCancelled) = _
  rw [bigInt_toString, bigInt_toString, bigInt_toString]

theorem WorkerInv.snapshotFrom {state : RestoreJobMutable}
    (h : WorkerInv plan job trace past state) (hjob : JobOf plan job) :
    job.snapshotFrom state = .ok (job.shown state) := by
  have hlt := Nat.lt_of_le_of_lt h.bytes hjob.bytes_lt
  unfold RetainedRestoreJob.snapshotFrom
  rw [U64.checkedAdd_of_lt hlt]
  show Except.ok _ = _
  rw [Nat.min_eq_left h.bytes]
  rfl

/-! ## The contract accepts it -/

theorem isSha256Hex_hexDigest (digest : Digest) : isSha256Hex (hexDigest digest) = true := by
  have hlength : (hexDigest digest).length = 64 := by
    unfold hexDigest
    rw [length_hexLower, Vector.length_toList]
  have hdigit : ∀ i : Fin 16, ((hexDigit (UInt8.ofNat i)).isDigit ||
      ('a' ≤ hexDigit (UInt8.ofNat i) && hexDigit (UInt8.ofNat i) ≤ 'f')) = true := by
    decide
  unfold isSha256Hex
  rw [hlength, decide_eq_true rfl, Bool.true_and, List.all_eq_true]
  intro c hc
  unfold hexDigest hexLower at hc
  rw [String.toList_ofList] at hc
  obtain ⟨byte, _, hdigits⟩ := List.mem_flatMap.mp hc
  obtain ⟨high, low, hhigh, hlow, _⟩ := nibbles byte
  rw [hhigh, hlow] at hdigits
  rcases List.mem_cons.mp hdigits with rfl | hdigits
  · exact hdigit high
  · rw [List.mem_singleton.mp hdigits]
    exact hdigit low

theorem validManifest_summary (summary : RestoreSummary Value) {itemsCompleted : Nat}
    (hcount : summary.items.length ≤ itemsCompleted) (hlt : itemsCompleted < 2 ^ 64) :
    ValidManifest itemsCompleted (RestoreJobMutable.manifestSummary summary) := by
  have hpartial : summary.items.countP RestoreJobMutable.isPartial ≤ summary.items.length :=
    List.countP_le_length
  constructor
  · exact isSha256Hex_hexDigest summary.manifestSha256
  · unfold RestoreJobMutable.manifestSummary
    cases summary.completionStatus with
    | completedDurable => exact List.mem_cons_self
    | needsReconciliation => exact List.mem_cons_of_mem _ List.mem_cons_self
  · exact ⟨validCandidateId_toString (by omega), validCandidateId_toString (by omega)⟩
  · show bigInt (toString summary.items.length) ≤ itemsCompleted
    rw [bigInt_toString]
    exact hcount
  · show bigInt (toString (summary.items.countP RestoreJobMutable.isPartial)) ≤
      bigInt (toString summary.items.length)
    rw [bigInt_toString, bigInt_toString]
    exact hpartial

theorem jobWarnings_valid : ∀ warning ∈ jobWarnings,
    validText false warning = true ∧ pathless warning = true := by
  decide +kernel

/-- The item is shown with the number of the items that are done. -/
theorem WorkerInv.item_shown {state : RestoreJobMutable} (h : WorkerInv plan job trace past state)
    {shown : RestoreCurrentItemDto} (hshown : state.currentItem = some shown) :
    (observed past).length % 2 = 1 ∧ ∃ item, plan.items[(observed past).length / 2]? = some item ∧
      shown = ⟨toString ((observed past).length / 2), toString item.candidateId,
        RestoreJobMutable.itemKindName item.observerKind⟩ := by
  have hopen : ended past = false := by
    cases hended : ended past with
    | false => rfl
    | true =>
      rw [(h.idle hended).1] at hshown
      cases hshown
  rcases h.item hopen with ⟨_, hnone⟩ | ⟨hodd, item, hitem, hsome⟩
  · rw [hnone] at hshown
    cases hshown
  · rw [hsome] at hshown
    cases hshown
    exact ⟨hodd, item, hitem, rfl⟩

theorem WorkerInv.coherent (h : WorkerInv plan job trace past (job.after past))
    (hsum : (job.after past).itemsCompleted + (job.after past).itemsFailed +
      (job.after past).itemsCancelled = (observed past).length / 2) :
    coherentStatus (job.shown (job.after past)) = true := by
  -- a manifest is shown after the end of the job only
  have hmanifest : ((job.after past).status.isTerminal ||
      (visibleManifest (job.after past).status (job.after past).manifest).isNone) = true := by
    unfold visibleManifest
    cases (job.after past).status.isTerminal with
    | true => rfl
    | false => rfl
  have hnone : (job.after past).status = .queued ∨ (job.after past).status.isTerminal = true →
      (job.after past).currentItem = none := by
    intro hstatus
    rcases hstatus with hqueued | hterminal
    · rw [h.queued hqueued]
      rfl
    · rw [h.terminal] at hterminal
      exact (h.idle hterminal).1
  -- the ordinal shown is the number of finished items
  have hordinal : ∀ shown, (job.after past).currentItem = some shown →
      bigInt shown.ordinal = dispositions (job.shown (job.after past)) := by
    intro shown hshown
    obtain ⟨_, item, _, rfl⟩ := h.item_shown hshown
    rw [dispositions_shown, hsum]
    exact bigInt_toString _
  have hqueued : (job.after past).status = .queued → (job.after past).itemsCompleted = 0 ∧
      (job.after past).itemsFailed = 0 ∧ (job.after past).itemsCancelled = 0 ∧
      (job.after past).committedBytes + (job.after past).currentBytes = 0 := by
    intro hqueued
    rw [h.queued hqueued]
    exact ⟨rfl, rfl, rfl, rfl⟩
  unfold Contract.coherentStatus
  simp only [Bool.and_eq_true]
  refine ⟨⟨⟨⟨hmanifest, ?_⟩, ?_⟩, ?_⟩, ?_⟩
  · rw [Bool.or_eq_true, Bool.not_eq_true', Bool.or_eq_false_iff, decide_eq_false_iff_not]
    by_cases hstatus : (job.after past).status = .queued ∨
        (job.after past).status.isTerminal = true
    · right
      show (job.after past).currentItem.isNone = true
      rw [hnone hstatus]
      rfl
    · obtain ⟨hstarted, hopen⟩ := not_or.mp hstatus
      exact .inl ⟨hstarted, Bool.not_eq_true _ ▸ hopen⟩
  · show (job.after past).currentItem.all _ = true
    cases hshown : (job.after past).currentItem with
    | none => rfl
    | some shown => exact decide_eq_true (hordinal shown hshown)
  · rw [Bool.or_eq_true, decide_eq_true_eq]
    by_cases hstatus : (job.after past).status = .queued
    · right
      rw [hstatus] at hqueued
      obtain ⟨h₁, h₂, h₃, h₄⟩ := hqueued rfl
      show (decide (bigInt (toString _) = 0) && decide (bigInt (toString _) = 0) &&
        decide (bigInt (toString _) = 0) && decide (bigInt (toString _) = 0)) = true
      rw [h₁, h₂, h₃, h₄, bigInt_toString]
      rfl
    · exact .inl hstatus
  · rw [Bool.or_eq_true, decide_eq_true_eq]
    -- a completed job shows every item, every byte and its manifest
    by_cases hstatus : (job.after past).status = .completed
    · right
      obtain ⟨h₁, h₂, h₃, h₄, summary, hsummary, hcount⟩ := h.whole hstatus
      have hidle : (job.after past).currentBytes = 0 := by
        have hterminal := h.terminal
        rw [hstatus] at hterminal
        exact (h.idle hterminal.symm).2
      have hpublished : bigInt (toString summary.items.length) = bigInt (toString job.itemsTotal) :=
        congrArg (fun n => bigInt (toString n)) hcount
      show (decide (bigInt (toString _) = bigInt (toString job.itemsTotal)) &&
        decide (bigInt (toString _) = 0) && decide (bigInt (toString _) = 0) &&
        decide (bigInt (toString _) = bigInt (toString job.bytesTotal)) &&
        (visibleManifest _ _).any _) = true
      rw [h₁, h₂, h₃, h₄, hidle, hstatus, hsummary, Nat.add_zero, bigInt_toString 0,
        decide_eq_true rfl, decide_eq_true rfl, decide_eq_true rfl]
      exact decide_eq_true hpublished
    · exact .inl hstatus

theorem itemKindName_mem (kind : RestoreItemKind) :
    RestoreJobMutable.itemKindName kind ∈ kinds := by
  cases kind <;> decide

/-- The contract accepts the snapshot behind any update. -/
theorem validSnapshot_after (h : WorkerInv plan job trace past (job.after past))
    (hjob : JobOf plan job) (htells : TellsPlan plan (Restore.told trace)) :
    ValidSnapshot (job.shown (job.after past)) := by
  obtain ⟨hsum, hdone, hlimit⟩ := h.counters_lt hjob htells
  have hbytes := h.bytes
  have hbytes' := hjob.bytes_lt
  have hsmall : maxRestoreJobItems < 2 ^ 64 := by decide
  -- one goal for each check of `parseSnapshot`
  constructor
  · rfl
  · exact hjob.ids
  · simp only [List.forall_mem_cons, List.not_mem_nil, false_imp_iff, implies_true, and_true]
    exact ⟨validCandidateId_toString (by omega), validCandidateId_toString (by omega),
      validCandidateId_toString (by omega), validCandidateId_toString (by omega),
      validCandidateId_toString (by omega), validCandidateId_toString (by omega)⟩
  · rw [dispositions_shown]
    show coherentCounters (bigInt (toString job.itemsTotal)) _ (bigInt (toString job.bytesTotal))
      (bigInt (toString ((job.after past).committedBytes + (job.after past).currentBytes))) = true
    rw [bigInt_toString, bigInt_toString, bigInt_toString]
    have hpos : job.itemsTotal ≠ 0 := hjob.itemsTotal_bounds.1
    have hmax : maxRestoreJobItems = maxRetainedCandidatesPerScan := rfl
    unfold coherentCounters
    simp only [Bool.and_eq_true, decide_eq_true_eq]
    exact ⟨⟨⟨hpos, by omega⟩, by omega⟩, hbytes⟩
  · intro shown hshown
    obtain ⟨_, item, hitem, rfl⟩ := h.item_shown hshown
    obtain ⟨hlt, _⟩ := List.getElem?_eq_some_iff.mp hitem
    have hcandidate := hjob.candidateId_lt item (List.mem_of_getElem? hitem)
    constructor
    · exact ⟨validCandidateId_toString (by omega), validCandidateId_toString hcandidate⟩
    · exact itemKindName_mem item.observerKind
    · show bigInt (toString ((observed past).length / 2)) < bigInt (toString job.itemsTotal)
      rw [bigInt_toString, bigInt_toString, hjob.items]
      exact hlt
  · intro manifest hmanifest
    have hkept : (job.after past).manifest = some manifest := by
      have hvisible : visibleManifest (job.after past).status (job.after past).manifest =
          some manifest := hmanifest
      unfold visibleManifest at hvisible
      split at hvisible
      · exact hvisible
      · cases hvisible
    obtain ⟨summary, rfl, hcounted⟩ := h.manifest manifest hkept
    show ValidManifest (bigInt (toString (job.after past).itemsCompleted)) _
    rw [bigInt_toString]
    exact validManifest_summary summary hcounted (by omega)
  · exact h.warnings.1
  · intro warning hwarning
    exact jobWarnings_valid warning (h.warnings.2 hwarning)
  · exact h.coherent hsum

/-! ## What a later state keeps -/

/-- What the window compares, apart from the counters of the items. -/
structure Leads (state state' : RestoreJobMutable) : Prop where
  status : state'.status ∈ legalRestoreJobTransitions state.status
  bytes : state.committedBytes + state.currentBytes ≤ state'.committedBytes + state'.currentBytes
  settled : state.status.isTerminal = true → state' = state

theorem legalRestoreJobTransitions_self (status : RestoreJobStatusDto) :
    status ∈ legalRestoreJobTransitions status := by
  cases status <;> decide

theorem legalRestoreJobTransitions_trans {status status' status'' : RestoreJobStatusDto}
    (h : status' ∈ legalRestoreJobTransitions status)
    (h' : status'' ∈ legalRestoreJobTransitions status') :
    status'' ∈ legalRestoreJobTransitions status := by
  revert h h'
  cases status <;> cases status' <;> cases status'' <;> decide

theorem Leads.refl (state : RestoreJobMutable) : Leads state state :=
  ⟨legalRestoreJobTransitions_self state.status, Nat.le_refl _, fun _ => rfl⟩

theorem Leads.trans {state state' state'' : RestoreJobMutable} (h : Leads state state')
    (h' : Leads state' state'') : Leads state state'' := by
  refine ⟨legalRestoreJobTransitions_trans h.status h'.status, Nat.le_trans h.bytes h'.bytes, ?_⟩
  intro hterminal
  have hsame := h.settled hterminal
  rw [← hsame] at hterminal ⊢
  exact h'.settled hterminal

/-- A status that a worker may reach before it ends. -/
theorem legal_of_open {status status' : RestoreJobStatusDto} (h : status.isTerminal = false)
    (h' : status'.isTerminal = true) : status' ∈ legalRestoreJobTransitions status := by
  revert h h'
  cases status <;> cases status' <;> decide

theorem leads_of_ending {state state' : RestoreJobMutable} (hopen : state.status.isTerminal = false)
    (hends : state'.status.isTerminal = true)
    (hbytes : state.committedBytes + state.currentBytes ≤
      state'.committedBytes + state'.currentBytes) : Leads state state' := by
  refine ⟨legal_of_open hopen hends, hbytes, ?_⟩
  intro hterminal
  rw [hopen] at hterminal
  cases hterminal

theorem leads_of_open {state state' : RestoreJobMutable} (hopen : state.status.isTerminal = false)
    (hstatus : state'.status = state.status)
    (hbytes : state.committedBytes + state.currentBytes ≤
      state'.committedBytes + state'.currentBytes) : Leads state state' := by
  refine ⟨?_, hbytes, ?_⟩
  · rw [hstatus]
    exact legalRestoreJobTransitions_self state.status
  · intro hterminal
    rw [hopen] at hterminal
    cases hterminal

theorem leads_cancel (state : RestoreJobMutable) : Leads state state.cancel := by
  unfold RestoreJobMutable.cancel
  split
  · next hstatus =>
    refine ⟨?_, Nat.le_refl _, ?_⟩
    · show RestoreJobStatusDto.cancelling ∈ legalRestoreJobTransitions state.status
      rcases hstatus with hstatus | hstatus
      · rw [hstatus]
        decide
      · rw [hstatus]
        decide
    · intro hterminal
      rcases hstatus with hstatus | hstatus
      · rw [hstatus] at hterminal
        cases hterminal
      · rw [hstatus] at hterminal
        cases hterminal
  · exact .refl state

theorem leads_run (state : RestoreJobMutable) : Leads state state.run := by
  unfold RestoreJobMutable.run
  split
  · next hstatus =>
    refine ⟨?_, Nat.le_refl _, ?_⟩
    · show RestoreJobStatusDto.running ∈ legalRestoreJobTransitions state.status
      rw [hstatus]
      decide
    · intro hterminal
      rw [hstatus] at hterminal
      cases hterminal
  · exact .refl state

theorem leads_notScheduled {state : RestoreJobMutable} (hopen : state.status.isTerminal = false) :
    Leads state state.notScheduled := by
  obtain ⟨warnings, heq⟩ := pushJobWarning_eq { state with status := .failed }
    "RESTORE_WORKER_START_FAILED"
  unfold RestoreJobMutable.notScheduled
  rw [heq]
  exact leads_of_ending hopen rfl (Nat.le_refl _)

theorem leads_fail {state : RestoreJobMutable} (hopen : state.status.isTerminal = false)
    (hidle : state.currentBytes = 0) (warning : String) (cancelled : Bool)
    (manifest : Option RestoreManifestSummaryDto) :
    Leads state (state.fail warning cancelled manifest) := by
  obtain ⟨warnings, heq⟩ := pushJobWarning_eq { state with
    currentItem := none
    currentBytes := 0
    manifest
    status := if cancelled then .cancelled else .failed } warning
  unfold RestoreJobMutable.fail
  rw [heq]
  apply leads_of_ending hopen
  · cases cancelled <;> rfl
  · rw [hidle]

theorem leads_complete {state : RestoreJobMutable} (hopen : state.status.isTerminal = false)
    (hbytes : state.committedBytes + state.currentBytes ≤ job.bytesTotal)
    (summary : RestoreSummary Value) : Leads state (state.complete job summary) := by
  unfold RestoreJobMutable.complete RestoreJobMutable.commitEngineSuccessTerminal
  dsimp only
  split
  · exact leads_of_ending hopen rfl hbytes
  · obtain ⟨warnings, heq⟩ := pushJobWarning_eq { state with
      currentBytes := 0
      currentItem := none
      manifest := some (RestoreJobMutable.manifestSummary summary)
      itemsCompleted := summary.items.length
      itemsFailed := 0
      itemsCancelled := 0
      committedBytes := job.bytesTotal
      status := .failed } "RESTORE_TERMINAL_COUNT_MISMATCH"
    rw [heq]
    exact leads_of_ending hopen rfl hbytes

/-- The counters of the items are all that an outcome changes, and the warnings. -/
theorem countOutcome_keeps (state : RestoreJobMutable) (outcome : RestoreItemOutcome) :
    (state.countOutcome outcome).status = state.status ∧
      (state.countOutcome outcome).committedBytes = state.committedBytes ∧
      (state.countOutcome outcome).currentBytes = state.currentBytes := by
  cases outcome with
  | directoryNeedsReconciliation =>
    obtain ⟨warnings, heq⟩ := pushJobWarning_eq
      { state with itemsCompleted := U64.saturatingAdd state.itemsCompleted 1 }
      "RESTORE_DIRECTORY_NEEDS_RECONCILIATION"
    unfold RestoreJobMutable.countOutcome
    rw [heq]
    exact ⟨rfl, rfl, rfl⟩
  | _ => exact ⟨rfl, rfl, rfl⟩

theorem leads_observe (h : WorkerInv plan job trace past (job.after past)) (hjob : JobOf plan job)
    (htells : TellsPlan plan (Restore.told trace)) (hopen : ended past = false)
    {event : RestoreJobEvent} (htold : observed past ++ [event] <+: Restore.told trace) :
    Leads (job.after past) ((job.after past).observe event) := by
  have hstatus : (job.after past).status.isTerminal = false := h.terminal.trans hopen
  obtain ⟨item, hitem, hevent⟩ :=
    (htells.front htold).event (observed past).length event List.getElem?_concat_length
  rcases hevent with ⟨hparity, rfl⟩ | ⟨hparity, outcome, rfl⟩
  · -- no bytes are counted between two items
    apply leads_of_open hstatus
    · rfl
    · rw [h.resting hopen hparity]
      exact Nat.le_refl _
  · have hbytes : U64.checkedAdd (job.after past).committedBytes (job.after past).currentBytes =
        some ((job.after past).committedBytes + (job.after past).currentBytes) :=
      U64.checkedAdd_of_lt (Nat.lt_of_le_of_lt h.bytes hjob.bytes_lt)
    unfold RestoreJobMutable.observe
    dsimp only
    rw [hbytes, Option.getD_some]
    obtain ⟨hstatus', hcommitted, hcurrent⟩ := countOutcome_keeps { job.after past with
      committedBytes := (job.after past).committedBytes + (job.after past).currentBytes
      currentBytes := 0
      currentItem := none } outcome
    apply leads_of_open hstatus hstatus'
    rw [hcommitted, hcurrent]
    exact Nat.le_refl _

/-- One update leads from a state to the next, unless it is a failure that forgets the bytes of an
    item. -/
theorem leads_step (h : WorkerInv plan job trace past (job.after past)) (hjob : JobOf plan job)
    (htells : TellsPlan plan (Restore.told trace)) (hstep : WorkerStep plan job trace result past u)
    (hkeeps : u.fails = true → (job.after past).currentBytes = 0) :
    Leads (job.after past) (job.after (past ++ [u])) := by
  have hterminal := h.terminal
  rw [after_concat]
  -- a failing update is the only one that can take back bytes
  cases hstep with
  | cancel => exact leads_cancel _
  | notScheduled huntouched =>
    rw [ended_untouched huntouched] at hterminal
    exact leads_notScheduled hterminal
  | run huntouched => exact leads_run _
  | refused hrun hopen htold hcode =>
    rw [hopen] at hterminal
    exact leads_fail hterminal (hkeeps rfl) _ _ _
  | observe hrun hopen htold => exact leads_observe h hjob htells hopen htold
  | advanced hrun hopen hitem hlast hgrows hsize =>
    rw [hopen] at hterminal
    apply leads_of_open hterminal
    · rfl
    · apply Nat.add_le_add_left
      exact Nat.le_min.mpr ⟨hgrows, Nat.le_trans hgrows hsize⟩
  | engineEnd hrun hopen htold =>
    rw [hopen] at hterminal
    cases hresult : result with
    | ok summary => exact leads_complete hterminal h.bytes summary
    | error error =>
      rw [hresult] at hkeeps
      exact leads_fail hterminal (hkeeps rfl) _ _ _

theorem leads_of_guarded {rest : List (JobUpdate Value)} (hjob : JobOf plan job)
    (htells : JobTells plan trace result)
    (h : Guarded (WorkerStep plan job trace result) [] (earlier ++ rest))
    (hkeeps : ∀ before u, before ++ [u] <+: earlier ++ rest → u.fails = true →
      (job.after before).currentBytes = 0) :
    Leads (job.after earlier) (job.after (earlier ++ rest)) := by
  induction rest using List.reverseRecOn with
  | nil =>
    rw [List.append_nil]
    exact .refl _
  | append_singleton rest u ih =>
    rw [← List.append_assoc] at h hkeeps ⊢
    have hfront := ih h.front fun before u' hbefore => hkeeps before u'
      (hbefore.trans (List.prefix_append _ _))
    apply hfront.trans
    exact leads_step (workerInv_of_guarded hjob htells h.front) hjob htells.tells h.at
      (hkeeps _ u (List.prefix_refl _))

/-! ## The window accepts what follows -/

theorem countP_observed_le (p : RestoreJobEvent → Bool) (h : earlier <+: later) :
    (observed earlier).countP p ≤ (observed later).countP p :=
  (List.Sublist.filterMap _ h.sublist).countP_le

/-- The item of a later snapshot comes no earlier. -/
theorem itemFollows_of_le {k k' : Nat} {item item' : FileRestorePlan} (hle : k ≤ k')
    (hitem : plan.items[k]? = some item) (hitem' : plan.items[k']? = some item') :
    itemFollows ⟨toString k, toString item.candidateId,
        RestoreJobMutable.itemKindName item.observerKind⟩
      ⟨toString k', toString item'.candidateId,
        RestoreJobMutable.itemKindName item'.observerKind⟩ = true := by
  unfold itemFollows
  rw [Bool.and_eq_true, decide_eq_true_eq, bigInt_toString, bigInt_toString, Bool.or_eq_true,
    decide_eq_true_eq]
  refine ⟨hle, ?_⟩
  by_cases heq : k' = k
  · rw [heq, hitem] at hitem'
    cases hitem'
    right
    rw [Bool.and_eq_true, decide_eq_true_eq, decide_eq_true_eq]
    exact ⟨rfl, rfl⟩
  · left
    intro hsame
    apply heq
    have hordinal : toString k' = toString k := hsame
    rw [← bigInt_toString k', hordinal, bigInt_toString]

/-- A later snapshot of the same run may follow, when its state is led to. -/
theorem snapshotFollows_of_leads (h : WorkerInv plan job trace earlier (job.after earlier))
    (h' : WorkerInv plan job trace later (job.after later)) (hjob : JobOf plan job)
    (htells : TellsPlan plan (Restore.told trace)) (hbefore : earlier <+: later)
    (hleads : Leads (job.after earlier) (job.after later)) :
    snapshotFollows (job.shown (job.after earlier)) (job.shown (job.after later)) = true := by
  obtain ⟨hsum, _, _⟩ := h.counters_lt hjob htells
  obtain ⟨hsum', _, _⟩ := h'.counters_lt hjob htells
  have hlength : (observed earlier).length ≤ (observed later).length :=
    (List.Sublist.filterMap _ hbefore.sublist).length_le
  have hcompleted := countP_observed_le (·.completes) hbefore
  have hfailed := countP_observed_le (·.failsItem) hbefore
  have hcancelled := countP_observed_le (·.cancelsItem) hbefore
  rw [← h.completed, ← h'.completed] at hcompleted
  rw [← h.failed, ← h'.failed] at hfailed
  rw [← h.cancelled, ← h'.cancelled] at hcancelled
  have hlegal : (legalRestoreJobTransitions (job.after earlier).status).contains
      (job.after later).status = true := List.contains_iff_mem.mpr hleads.status
  have hitems : (job.after earlier).currentItem.all (fun before =>
      (job.after later).currentItem.all (itemFollows before)) = true := by
    cases hshown : (job.after earlier).currentItem with
    | none => rfl
    | some before =>
      cases hshown' : (job.after later).currentItem with
      | none => rfl
      | some current =>
        obtain ⟨_, item, hitem, rfl⟩ := h.item_shown hshown
        obtain ⟨_, item', hitem', rfl⟩ := h'.item_shown hshown'
        exact itemFollows_of_le (Nat.div_le_div_right hlength) hitem hitem'
  -- an item that is shown no more has ended
  have hended : ((job.after earlier).currentItem.isNone || (job.after later).currentItem.isSome ||
      (job.after later).status.isTerminal || decide (dispositions (job.shown (job.after earlier)) <
        dispositions (job.shown (job.after later)))) = true := by
    rw [dispositions_shown, dispositions_shown, hsum, hsum']
    cases hshown : (job.after earlier).currentItem with
    | none => rfl
    | some before =>
      cases hshown' : (job.after later).currentItem with
      | some current => rfl
      | none =>
        cases hterminal : (job.after later).status.isTerminal with
        | true => rfl
        | false =>
          obtain ⟨hodd, _⟩ := h.item_shown hshown
          rcases h'.item (h'.terminal.symm.trans hterminal) with ⟨heven, _⟩ | ⟨_, item, _, hsome⟩
          · exact decide_eq_true (by omega)
          · rw [hshown'] at hsome
            cases hsome
  have hsettled : (!(job.after earlier).status.isTerminal || sameTerminalRestoreSnapshot
      (job.shown (job.after earlier)) (job.shown (job.after later))) = true := by
    cases hterminal : (job.after earlier).status.isTerminal with
    | false => rfl
    | true =>
      rw [hleads.settled hterminal]
      unfold sameTerminalRestoreSnapshot
      simp only [decide_true, Bool.and_self, Bool.or_true]
  have hcounters : ∀ {n m : Nat}, n ≤ m → decide (bigInt (toString n) ≤ bigInt (toString m)) =
      true := by
    intro n m hle
    rw [bigInt_toString, bigInt_toString]
    exact decide_eq_true hle
  have hsame : ∀ text : String, decide (text = text) = true := fun _ => decide_eq_true rfl
  unfold snapshotFollows
  simp only [Bool.and_eq_true]
  exact ⟨⟨⟨⟨⟨⟨⟨⟨⟨⟨⟨hsame _, hsame _⟩, hsame _⟩, hsame _⟩, hlegal⟩, hcounters hcompleted⟩,
    hcounters hfailed⟩, hcounters hcancelled⟩, hcounters hleads.bytes⟩, hitems⟩, hended⟩, hsettled⟩

theorem bytes_of_follows {state state' : RestoreJobMutable}
    (h : snapshotFollows (job.shown state) (job.shown state') = true) :
    state.committedBytes + state.currentBytes ≤ state'.committedBytes + state'.currentBytes := by
  unfold snapshotFollows at h
  simp only [Bool.and_eq_true, decide_eq_true_eq] at h
  have hbytes : bigInt (toString (state.committedBytes + state.currentBytes)) ≤
      bigInt (toString (state'.committedBytes + state'.currentBytes)) := h.1.1.1.2
  rw [bigInt_toString, bigInt_toString] at hbytes
  exact hbytes

/-- A failure forgets the bytes of the item, and counts none. -/
theorem bytes_of_fails {state : RestoreJobMutable} (h : u.fails = true) :
    (job.apply state u).committedBytes + (job.apply state u).currentBytes =
      state.committedBytes := by
  cases u with
  | fail warning cancelled manifest =>
    obtain ⟨warnings, heq⟩ := pushJobWarning_eq { state with
      currentItem := none
      currentBytes := 0
      manifest
      status := if cancelled then .cancelled else .failed } warning
    show (RestoreJobMutable.fail state warning cancelled manifest).committedBytes +
      (RestoreJobMutable.fail state warning cancelled manifest).currentBytes = _
    unfold RestoreJobMutable.fail
    rw [heq]
    rfl
  | _ => cases h

/-- The window polls `earlier` and then `later`, and accepts both snapshots as they were written. -/
def Accepts (job : RetainedRestoreJob) (earlier later : List (JobUpdate Value)) : Prop :=
  ∃ snapshot snapshot', job.snapshotFrom (job.after earlier) = .ok snapshot ∧
    job.snapshotFrom (job.after later) = .ok snapshot' ∧
    parseRestoreJobSnapshot snapshot.toJson none = some snapshot ∧
    parseRestoreJobSnapshot snapshot'.toJson (some snapshot) = some snapshot'

/-- Whatever two moments of a run the window polls at, in order, it accepts both snapshots. -/
def AcceptsAlways (job : RetainedRestoreJob) (updates : List (JobUpdate Value)) : Prop :=
  ∀ earlier later, earlier <+: later → later <+: updates → Accepts job earlier later

/-- The window accepts every two snapshots of a run of a job exactly when the worker never fails
    while bytes of an item are counted that it has not ended. -/
theorem snapshots_accepted (env : JobEnv σ Value) (root : DestinationRoot) (plan : RestoreJobPlan)
    (s₀ : σ) (job : RetainedRestoreJob) (updates : List (JobUpdate Value)) (hjob : JobOf plan job)
    (hrun : Guarded (WorkerStep plan job (env.jobTrace root plan s₀) (env.jobResult root plan s₀))
      [] updates) :
    AcceptsAlways job updates ↔
      ∀ before u, before ++ [u] <+: updates → u.fails = true →
        (job.after before).currentBytes = 0 := by
  have htells := jobTrace_tells env root plan s₀
  have hinv : ∀ past : List (JobUpdate Value), past <+: updates →
      WorkerInv plan job (env.jobTrace root plan s₀) past (job.after past) := by
    intro past hpast
    obtain ⟨rest, rfl⟩ := hpast
    exact workerInv_of_guarded hjob htells hrun.front
  constructor
  -- a failure drops the bytes of the item in flight, which the parser refuses
  · intro haccepts before u hbefore hfails
    have hearlier := hinv before ((List.prefix_append _ _).trans hbefore)
    obtain ⟨snapshot, snapshot', hread, hread', _, hparsed⟩ :=
      haccepts before (before ++ [u]) (List.prefix_append _ _) hbefore
    rw [hearlier.snapshotFrom hjob] at hread
    rw [(hinv _ hbefore).snapshotFrom hjob] at hread'
    cases hread
    cases hread'
    rw [parse_snapshot (validSnapshot_after (hinv _ hbefore) hjob htells.tells)] at hparsed
    have hfollows : snapshotFollows (job.shown (job.after before))
        (job.shown (job.after (before ++ [u]))) = true := by
      split at hparsed
      · next hfollows => exact hfollows
      · cases hparsed
    have hbytes := bytes_of_follows hfollows
    rw [after_concat, bytes_of_fails hfails] at hbytes
    omega
  -- otherwise each snapshot leads to all later ones
  · intro hkeeps earlier later hearlier hlater
    have hinv₁ := hinv earlier (hearlier.trans hlater)
    have hinv₂ := hinv later hlater
    refine ⟨_, _, hinv₁.snapshotFrom hjob, hinv₂.snapshotFrom hjob, ?_, ?_⟩
    · exact parse_snapshot (validSnapshot_after hinv₁ hjob htells.tells) none
    · have hleads : Leads (job.after earlier) (job.after later) := by
        obtain ⟨rest, rfl⟩ := hearlier
        obtain ⟨rest', rfl⟩ := hlater
        exact leads_of_guarded hjob htells hrun.front fun before u hbefore =>
          hkeeps before u (hbefore.trans (List.prefix_append _ _))
      rw [parse_snapshot (validSnapshot_after hinv₂ hjob htells.tells)]
      exact if_pos (snapshotFollows_of_leads hinv₁ hinv₂ hjob htells.tells hearlier hleads)

/-! ### The worker of a job that restores one directory -/

def docsJob : RetainedRestoreJob where
  jobId := "job-1"
  planId := "plan-1"
  destinationId := "destination-1"
  engineJobId := "a"
  itemsTotal := 1
  bytesTotal := 0

theorem jobOf_docs : JobOf docsPlan docsJob where
  ids := by decide
  items := rfl
  bytes := by decide
  bytes_lt := by decide
  candidateId_lt := by decide

/-- A worker that is cancelled too late: the directory is published behind the cancellation. -/
def docsUpdates (trace : List (Event String)) (result : Except JobError (RestoreSummary String)) :
    List (JobUpdate String) :=
  [.run, .observe (startedEvent docsPlanItem 0), .cancel,
    .observe (.itemFinished 0 7 .directory .directoryCreated),
    engineEnd result (pendingManifest trace)]

theorem docsUpdates_guarded {trace : List (Event String)}
    {result : Except JobError (RestoreSummary String)}
    (htold : Restore.told trace = [startedEvent docsPlanItem 0,
      .itemFinished 0 7 .directory .directoryCreated]) :
    Guarded (WorkerStep docsPlan docsJob trace result) [] (docsUpdates trace result) := by
  apply Guarded.cons (.run fun _ hu => absurd hu List.not_mem_nil)
  apply Guarded.cons (.observe (.head _) rfl (htold ▸ ⟨_, rfl⟩))
  apply Guarded.cons .cancel
  apply Guarded.cons (.observe (.head _) rfl (htold ▸ ⟨_, rfl⟩))
  exact .single (.engineEnd (.head _) rfl htold.symm)

/-- No bytes are counted in a job of one directory, so that every two snapshots are accepted. -/
theorem snapshots_accepted_docs :
    AcceptsAlways docsJob (docsUpdates ((docsEnv none).jobTrace docsRoot docsPlan {})
      ((docsEnv none).jobResult docsRoot docsPlan {})) := by
  have hrun := @docsUpdates_guarded ((docsEnv none).jobTrace docsRoot docsPlan {})
    ((docsEnv none).jobResult docsRoot docsPlan {}) (by rw [JobEnv.seen_told, docsJob_seen]; rfl)
  apply (snapshots_accepted (docsEnv none) docsRoot docsPlan {} docsJob _ jobOf_docs hrun).mpr
  intro before u hbefore _
  obtain ⟨rest, hrest⟩ := (List.prefix_append before [u]).trans hbefore
  rw [← hrest] at hrun
  have hbytes := (workerInv_of_guarded jobOf_docs
    (jobTrace_tells (docsEnv none) docsRoot docsPlan {}) hrun.front).bytes
  exact (Nat.add_eq_zero_iff.mp (Nat.le_zero.mp hbytes)).2

end Undelete.Desktop
