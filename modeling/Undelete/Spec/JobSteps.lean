import Undelete.Spec.JobProtocol

/-!
# The steps of a restore job

Every function of the job, from the final manifest to the item loop and the start, takes only the
steps of `JobStep`.

## Key results

- `publishFinalManifest_spec`: the manifest is linked behind its record, and what the summary
  says of the trace.
- `restoreJob_spec`: a run of `restore_job_observed_with_runtime`.
-/

namespace Undelete.Restore

open Except EStateM Trace

variable {σ Value : Type} {env : JobEnv σ Value} {digest : Digest} {s s' : JobState σ Value}
  {root : DestinationRoot} {plan : RestoreJobPlan} {jobDir : Dir}

/-! ## The manifest -/

/-- What the summary of a job says of the trace. -/
structure SummaryKnown (env : JobEnv σ Value) (jobDir : Dir)
    (outcomes : List (ManifestItemOutcome Value)) (summary : RestoreSummary Value)
    (trace : List (Event Value)) : Prop where
  items : summary.items = outcomes.filterMap (·.published)
  manifest : ∃ manifest bytes prepared durability published,
    ManifestWritten env jobDir manifest bytes prepared trace ∧
    summary.manifestSha256 = env.sha256 bytes ∧
    [.appended "manifestPrepared" (.manifestPrepared (manifestRecord env manifest bytes prepared))
        (.ok ()),
      linkEvent jobDir prepared manifestName .manifest,
      .call (.syncParent jobDir .manifest) durability,
      .appended "manifestPublished" (.manifestPublished published) (.ok ())].Sublist trace ∧
    (summary.completionStatus = .completedDurable → durability = .synced)
  durable : summary.completionStatus = .completedDurable →
    ∀ item ∈ summary.items, item.completionStatus = .completedDurable

theorem SummaryKnown.mono {outcomes : List (ManifestItemOutcome Value)}
    {summary : RestoreSummary Value} {trace trace' : List (Event Value)}
    (hsub : trace.Sublist trace') (h : SummaryKnown env jobDir outcomes summary trace) :
    SummaryKnown env jobDir outcomes summary trace' where
  items := h.items
  manifest := by
    obtain ⟨manifest, bytes, prepared, durability, published, hwritten, hsha256, hevents, hrest⟩ :=
      h.manifest
    exact ⟨manifest, bytes, prepared, durability, published, hwritten.mono hsub, hsha256,
      hevents.trans hsub, hrest⟩
  durable := h.durable

/-- Steps on temporary files of the job directory are steps of the job. -/
theorem Steps.ofJobTemp (hjobDir : JobDir env root plan jobDir s.trace) (hs : Healthy s.trace)
    (h : Steps env (fun _ => TempStep env jobDir) s s') :
    Steps env (JobStep env root plan) s s' ∧ Healthy s'.trace := by
  constructor
  · apply h.lift TempStep.quiet hs
    intro past e hsub hhealthy he
    exact .temporary (hjobDir.mono hsub) hhealthy he
  · exact h.healthy hs fun _ => TempStep.quiet

theorem length_buildManifestOutcomes {results : List (RestoreItemResult Value)}
    {terminalItem : Option (TerminalItemOutcome Value)}
    {outcomes : List (ManifestItemOutcome Value)}
    (h : env.buildManifestOutcomes plan results terminalItem = .ok outcomes) :
    outcomes.length = plan.items.length := by
  unfold JobEnv.buildManifestOutcomes at h
  dsimp only at h
  rw [throw_bind, ite_throw_eq_ok] at h
  rw [length_of_mapM h.2, List.length_zipIdx]

/-- A step of the job that is not an append to the journal and needs nothing of the trace. -/
theorem wp_jobAppend {kind : String} {payload : JournalPayload} {Q : Unit → JobState σ Value → Prop}
    {E : JobError → JobState σ Value → Prop} (htied : s.Tied env digest)
    (hjobDir : JobDir env root plan jobDir s.trace)
    (htruth : JobTruthful env root plan jobDir s.trace kind payload)
    (hQ : ∀ s', Steps env (JobStep env root plan) s s' →
      s'.trace = s.trace ++ [.appended kind payload (.ok ())] → Healthy s'.trace → Q () s')
    (hE : ∀ error s', Steps env (JobStep env root plan) s s' → E error s') :
    (env.append kind payload).Wp s Q E := by
  apply wp_append (JobStep env root plan) htied
  · intro result
    exact .appended result hjobDir htruth
  · exact hQ
  · intro error s' h _
    exact hE error s' h

theorem errorKind_of_isCancelled {error : JobError} (h : error.isCancelled = true) :
    errorKind error = "cancelled" := by
  unfold JobError.isCancelled at h
  split at h
  · rfl
  · cases h

/-- The terminal record of a job. -/
theorem appendTerminal_spec {overallStatus : RestoreCompletionStatus} {terminal : JobTerminal}
    {outcomes : List (ManifestItemOutcome Value)} {published : ManifestPublished}
    (htied : s.Tied env digest) (hjobDir : JobDir env root plan jobDir s.trace)
    (houtcomes : OutcomesKnown env jobDir plan outcomes s.trace)
    (hends : JobEnds env jobDir plan s.trace terminal)
    (hpublished : .appended "manifestPublished" (.manifestPublished published) (.ok ()) ∈ s.trace)
    (hdurable : overallStatus = .completedDurable →
      published.completionStatus = .completedDurable ∧
      ∀ result ∈ outcomes.filterMap (·.published), result.completionStatus = .completedDurable) :
    (env.appendTerminal plan.items.length overallStatus terminal).Wp s
      (fun _ s' => Steps env (JobStep env root plan) s s' ∧ Healthy s'.trace)
      (fun _ s' => Steps env (JobStep env root plan) s s') := by
  have happend : ∀ {kind : String} {payload : JournalPayload},
      JobTruthful env root plan jobDir s.trace kind payload →
      (env.append kind payload).Wp s
        (fun _ s' => Steps env (JobStep env root plan) s s' ∧ Healthy s'.trace)
        (fun _ s' => Steps env (JobStep env root plan) s s') := by
    intro kind payload htruth
    apply wp_jobAppend htied hjobDir htruth
    · exact fun s₁ h₁ _ hs₁ => ⟨h₁, hs₁⟩
    · exact fun _ s₁ h₁ => h₁
  -- which record ends the journal is decided by how the job ends
  cases hends with
  | completed h hall hgood =>
    exact happend (.jobCompleted (.completed h hall hgood) hpublished houtcomes hdurable)
  | @ended item i error hitem h =>
    unfold JobError.terminal JobEnv.appendTerminal
    cases herror : error.isCancelled with
    | true => exact happend (.jobCancelled hitem h herror hpublished)
    | false => exact happend (.jobFailed hitem h herror hpublished)

/-- The manifest of known outcomes. -/
theorem buildManifest_spec {manifest : RecoveryManifest Value}
    (hjobDir : JobDir env root plan jobDir s.trace) (hs : Healthy s.trace)
    (h : Accounted env jobDir plan manifest s.trace) :
    (env.buildManifest manifest).Wp s
      (fun out s' => Steps env (JobStep env root plan) s s' ∧ Healthy s'.trace ∧
        .manifest manifest ∈ s'.trace ∧ env.json.manifestToVec manifest = .ok out.1 ∧
        out.2 = env.sha256 out.1)
      (fun _ s' => Steps env (JobStep env root plan) s s') := by
  have hsteps : Steps env (JobStep env root plan) s
      { s with trace := s.trace ++ [.manifest manifest] } :=
    Steps.event (.accounted hjobDir h) rfl rfl rfl rfl rfl
  -- the call is seen in the trace whether the encoding succeeds or not
  unfold JobEnv.buildManifest Wp
  dsimp only
  split
  · next out s' hrun =>
    split at hrun
    · next bytes hbytes =>
      cases hrun
      exact ⟨hsteps, hs.concat rfl rfl, List.mem_concat_self, hbytes, rfl⟩
    · cases hrun
  · next error s' hrun =>
    split at hrun
    · cases hrun
    · cases hrun
      exact hsteps

/-- The status of a job is durable only if its manifest and all its items are. -/
theorem overallStatus_eq_completed {manifestStatus : RestoreCompletionStatus}
    {items : List (RestoreItemResult Value)}
    (h : (if manifestStatus = .needsReconciliation ∨
        items.any (·.completionStatus = .needsReconciliation) then
      RestoreCompletionStatus.needsReconciliation else .completedDurable) = .completedDurable) :
    manifestStatus = .completedDurable ∧
      ∀ item ∈ items, item.completionStatus = .completedDurable := by
  have hstatus : ∀ status : RestoreCompletionStatus, status ≠ .needsReconciliation →
      status = .completedDurable := by
    intro status hne
    cases status with
    | completedDurable => rfl
    | needsReconciliation => exact absurd rfl hne
  split at h
  · cases h
  · next hneither =>
    obtain ⟨hmanifest, hitems⟩ := not_or.mp hneither
    refine ⟨hstatus _ hmanifest, fun item hitem => hstatus _ fun heq => hitems ?_⟩
    exact List.any_eq_true.mpr ⟨item, hitem, decide_eq_true heq⟩

/-- The end of the final manifest, behind its link. -/
theorem recordManifest_spec {jobDirectoryName : String}
    {outcomes : List (ManifestItemOutcome Value)} {manifest : RecoveryManifest Value}
    {bytes : Bytes} {prepared : PreparedFile} {terminal : JobTerminal} (htied : s.Tied env digest)
    (hs : Healthy s.trace) (hjobDir : JobDir env root plan jobDir s.trace)
    (houtcomes : OutcomesKnown env jobDir plan outcomes s.trace)
    (hends : JobEnds env jobDir plan s.trace terminal)
    (hwritten : ManifestWritten env jobDir manifest bytes prepared s.trace)
    (hlinked : [.appended "manifestPrepared"
        (.manifestPrepared (manifestRecord env manifest bytes prepared)) (.ok ()),
      linkEvent jobDir prepared manifestName .manifest].Sublist s.trace) :
    (env.recordManifest jobDir jobDirectoryName outcomes terminal (env.sha256 bytes)).Wp s
      (fun summary s' => Steps env (JobStep env root plan) s s' ∧ Healthy s'.trace ∧
        SummaryKnown env jobDir outcomes summary s'.trace)
      (fun _ s' => Steps env (JobStep env root plan) s s') := by
  have hcount : outcomes.length = plan.items.length := by
    obtain ⟨_, _, hbuilt, _⟩ := houtcomes
    exact length_buildManifestOutcomes hbuilt
  unfold JobEnv.recordManifest
  dsimp only
  rw [hcount, wp_bind]
  -- the directory is synced behind the link of the manifest
  apply wp_call (JobStep env root plan)
  · intro answer
    exact .temporary hjobDir hs (.handle answer rfl)
  · intro manifestSync s₁ h₁ htrace₁
    have hsub₁ := h₁.sublist
    have hsynced₁ := sublist_concat hlinked htrace₁
    rw [wp_bind, wp_attempt]
    -- then the publication is recorded; a failure of the record is kept for the summary
    apply wp_jobAppend (h₁.tied htied) (hjobDir.mono hsub₁)
    · exact .manifestPublished ((List.sublist_cons_self _ _).trans hsynced₁)
    · intro s₂ h₂ htrace₂ _
      have hsub₂ := hsub₁.trans h₂.sublist
      have hpublished₂ := sublist_concat hsynced₁ htrace₂
      have h₂ := h₁.trans h₂
      dsimp only
      rw [wp_bind, wp_attempt]
      -- and last the record that ends the job
      apply (appendTerminal_spec (h₂.tied htied) (hjobDir.mono hsub₂) (houtcomes.mono hsub₂)
        (hends.mono h₂.isPrefix) (mem_of_concat htrace₂) overallStatus_eq_completed).mono
      · intro _ s₃ h₃
        obtain ⟨h₃, hs₃⟩ := h₃
        have hsub₃ := h₃.sublist
        refine ⟨h₂.trans h₃, hs₃, rfl, ⟨manifest, bytes, prepared, manifestSync, _,
          hwritten.mono (hsub₂.trans hsub₃), rfl, hpublished₂.trans hsub₃, ?_⟩, ?_⟩
        -- a job is called durable only when all three went well
        · intro hcompleted
          exact durabilityStatus_eq_completed (overallStatus_eq_completed hcompleted).1
        · intro hcompleted
          exact (overallStatus_eq_completed hcompleted).2
      · intro _ s₃ h₃
        exact h₂.trans h₃
    · intro _ s₂ h₂
      exact h₁.trans h₂

theorem publishFinalManifest_spec {jobDirectoryName : String}
    {outcomes : List (ManifestItemOutcome Value)} {terminal : JobTerminal}
    (htied : s.Tied env digest) (hs : Healthy s.trace)
    (hjobDir : JobDir env root plan jobDir s.trace)
    (houtcomes : OutcomesKnown env jobDir plan outcomes s.trace)
    (hends : JobEnds env jobDir plan s.trace terminal) :
    (env.publishFinalManifest jobDir jobDirectoryName plan outcomes terminal).Wp s
      (fun summary s' => Steps env (JobStep env root plan) s s' ∧ Healthy s'.trace ∧
        SummaryKnown env jobDir outcomes summary s'.trace)
      (fun _ s' => Steps env (JobStep env root plan) s s') := by
  unfold JobEnv.publishFinalManifest
  rw [wp_bind, wp_get]
  dsimp only
  generalize s.journal.previousHash = head
  rw [wp_bind]
  -- the journal's head enters the manifest before anything is written
  apply (buildManifest_spec hjobDir hs ⟨head, outcomes, houtcomes, rfl⟩).mono
  · intro out s₁ h₁
    obtain ⟨bytes, sha256⟩ := out
    obtain ⟨h₁, hs₁, hbuilt₁, hencoded, hsha256⟩ := h₁
    have hjobDir₁ := hjobDir.mono h₁.sublist
    dsimp only at hencoded hsha256 ⊢
    subst hsha256
    rw [wp_bind]
    -- the manifest is written to a temporary file
    apply (prepareBytes_spec jobDir bytes (env.sha256 bytes) (by decide)).mono
    · intro prepared s₂ h₂
      obtain ⟨h₂, hname, hwritten₂, _⟩ := h₂
      have hsub₂ := h₂.sublist
      have hwritten : ManifestWritten env jobDir (recoveryManifest plan.jobId head outcomes) bytes
          prepared s₂.trace := ⟨hsub₂.subset hbuilt₁, hencoded, hwritten₂⟩
      have hjobDir₂ := hjobDir₁.mono hsub₂
      obtain ⟨h₂, hs₂⟩ := h₂.ofJobTemp hjobDir₁ hs₁
      have h₂ := h₁.trans h₂
      rw [wp_bind]
      -- its record comes before the link, as for the items
      apply wp_jobAppend (h₂.tied htied) hjobDir₂
      · exact .manifestPrepared hwritten
      · intro s₃ h₃ htrace₃ hs₃
        have hsub₃ := h₃.sublist
        have hannounced₃ := List.singleton_sublist.mpr (mem_of_concat htrace₃)
        have h₃ := h₂.trans h₃
        have hjobDir₃ := hjobDir₂.mono hsub₃
        have hwritten₃ := hwritten.mono hsub₃
        rw [wp_bind]
        -- the file is bound again and compared before it is linked
        apply (verifyPrelinkIdentity_spec hname).mono
        · intro _ s₄ h₄
          obtain ⟨h₄, hrebound⟩ := h₄
          have hsub₄ := h₄.sublist
          have hannounced₄ := hannounced₃.trans hsub₄
          have hjobDir₄ := hjobDir₃.mono hsub₄
          have hwritten₄ := hwritten₃.mono hsub₄
          obtain ⟨h₄, hs₄⟩ := h₄.ofJobTemp hjobDir₃ hs₃
          have h₄ := h₃.trans h₄
          rw [wp_bind]
          apply wp_call (JobStep env root plan)
          · intro answer
            exact .linked answer hs₄ hjobDir₄ hwritten₄ (hannounced₄.subset List.mem_cons_self)
              hrebound
          · intro linked s₅ h₅ htrace₅
            have hsub₅ := h₅.sublist
            have hlinked₅ := sublist_concat hannounced₄ htrace₅
            have hs₅ := hs₄.concat htrace₅ rfl
            have h₅ := h₄.trans h₅
            have hjobDir₅ := hjobDir₄.mono hsub₅
            have hwritten₅ := hwritten₄.mono hsub₅
            -- a failed link is recorded, and ends the job
            cases linked with
            | error error =>
              dsimp only
              unfold JobEnv.recordJobFailure
              rw [wp_bind, wp_attempt]
              apply wp_jobAppend (h₅.tied htied) hjobDir₅
              · apply JobTruthful.manifestFailed
                rw [htrace₅, List.getLast?_concat]
              · exact fun s₆ h₆ _ _ => h₅.trans h₆
              · exact fun _ s₆ h₆ => h₅.trans h₆
            | ok linked =>
              apply (recordManifest_spec (h₅.tied htied) hs₅ hjobDir₅
                (houtcomes.mono h₅.sublist) (hends.mono h₅.isPrefix)
                hwritten₅ hlinked₅).mono
              · intro summary s₆ h₆
                exact ⟨h₅.trans h₆.1, h₆.2⟩
              · intro _ s₆ h₆
                exact h₅.trans h₆
        · intro _ s₄ h₄
          exact h₃.trans (h₄.ofJobTemp hjobDir₃ hs₃).1
      · intro _ s₃ h₃
        exact h₂.trans h₃
    · intro _ s₂ h₂
      exact h₁.trans (h₂.ofJobTemp hjobDir₁ hs₁).1
  · intro _ s₁ h₁
    exact h₁

/-! ## Early ends -/

theorem publishTerminal_spec {α : Type} {jobDirectoryName : String}
    {results : List (RestoreItemResult Value)} {terminalItem : TerminalItemOutcome Value}
    {terminal : JobTerminal} (error : JobError) (htied : s.Tied env digest) (hs : Healthy s.trace)
    (hjobDir : JobDir env root plan jobDir s.trace)
    (hresults : ResultsKnown env jobDir plan results s.trace)
    (hends : JobEnds env jobDir plan s.trace terminal)
    (hterminal : TerminalKnown env jobDir plan results terminalItem s.trace) :
    (env.publishTerminal jobDir jobDirectoryName plan results terminalItem terminal error :
      JobM σ Value α).Wp s (fun _ _ => False)
      (fun _ s' => Steps env (JobStep env root plan) s s') := by
  unfold JobEnv.publishTerminal
  rw [wp_bind, wp_ofExcept]
  refine ⟨fun outcomes hbuilt => ?_, fun _ _ => Steps.refl s⟩
  have houtcomes : OutcomesKnown env jobDir plan outcomes s.trace := by
    refine ⟨results, some terminalItem, hbuilt, hresults, fun terminal heq => ?_⟩
    exact Option.some.inj heq ▸ hterminal
  rw [wp_bind]
  -- the manifest of a job that ends early is published like any other one
  apply (publishFinalManifest_spec htied hs hjobDir houtcomes hends).mono
  · intro summary s₁ h₁
    obtain ⟨h₁, _, hsummary⟩ := h₁
    obtain ⟨_, _, prepared, _, _, _, _, hevents, _⟩ := hsummary.manifest
    rw [wp_bind]
    apply wp_call (JobStep env root plan)
    · intro answer
      exact .reported answer (hevents.subset (List.mem_cons_of_mem _ List.mem_cons_self))
        (houtcomes.mono h₁.sublist) hsummary.items
    · intro _ s₂ h₂ _
      exact h₁.trans h₂
  · intro _ s₁ h₁
    exact h₁

theorem observe_spec {event : RestoreJobEvent} (hs : Healthy s.trace)
    (hjobDir : JobDir env root plan jobDir s.trace) (h : Tells env jobDir plan s.trace event) :
    (env.observe event).Wp s
      (fun _ s' => Steps env (JobStep env root plan) s s' ∧ Healthy s'.trace ∧
        told s'.trace = told s.trace ++ [event])
      (fun _ s' => Steps env (JobStep env root plan) s s') := by
  unfold JobEnv.observe
  apply wp_call (JobStep env root plan)
  · intro answer
    exact .observed answer hjobDir h
  · intro _ s₁ h₁ htrace₁
    refine ⟨h₁, hs.concat htrace₁ rfl, ?_⟩
    rw [htrace₁, told_append]
    rfl

theorem cancelItem_spec {α : Type} {jobDirectoryName : String} {item : FileRestorePlan}
    {itemIndex : Nat} {results : List (RestoreItemResult Value)} (htied : s.Tied env digest)
    (hs : Healthy s.trace) (hjobDir : JobDir env root plan jobDir s.trace)
    (hresults : ResultsKnown env jobDir plan results s.trace) (hindex : itemIndex = results.length)
    (hitem : plan.items[itemIndex]? = some item)
    (hlast : (told s.trace).getLast? = some (startedEvent item itemIndex))
    (hends : ItemEnds env jobDir item itemIndex s.trace (.content (.cancelled 0))) :
    (env.cancelItem jobDir jobDirectoryName plan item itemIndex results : JobM σ Value α).Wp s
      (fun _ _ => False) (fun _ s' => Steps env (JobStep env root plan) s s') := by
  obtain ⟨hinside, _⟩ := List.getElem?_eq_some_iff.mp hitem
  unfold JobEnv.cancelItem JobEnv.recordItemFailure JobEnv.observeFinished
  dsimp only
  rw [wp_bind]
  -- the observer hears of the end of the item before the journal does
  apply (observe_spec hs hjobDir (.ended hitem hlast hends)).mono
  · intro _ s₁ h₁
    obtain ⟨h₁, _, htold₁⟩ := h₁
    have hsub₁ := h₁.sublist
    rw [wp_bind]
    apply wp_jobAppend (h₁.tied htied) (hjobDir.mono hsub₁)
    · apply JobTruthful.itemCancelled hitem (hends.mono h₁.isPrefix) rfl
      rw [htold₁, List.getLast?_concat]
      rfl
    · intro s₂ h₂ _ hs₂
      have hsub₂ := hsub₁.trans h₂.sublist
      have h₂ := h₁.trans h₂
      apply (publishTerminal_spec _ (h₂.tied htied) hs₂ (hjobDir.mono hsub₂)
        (hresults.mono hsub₂) (.ended hitem (hends.mono h₂.isPrefix)) ?_).mono
      · intro _ _ hfalse
        exact hfalse
      · intro _ s₃ h₃
        exact h₂.trans h₃
      -- a cancelled item left neither a sidecar nor a directory
      · exact ⟨hindex, hinside, .inr (.inl rfl), fun _ _ _ h => (by cases h),
          fun _ _ _ h => (by cases h), fun h => (by cases h)⟩
    · intro _ s₂ h₂
      exact h₁.trans h₂
  · intro _ s₁ h₁
    exact h₁

theorem failedItemOutcome_disposition (item : FileRestorePlan)
    (failure : ItemRestoreFailure Value) :
    (failedItemOutcome item failure).2 = .failed ∨ (failedItemOutcome item failure).2 = .cancelled ∨
      (failedItemOutcome item failure).2 = .directoryNeedsReconciliation := by
  unfold failedItemOutcome
  split
  · exact .inr (.inr rfl)
  · split
    · exact .inr (.inl rfl)
    · exact .inl rfl

/-- The observer is told what became of an item that failed. -/
theorem failedItemOutcome_tells {item : FileRestorePlan} {itemIndex : Nat}
    {failure : ItemRestoreFailure Value} {trace : List (Event Value)}
    (hitem : plan.items[itemIndex]? = some item)
    (hlast : (told trace).getLast? = some (startedEvent item itemIndex))
    (hends : ItemEnds env jobDir item itemIndex trace failure.error)
    (hfailure : FailureKnown env (siteOf jobDir item itemIndex) failure trace) :
    Tells env jobDir plan trace (.itemFinished itemIndex item.candidateId item.observerKind
      (failedItemOutcome item failure).1) := by
  have hending := Tells.ended hitem hlast hends
  unfold JobError.ending at hending
  unfold failedItemOutcome
  split
  · next hdirectory =>
    rw [Bool.and_eq_true] at hdirectory
    obtain ⟨result, hresult⟩ := Option.isSome_iff_exists.mp hdirectory.1
    obtain ⟨candidateId, parent, hvisible⟩ := hfailure.published result hresult
    exact .unconfirmed hitem hlast hvisible
  · split
    · next herror =>
      rw [if_pos herror] at hending
      exact hending
    · next herror =>
      rw [if_neg herror] at hending
      exact hending

theorem failedItemOutcome_published {item : FileRestorePlan} {failure : ItemRestoreFailure Value}
    {candidateId : Nat} (hpublished : failure.published.isSome = true)
    (hkind : item.item = .directory candidateId) :
    (failedItemOutcome item failure).1 = .directoryNeedsReconciliation := by
  have hdirectory : item.observerKind = .directory := by
    unfold FileRestorePlan.observerKind
    rw [hkind]
  unfold failedItemOutcome
  rw [hpublished, hdirectory]
  rfl

theorem failedItemOutcome_unpublished (item : FileRestorePlan)
    {failure : ItemRestoreFailure Value} (h : failure.published.isNone = true) :
    (failedItemOutcome item failure).1 =
      if failure.error.isCancelled then .cancelled else .failed := by
  unfold failedItemOutcome
  rw [Option.isNone_iff_eq_none.mp h, Option.isSome_none, Bool.false_and, if_neg Bool.false_ne_true]
  split
  · rfl
  · rfl

/-- The record of an item that failed before anything of it was visible. -/
theorem itemFailure_truthful {item : FileRestorePlan} {itemIndex : Nat}
    {failure : ItemRestoreFailure Value} {trace : List (Event Value)}
    (hitem : plan.items[itemIndex]? = some item)
    (hends : ItemEnds env jobDir item itemIndex trace failure.error)
    (hnone : failure.published.isNone = true)
    (htold : (told trace).getLast? = some (.itemFinished itemIndex item.candidateId
      item.observerKind (failedItemOutcome item failure).1)) :
    JobTruthful env root plan jobDir trace
      (if failure.error.isCancelled then "itemCancelled" else "itemFailed") (.failure
        { candidateId := some item.candidateId, errorKind := errorKind failure.error }) := by
  rw [failedItemOutcome_unpublished item hnone] at htold
  cases herror : failure.error.isCancelled with
  | true =>
    rw [herror, if_pos rfl] at htold
    rw [if_pos rfl, errorKind_of_isCancelled herror]
    exact .itemCancelled hitem hends herror htold
  | false =>
    rw [herror, if_neg Bool.false_ne_true] at htold
    rw [if_neg Bool.false_ne_true]
    exact .itemFailed hitem hends herror htold

theorem failItem_spec {α : Type} {jobDirectoryName : String} {item : FileRestorePlan}
    {itemIndex : Nat} {results : List (RestoreItemResult Value)}
    {failure : ItemRestoreFailure Value} (htied : s.Tied env digest)
    (hjobDir : JobDir env root plan jobDir s.trace)
    (hresults : ResultsKnown env jobDir plan results s.trace) (hindex : itemIndex = results.length)
    (hitem : plan.items[itemIndex]? = some item)
    (hlast : (told s.trace).getLast? = some (startedEvent item itemIndex))
    (hends : ItemEnds env jobDir item itemIndex s.trace failure.error)
    (hfailure : FailureKnown env (siteOf jobDir item itemIndex) failure s.trace) :
    (env.failItem jobDir jobDirectoryName plan item itemIndex results failure : JobM σ Value α).Wp s
      (fun _ _ => False) (fun _ s' => Steps env (JobStep env root plan) s s') := by
  obtain ⟨hinside, _⟩ := List.getElem?_eq_some_iff.mp hitem
  unfold JobEnv.failItem
  rw [wp_bind, wp_get]
  dsimp only
  rw [wp_guard]
  refine ⟨fun _ => Steps.refl s, fun hpoisoned => ?_⟩
  have hs := htied.healthy (Bool.eq_false_iff.mpr hpoisoned)
  rw [wp_bind]
  -- what is left once the observer has been told
  have hrest : ∀ s', Steps env (JobStep env root plan) s s' → Healthy s'.trace →
      (failure.published.isSome = true → results.length < (told s'.trace).countP (·.completes)) →
      (env.publishTerminal jobDir jobDirectoryName plan results
        { index := itemIndex
          disposition := (failedItemOutcome item failure).2
          failureKind := errorKind failure.error
          publishedSidecar := failure.publishedSidecar
          published := failure.published }
        (if failure.error.isCancelled then .cancelled else .failed (errorKind failure.error))
        failure.error : JobM σ Value α).Wp s'
        (fun _ _ => False) (fun _ s'' => Steps env (JobStep env root plan) s s'') := by
    intro s' h hs' hcounted
    have hsub := h.sublist
    apply (publishTerminal_spec _ (h.tied htied) hs' (hjobDir.mono hsub)
      (hresults.mono hsub) (.ended hitem (hends.mono h.isPrefix)) ?_).mono
    · intro _ _ hfalse
      exact hfalse
    · intro _ s'' h'
      exact h.trans h'
    · refine ⟨hindex, hinside, failedItemOutcome_disposition item failure, ?_, ?_, hcounted⟩
      · intro item' evidence hitem' hevidence
        rw [hitem] at hitem'
        cases hitem'
        obtain ⟨parent, sidecar, durability, hparent, hlinked⟩ :=
          hfailure.sidecar evidence hevidence
        exact ⟨parent, sidecar, durability, hparent.mono hsub.subset, hlinked.mono hsub⟩
      · intro item' result hitem' hresult
        rw [hitem] at hitem'
        cases hitem'
        obtain ⟨candidateId, parent, hvisible⟩ := hfailure.published result hresult
        exact ⟨candidateId, parent, hvisible.mono hsub⟩
  unfold JobEnv.observeFinished
  apply (observe_spec hs hjobDir (failedItemOutcome_tells hitem hlast hends hfailure)).mono
  · intro _ s₁ h₁
    obtain ⟨h₁, hs₁, htold₁⟩ := h₁
    have hsub₁ := h₁.sublist
    -- a directory that is visible already counts as published
    have hcounted : failure.published.isSome = true →
        results.length < (told s₁.trace).countP (·.completes) := by
      intro hsome
      obtain ⟨result, hresult⟩ := Option.isSome_iff_exists.mp hsome
      obtain ⟨candidateId, parent, hvisible⟩ := hfailure.published result hresult
      have hkind : item.item = .directory candidateId := hvisible.kind
      rw [htold₁, List.countP_append, failedItemOutcome_published hsome hkind]
      exact Nat.lt_succ_of_le hresults.counted
    split
    · next hnone =>
      unfold JobEnv.recordItemFailure
      rw [wp_bind]
      apply wp_jobAppend (h₁.tied htied) (hjobDir.mono hsub₁)
      · apply itemFailure_truthful hitem (hends.mono h₁.isPrefix) hnone
        rw [htold₁, List.getLast?_concat]
      · intro s₂ h₂ _ hs₂
        apply hrest s₂ (h₁.trans h₂) hs₂
        intro hsome
        have hsub₂ := h₂.sublist
        exact Nat.lt_of_lt_of_le (hcounted hsome) (told_sublist hsub₂).countP_le
      · intro _ s₂ h₂
        exact h₁.trans h₂
    · exact hrest s₁ h₁ hs₁ hcounted
  · intro _ s₁ h₁
    exact h₁

/-! ## The item loop -/

theorem ResultsKnown.concat {results : List (RestoreItemResult Value)}
    {result : RestoreItemResult Value} {item : FileRestorePlan} {trace : List (Event Value)}
    (h : ResultsKnown env jobDir plan results trace)
    (hitem : plan.items[results.length]? = some item)
    (hresult : Published env (siteOf jobDir item results.length) result trace)
    (hcounted : results.length < (told trace).countP (·.completes)) :
    ResultsKnown env jobDir plan (results ++ [result]) trace := by
  obtain ⟨hinside, _⟩ := List.getElem?_eq_some_iff.mp hitem
  refine ⟨?_, ?_, ?_⟩
  · rw [List.length_append, List.length_singleton]
    exact hinside
  · intro i item' result' hitem' hresult'
    -- an item before the new one is known already
    by_cases hi : i < results.length
    · rw [List.getElem?_append_left hi] at hresult'
      exact h.known i item' result' hitem' hresult'
    · obtain ⟨hlt, _⟩ := List.getElem?_eq_some_iff.mp hresult'
      rw [List.length_append, List.length_singleton] at hlt
      have heq : i = results.length := by omega
      subst heq
      rw [List.getElem?_concat_length] at hresult'
      rw [hitem] at hitem'
      cases hitem'
      cases hresult'
      exact hresult
  · rw [List.length_append, List.length_singleton]
    exact hcounted

theorem finishedOutcome_completes (item : FileRestorePlan) (result : RestoreItemResult Value)
    {i candidateId : Nat} {kind : RestoreItemKind} :
    (RestoreJobEvent.itemFinished i candidateId kind (finishedOutcome item result)).completes =
      true := by
  unfold finishedOutcome
  split
  · rfl
  · split
    · rfl
    · rfl

theorem finishedOutcome_endsJob (item : FileRestorePlan) (result : RestoreItemResult Value)
    {i candidateId : Nat} {kind : RestoreItemKind} :
    (RestoreJobEvent.itemFinished i candidateId kind (finishedOutcome item result)).endsJob =
      false := by
  unfold finishedOutcome
  split
  · rfl
  · split
    · rfl
    · rfl

theorem restoreItemsFrom_spec {jobDirectoryName : String} {items done : List FileRestorePlan}
    {itemIndex : Nat} {results : List (RestoreItemResult Value)}
    (hitems : plan.items = done ++ items) (hdone : done.length = itemIndex)
    (hindex : itemIndex = results.length) (htied : s.Tied env digest) (hs : Healthy s.trace)
    (hjobDir : JobDir env root plan jobDir s.trace)
    (hresults : ResultsKnown env jobDir plan results s.trace)
    (hlength : (told s.trace).length = 2 * itemIndex)
    (hgood : ∀ event ∈ told s.trace, event.endsJob = false) :
    (env.restoreItemsFrom jobDir jobDirectoryName plan items itemIndex results).Wp s
      (fun results' s' => Steps env (JobStep env root plan) s s' ∧ Healthy s'.trace ∧
        ResultsKnown env jobDir plan results' s'.trace ∧ results'.length = plan.items.length ∧
        (told s'.trace).length = 2 * plan.items.length ∧
        ∀ event ∈ told s'.trace, event.endsJob = false)
      (fun _ s' => Steps env (JobStep env root plan) s s') := by
  -- over the items that are left: what is known of the results grows by one with each of them
  induction items generalizing done itemIndex results s with
  | nil =>
    have hall : plan.items.length = itemIndex := by
      rw [hitems, List.append_nil, hdone]
    rw [hall]
    exact ⟨Steps.refl s, hs, hresults, hindex.symm, hlength, hgood⟩
  | cons item items ih =>
    have hitem : plan.items[itemIndex]? = some item := by
      rw [hitems, ← hdone, List.getElem?_append_right (Nat.le_refl _), Nat.sub_self]
      rfl
    obtain ⟨hinside, _⟩ := List.getElem?_eq_some_iff.mp hitem
    unfold JobEnv.restoreItemsFrom
    rw [wp_bind]
    -- the observer hears that the item began
    apply (observe_spec hs hjobDir (.started hitem hlength hgood)).mono
    rotate_left
    · intro _ s₁ h₁
      exact h₁
    intro _ s₁ h₁
    obtain ⟨h₁, hs₁, htold₁⟩ := h₁
    rw [wp_bind]
    -- cancellation is probed once for each item, in front of it
    apply wp_call (JobStep env root plan) (fun answer => .probed answer)
    intro cancelled s₂ h₂ htrace₂
    have hs₂ := hs₁.concat htrace₂ rfl
    have htold₂ : told s₂.trace = told s.trace ++ [startedEvent item itemIndex] := by
      rw [htrace₂, told_append, htold₁]
      exact List.append_nil _
    have hlast₂ : (told s₂.trace).getLast? = some (startedEvent item itemIndex) := by
      rw [htold₂, List.getLast?_concat]
    have h₂ := h₁.trans h₂
    have hsub₂ := h₂.sublist
    have hjobDir₂ := hjobDir.mono hsub₂
    have hresults₂ := hresults.mono hsub₂
    dsimp only
    split
    -- a cancelled item ends the job
    · next hcancelled =>
      have hends : ItemEnds env jobDir item itemIndex s₂.trace (.content (.cancelled 0)) := by
        have hlast₁ : (told s₁.trace).getLast? = some (startedEvent item itemIndex) := by
          rw [htold₁, List.getLast?_concat]
        apply ItemEnds.cancelled hlast₁
        exact ⟨[], by rw [List.append_nil, htrace₂, hcancelled]⟩
      rw [wp_bind]
      apply (cancelItem_spec (h₂.tied htied) hs₂ hjobDir₂ hresults₂ hindex hitem hlast₂ hends).mono
      · intro _ _ hfalse
        exact hfalse.elim
      · intro _ s₃ h₃
        exact h₂.trans h₃
    · next hcancelled =>
      -- otherwise the item is restored, and ends the job when it fails
      rw [wp_bind, wp_attempt]
      apply (restoreItem_spec jobDir item itemIndex (h₂.tied htied) hs₂).run.mono
      · intro result s₃ h₃
        obtain ⟨_, hitem₃, hs₃, hpublished⟩ := h₃
        have htold₃ := hitem₃.told_eq fun _ _ => ItemStep.observed
        have hsteps₃ : Steps env (JobStep env root plan) s₂ s₃ :=
          hitem₃.mono fun past e hsub he => .item (hjobDir₂.mono hsub) hitem he
        have hjobDir₃ := hjobDir₂.mono hsteps₃.sublist
        have h₃ := h₂.trans hsteps₃
        subst hindex
        unfold JobEnv.observeFinished
        dsimp only
        rw [wp_bind]
        -- two events of the item were told now, and none of them ends the job
        apply (observe_spec hs₃ hjobDir₃ (.finished hitem (by rw [htold₃, hlast₂]) hpublished)).mono
        · intro _ s₄ h₄
          obtain ⟨h₄, hs₄, htold₄⟩ := h₄
          have hsub₄ := h₄.sublist
          have h₄ := h₃.trans h₄
          have hsub := h₄.sublist
          have hcounted₄ : results.length < (told s₄.trace).countP (·.completes) := by
            have hbefore := Nat.le_trans hresults.counted
              (told_sublist h₃.sublist).countP_le
            rw [htold₄, List.countP_append, List.countP_singleton,
              if_pos (finishedOutcome_completes item result)]
            omega
          have hresults₄ := (hresults.mono hsub).concat hitem (hpublished.mono hsub₄) hcounted₄
          have hitems' : plan.items = done ++ [item] ++ items := by
            rw [hitems, List.append_assoc]
            rfl
          rw [htold₃, htold₂] at htold₄
          have hlength₄ : (told s₄.trace).length = 2 * (results.length + 1) := by
            rw [htold₄, List.length_append, List.length_append, hlength]
            rfl
          have hgood₄ : ∀ event ∈ told s₄.trace, event.endsJob = false := by
            rw [htold₄]
            intro event hevent
            rcases List.mem_append.mp hevent with hevent | hevent
            · rcases List.mem_append.mp hevent with hevent | hevent
              · exact hgood event hevent
              · rw [List.mem_singleton.mp hevent]
                rfl
            · rw [List.mem_singleton.mp hevent]
              exact finishedOutcome_endsJob item result
          apply (ih hitems' (by rw [List.length_append, hdone]; rfl)
            (by rw [List.length_append]; rfl) (h₄.tied htied) hs₄ (hjobDir.mono hsub)
            hresults₄ hlength₄ hgood₄).mono
          · intro results' s₅ h₅
            exact ⟨h₄.trans h₅.1, h₅.2⟩
          · intro _ s₅ h₅
            exact h₄.trans h₅
        · intro _ s₄ h₄
          exact h₃.trans h₄
      · intro failure s₃ h₃
        -- the run of the item is the reason of the failure that is recorded
        obtain ⟨hrun, h₃, hfailure⟩ := h₃
        have hends : ItemEnds env jobDir item itemIndex s₃.trace failure.error := by
          apply ItemEnds.failed hlast₂ _ hrun (List.prefix_refl _)
          rw [htrace₂, List.getLast?_concat, Bool.eq_false_iff.mpr hcancelled]
        have htold₃ := h₃.told_eq fun _ _ => ItemStep.observed
        have hsteps₃ : Steps env (JobStep env root plan) s₂ s₃ :=
          h₃.mono fun past e hsub he => .item (hjobDir₂.mono hsub) hitem he
        have h₃ := h₂.trans hsteps₃
        have hsub := h₃.sublist
        apply (failItem_spec (h₃.tied htied) (hjobDir.mono hsub) (hresults.mono hsub) hindex hitem
          (by rw [htold₃, hlast₂]) hends hfailure).mono
        · intro _ _ hfalse
          exact hfalse.elim
        · intro _ s₄ h₄
          exact h₃.trans h₄

/-! ## The start -/

/-- An event of the journal. -/
def Event.isAppend : Event Value → Bool
  | .appended _ _ _ => true
  | _ => false

theorem not_poisons_of_not_append {e : Event Value} (h : e.isAppend = false) :
    e.poisons = false := by
  cases e with
  | appended kind payload result => cases h
  | call call answer => rfl
  | streamed file content result => rfl
  | manifest manifest => rfl

theorem not_acknowledges_of_not_append {e : Event Value} (h : e.isAppend = false) :
    e.acknowledgedKind = none := by
  cases e with
  | appended kind payload result => cases h
  | call call answer => rfl
  | streamed file content result => rfl
  | manifest manifest => rfl

/-- The journal of a job is created when nothing was appended. -/
theorem tied_withSink (digest : Digest) (h : ∀ e ∈ s.trace, e.isAppend = false) :
    ({ s with journal := JobJournal.withSink digest } : JobState σ Value).Tied env digest where
  logged := by
    refine ⟨[], rfl, ?_, fun _ hcall => (by cases hcall)⟩
    refine (List.filterMap_eq_nil_iff.mpr fun e he => ?_).symm
    exact not_acknowledges_of_not_append (h e he)
  poisoned := by
    refine (List.any_eq_false.mpr fun e he => ?_).symm
    rw [not_poisons_of_not_append (h e he)]
    exact Bool.false_ne_true
  head := ⟨_, zeroHash_eq⟩

theorem TempStep.not_append {parent : Dir} (e : Event Value) (h : TempStep env parent e) :
    e.isAppend = false := by
  cases h <;> rfl

/-- A run of a job up to the state `s`. -/
structure Ran (env : JobEnv σ Value) (root : DestinationRoot) (plan : RestoreJobPlan) (s₀ : σ)
    (s : JobState σ Value) : Prop where
  moved : s.env = replay env s₀ s.trace
  guarded : Guarded (JobStep env root plan) [] s.trace
  tied : ∃ digest, s.Tied env digest ∧
    (digest = env.sha256 (Bytes.ofString plan.jobId) ∨ ∀ e ∈ s.trace, e.isAppend = false)

theorem Ran.ofSteps {s₀ : σ} (h : Steps env (JobStep env root plan) (JobState.start s₀) s)
    (hs : ∀ e ∈ s.trace, e.isAppend = false) : Ran env root plan s₀ s := by
  have hstart := @tied_withSink _ _ env (JobState.start s₀) (Vector.replicate 32 0)
    fun _ he => (by cases he)
  have htied := h.tied hstart
  obtain ⟨new, htrace, henv, hguard, _⟩ := h
  rw [JobState.start, List.nil_append] at htrace
  subst htrace
  exact ⟨henv, hguard, _, htied, .inr hs⟩

theorem Ran.steps {s₀ : σ} (h : Ran env root plan s₀ s)
    (htied : s.Tied env (env.sha256 (Bytes.ofString plan.jobId)))
    (h' : Steps env (JobStep env root plan) s s') : Ran env root plan s₀ s' := by
  obtain ⟨new, htrace, henv, hguard, htied'⟩ := h'
  refine ⟨?_, ?_, _, htied' _ htied, .inl rfl⟩
  · rw [henv, htrace, replay_append, ← h.moved]
  · rw [htrace]
    exact h.guarded.append hguard

theorem not_append_concat {trace trace' : List (Event Value)} {e : Event Value}
    (h : ∀ e ∈ trace, e.isAppend = false) (htrace : trace' = trace ++ [e])
    (he : e.isAppend = false) : ∀ e ∈ trace', e.isAppend = false := by
  rw [htrace]
  intro e' he'
  rcases List.mem_append.mp he' with he' | he'
  · exact h e' he'
  · rw [List.mem_singleton.mp he']
    exact he

theorem revalidate_spec (root : DestinationRoot) (hs : s.trace = []) :
    (env.revalidate root).Wp s
      (fun _ s' => Steps env (JobStep env root plan) s s' ∧ ∃ metadata,
        s'.trace = [.call (.dirMetadata root.dir) (.ok metadata)] ∧
        metadata.isDir = true ∧ metadata.identity = root.baselineIdentity)
      (fun _ s' => Steps env (JobStep env root plan) s s' ∧ ∀ e ∈ s'.trace,
        e.isAppend = false) := by
  have hnone : ∀ e ∈ s.trace, e.isAppend = false := by
    rw [hs]
    intro e he
    cases he
  unfold JobEnv.revalidate orIo
  rw [wp_bind]
  apply wp_call (JobStep env root plan) (fun answer => .revalidated answer)
  intro queried s₁ h₁ htrace₁
  have hs₁ := not_append_concat hnone htrace₁ rfl
  rw [wp_bind, wp_ofExcept]
  refine ⟨fun metadata hqueried => ?_, fun _ _ => ⟨h₁, hs₁⟩⟩
  rw [mapError_eq_ok.mp hqueried] at htrace₁
  rw [wp_throwIf]
  refine ⟨fun _ => ⟨h₁, hs₁⟩, fun hsame => ⟨h₁, metadata, ?_, ?_⟩⟩
  · rw [htrace₁, hs, List.nil_append]
  · simpa only [Bool.not_eq_true', ne_eq, not_or, Bool.not_eq_false, not_not] using hsame

theorem startJob_spec (env : JobEnv σ Value) (root : DestinationRoot) (plan : RestoreJobPlan)
    (s₀ : σ) :
    (env.startJob root plan).Wp (JobState.start s₀)
      (fun jobDir s' => Ran env root plan s₀ s' ∧
        s'.Tied env (env.sha256 (Bytes.ofString plan.jobId)) ∧ Healthy s'.trace ∧
        JobDir env root plan jobDir s'.trace ∧ told s'.trace = [])
      (fun _ s' => Ran env root plan s₀ s') := by
  unfold JobEnv.startJob
  dsimp only
  rw [wp_bind]
  apply (revalidate_spec root rfl).mono
  · intro _ s₁ h₁
    obtain ⟨h₁, metadata, htrace₁, hsame⟩ := h₁
    have hs₁ : ∀ e ∈ s₁.trace, e.isAppend = false := by
      rw [htrace₁]
      intro e he
      rw [List.mem_singleton.mp he]
      rfl
    rw [wp_bind]
    -- the job's directory is created below the root that was checked
    apply wp_call (JobStep env root plan) (fun answer => .created answer htrace₁ hsame)
    intro created s₂ h₂ htrace₂
    have h₂ := h₁.trans h₂
    have hs₂ := not_append_concat hs₁ htrace₂ rfl
    rw [wp_bind]
    apply wp_orIo
    rotate_left
    · intro _ _
      exact Ran.ofSteps h₂ hs₂
    intro _ hcreated
    subst hcreated
    rw [wp_bind]
    -- and bound by its own handle
    apply wp_call (JobStep env root plan)
    · intro answer
      exact .bound answer fun e he => not_poisons_of_not_append (hs₂ e he)
    intro opened s₃ h₃ htrace₃
    have h₃ := h₂.trans h₃
    have hs₃ := not_append_concat hs₂ htrace₃ rfl
    rw [wp_bind]
    apply wp_orIo
    rotate_left
    · intro _ _
      exact Ran.ofSteps h₃ hs₃
    intro jobDir hopened
    subst hopened
    -- before the journal exists no append is in the trace, so no fault of the sink
    have hjobDir₃ : JobDir env root plan jobDir s₃.trace := by
      rw [JobDir, htrace₃, htrace₂, List.append_assoc]
      exact List.sublist_append_right _ _
    have hhealthy₃ : Healthy s₃.trace := fun e he => not_poisons_of_not_append (hs₃ e he)
    have htold₃ : told s₃.trace = [] := by
      rw [htrace₃, htrace₂, htrace₁]
      rfl
    have hqueried₃ : .call (.dirMetadata root.dir) (.ok metadata) ∈ s₃.trace := by
      rw [htrace₃, htrace₂, htrace₁]
      exact List.mem_append_left _ (List.mem_append_left _ List.mem_cons_self)
    rw [wp_bind]
    -- the journal file comes first in the new directory
    apply (createNewProtected_spec journalName_isEntry).mono
    · intro _ s₄ h₄
      obtain ⟨h₄, _⟩ := h₄
      have hqueried₄ := h₄.mem hqueried₃
      have hs₄ := h₄.forall_mem hs₃ fun _ => TempStep.not_append
      have htold₄ := h₄.told_eq fun _ _ => TempStep.observed
      have hjobDir₄ := hjobDir₃.mono h₄.sublist
      have h₄ := Ran.ofSteps (h₃.trans (h₄.ofJobTemp hjobDir₃ hhealthy₃).1) hs₄
      rw [wp_bind, wp_modify]
      have htied := @tied_withSink _ _ env s₄ (env.sha256 (Bytes.ofString plan.jobId)) hs₄
      -- from here on the journal and the trace are tied
      have h₅ : Ran env root plan s₀ { s₄ with
          journal := JobJournal.withSink (env.sha256 (Bytes.ofString plan.jobId)) } :=
        ⟨h₄.moved, h₄.guarded, _, htied, .inl rfl⟩
      rw [wp_bind]
      apply wp_jobAppend htied hjobDir₄
      · exact .jobStarted hqueried₄ hsame
      · intro s₆ h₆ htrace₆ hs₆
        refine ⟨h₅.steps htied h₆, h₆.tied htied, hs₆,
          hjobDir₄.mono h₆.sublist, ?_⟩
        rw [htrace₆, told_append]
        show told s₄.trace ++ [] = []
        rw [htold₄, htold₃]
        rfl
      · intro _ s₆ h₆
        exact h₅.steps htied h₆
    · intro _ s₄ h₄
      exact Ran.ofSteps (h₃.trans (h₄.ofJobTemp hjobDir₃ hhealthy₃).1)
        (h₄.forall_mem hs₃ fun _ => TempStep.not_append)
  · intro _ s₁ h₁
    exact Ran.ofSteps h₁.1 h₁.2

/-! ## The job -/

/-- A run of a job: it takes only the steps of `JobStep`, and a job that ends well has a result
    for each item of its plan. -/
theorem restoreJob_spec (env : JobEnv σ Value) (root : DestinationRoot) (plan : RestoreJobPlan)
    (s₀ : σ) :
    (env.restoreJob root plan).Wp (JobState.start s₀)
      (fun summary s' => Ran env root plan s₀ s' ∧
        ∃ jobDir results outcomes, JobDir env root plan jobDir s'.trace ∧
          env.buildManifestOutcomes plan results none = .ok outcomes ∧
          ResultsKnown env jobDir plan results s'.trace ∧
          results.length = plan.items.length ∧
          SummaryKnown env jobDir outcomes summary s'.trace ∧
          ∃ before, before <+: s'.trace ∧ (told before).length = 2 * plan.items.length ∧
            ∀ event ∈ told before, event.endsJob = false)
      (fun _ s' => Ran env root plan s₀ s') := by
  unfold JobEnv.restoreJob
  dsimp only
  rw [wp_bind]
  apply (startJob_spec env root plan s₀).mono
  · intro jobDir s₁ h₁
    obtain ⟨h₁, htied, hs₁, hjobDir₁, htold₁⟩ := h₁
    rw [wp_bind]
    have hresults₁ : ResultsKnown env jobDir plan [] s₁.trace :=
      ⟨Nat.zero_le _, fun _ _ _ _ h => (by cases h), Nat.zero_le _⟩
    -- a job that has not begun an item knows of no result
    apply (restoreItemsFrom_spec (List.nil_append plan.items).symm rfl rfl htied hs₁ hjobDir₁
      hresults₁ (by rw [htold₁]; rfl) (by rw [htold₁]; intro _ h; cases h)).mono
    · intro results s₂ h₂
      obtain ⟨h₂, hs₂, hresults₂, hlength, htold₂⟩ := h₂
      have hjobDir₂ := hjobDir₁.mono h₂.sublist
      have htied₂ := h₂.tied htied
      have h₂ := h₁.steps htied h₂
      rw [wp_bind, wp_ofExcept]
      -- outcomes that cannot be built end the job without a manifest
      refine ⟨fun outcomes hbuilt => ?_, fun _ _ => h₂⟩
      have houtcomes : OutcomesKnown env jobDir plan outcomes s₂.trace :=
        ⟨results, none, hbuilt, hresults₂, fun _ h => (by cases h)⟩
      rw [wp_bind]
      -- all items are done, so the journal ends with its completion
      apply (publishFinalManifest_spec htied₂ hs₂ hjobDir₂ houtcomes
        (.completed (List.prefix_refl _) htold₂.1 htold₂.2)).mono
      · intro summary s₃ h₃
        obtain ⟨h₃, _, hsummary₃⟩ := h₃
        obtain ⟨_, _, prepared, _, _, _, _, hevents, _⟩ := hsummary₃.manifest
        rw [wp_bind]
        apply wp_call (JobStep env root plan)
        · intro answer
          exact .reported answer (hevents.subset (List.mem_cons_of_mem _ List.mem_cons_self))
            (houtcomes.mono h₃.sublist) hsummary₃.items
        · intro _ s₄ h₄ _
          have hsub₄ := h₄.sublist
          have hsub := h₃.sublist.trans hsub₄
          exact ⟨h₂.steps htied₂ (h₃.trans h₄), jobDir, results, outcomes, hjobDir₂.mono hsub,
            hbuilt, hresults₂.mono hsub, hlength, hsummary₃.mono hsub₄, s₂.trace,
            (h₃.trans h₄).isPrefix, htold₂⟩
      · intro _ s₃ h₃
        exact h₂.steps htied₂ h₃
    · intro _ s₂ h₂
      exact h₁.steps htied h₂
  · intro _ s₁ h₁
    exact h₁

end Undelete.Restore
