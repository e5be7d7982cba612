import Undelete.Spec.ItemPrepared

/-!
# The publication of an item

The links of a file and of its sidecar, and the creation of a directory, behind their records.

## Key results

- `restoreItem_spec`: an item takes only the steps of `ItemStep`, and its result or its failure
  says what the trace shows.
-/

namespace Undelete.Restore

open Except EStateM Trace

variable {σ Value : Type} {env : JobEnv σ Value} {digest : Digest} {s s' : JobState σ Value}

/-! ## Durability -/

theorem mergeDurability_synced (durability : NamespaceDurability) :
    mergeDurability .synced durability = durability := by
  cases durability <;> rfl

theorem mergeDurability_eq_synced {first second : NamespaceDurability}
    (h : mergeDurability first second = .synced) : first = .synced ∧ second = .synced := by
  cases first <;> cases second <;> first | exact ⟨rfl, rfl⟩ | cases h

theorem durabilityStatus_eq_completed {durability : NamespaceDurability}
    (h : durabilityStatus durability = .completedDurable) : durability = .synced := by
  cases durability <;> first | rfl | cases h

/-! ## Files -/

/-- The collision loop of the sidecar. -/
theorem linkSidecarFrom_spec {site : Site} {content : ContentPlan} {parent : Dir}
    {temporary sidecar : PreparedFile} (hname : IsEntry sidecar.name)
    {remaining collisionIndex : Nat}
    (hindex : collisionIndex + remaining = maxCollisionAttempts) (htied : s.Tied env digest)
    (hs : Healthy s.trace)
    (hannounced : Announced env site content parent temporary (some sidecar) s.trace) :
    (env.linkSidecarFrom parent content site.itemKey sidecar remaining collisionIndex).Wp s
      (fun out s' => Steps env (ItemStep env site) s s' ∧ Healthy s'.trace ∧
        SidecarLinked env site parent sidecar out.1 out.2 s'.trace)
      (fun failure s' => Steps env (ItemStep env site) s s' ∧
        FailureKnown env site failure s'.trace) := by
  -- each attempt takes the next collision name
  induction remaining generalizing collisionIndex s with
  | zero => exact ⟨Steps.refl s, .ofError site _⟩
  | succ remaining ih =>
    unfold JobEnv.linkSidecarFrom liftItem
    dsimp only
    rw [wp_bind, wp_adaptExcept]
    -- the file is bound again before every attempt
    apply (verifyPrelinkIdentity_spec hname).mono
    · intro _ s₁ h₁
      obtain ⟨h₁, hrebound⟩ := h₁
      have hannounced₁ := hannounced.mono h₁.sublist
      obtain ⟨h₁, hs₁⟩ := h₁.ofTemp hannounced.inParent hs
      rw [wp_bind]
      apply wp_call (ItemStep env site)
      · intro answer
        exact .linkedSidecar answer hs₁ hannounced₁ hrebound (by omega)
      · intro linked s₂ h₂ htrace₂
        have hs₂ := hs₁.concat htrace₂ rfl
        have hannounced₂ := hannounced₁.mono h₂.sublist
        have h₂ := h₁.trans h₂
        cases linked with
        | ok linked =>
          dsimp only
          rw [wp_bind]
          apply wp_call (ItemStep env site) (fun answer => .handle answer rfl)
          intro durability s₃ h₃ htrace₃
          have hsub₃ := h₃.sublist
          have h₃ := h₂.trans h₃
          have hparent₃ := hannounced₂.inParent.mono hsub₃.subset
          -- the link is followed by a sync of its directory
          rw [mergeDurability_synced]
          have hevents : [linkEvent parent sidecar
              (collisionName env.sha256 (partialSidecarBaseName site.itemKey) collisionIndex)
              .partialSidecar, .call (.syncParent parent .sidecar) durability].Sublist
              s₃.trace := by
            rw [htrace₃, htrace₂, List.append_assoc]
            exact List.sublist_append_right _ _
          have hlinked : SidecarLinked env site parent sidecar
              { itemKey := site.itemKey
                name :=
                  collisionName env.sha256 (partialSidecarBaseName site.itemKey) collisionIndex
                sha256 := sidecar.outcome.sha256 } durability s₃.trace :=
            ⟨rfl, rfl, ⟨collisionIndex, by omega, rfl⟩, hevents⟩
          rw [wp_bind, wp_attempt]
          apply wp_append (ItemStep env site) (h₃.tied htied)
          · intro result
            exact .appended result (.sidecarPublished hannounced.kind hparent₃ hlinked)
          · intro s₄ h₄ _ hs₄
            exact ⟨h₃.trans h₄, hs₄, hlinked.mono h₄.sublist⟩
          · intro error s₄ h₄ _
            have hsub₄ := h₄.sublist
            refine ⟨h₃.trans h₄, ?_, fun _ h => (by cases h)⟩
            -- a record that fails leaves a sidecar that is visible
            intro evidence hevidence
            cases hevidence
            exact ⟨parent, sidecar, durability, hparent₃.mono hsub₄.subset, hlinked.mono hsub₄⟩
        | error error =>
          dsimp only
          split
          · apply (ih (by omega) (h₂.tied htied) hs₂ hannounced₂).mono
            · intro out s₃ h₃
              exact ⟨h₂.trans h₃.1, h₃.2⟩
            · intro failure s₃ h₃
              exact ⟨h₂.trans h₃.1, h₃.2⟩
          · exact ⟨h₂, .ofError site _⟩
    · intro error s₁ h₁
      exact ⟨(h₁.ofTemp hannounced.inParent hs).1, .ofError site error⟩

theorem publishSidecar_spec {site : Site} {content : ContentPlan} {parent : Dir}
    {temporary : PreparedFile} {sidecarTemp : Option PreparedFile}
    (hnames : ∀ sidecar, sidecarTemp = some sidecar → IsEntry sidecar.name)
    (htied : s.Tied env digest)
    (hs : Healthy s.trace)
    (hannounced : Announced env site content parent temporary sidecarTemp s.trace) :
    (env.publishSidecar parent content site.itemKey sidecarTemp).Wp s
      (fun out s' => Steps env (ItemStep env site) s s' ∧ Healthy s'.trace ∧
        SidecarVisible env site parent sidecarTemp out.1 out.2 s'.trace)
      (fun failure s' => Steps env (ItemStep env site) s s' ∧
        FailureKnown env site failure s'.trace) := by
  unfold JobEnv.publishSidecar
  cases sidecarTemp with
  | none => exact ⟨Steps.refl s, hs, .inl ⟨rfl, rfl, rfl⟩⟩
  | some sidecar =>
    dsimp only
    rw [wp_bind]
    apply (linkSidecarFrom_spec (hnames sidecar rfl) (Nat.zero_add _) htied hs hannounced).mono
    · intro out s₁ h₁
      obtain ⟨evidence, durability⟩ := out
      obtain ⟨h₁, hs₁, hlinked⟩ := h₁
      exact ⟨h₁, hs₁, .inr ⟨sidecar, evidence, rfl, rfl, hlinked⟩⟩
    · intro failure s₁ h₁
      exact h₁

/-- A failure that names the sidecar of its item. -/
theorem failureKnown_withSidecar {site : Site} {parent : Dir} {sidecarTemp : Option PreparedFile}
    {evidence : Option PublishedSidecarEvidence} {durability : NamespaceDurability}
    {trace : List (Event Value)} (error : JobError) (hparent : site.Parent trace parent)
    (h : SidecarVisible env site parent sidecarTemp evidence durability trace) :
    FailureKnown env site (.withSidecar error evidence) trace where
  sidecar := by
    intro name hname
    rcases h with ⟨_, hnone, _⟩ | ⟨sidecar, name', _, hsome, hlinked⟩
    · rw [show (ItemRestoreFailure.withSidecar error evidence).publishedSidecar = evidence from rfl,
        hnone] at hname
      cases hname
    · rw [show (ItemRestoreFailure.withSidecar error evidence).publishedSidecar = evidence from rfl,
        hsome] at hname
      cases hname
      exact ⟨parent, sidecar, durability, hparent, hlinked⟩
  published := fun _ h => (by cases h)

/-- The end of a file item, behind the link of its data name. -/
theorem recordPublished_spec {site : Site} {content : ContentPlan} {parent : Dir}
    {temporary : PreparedFile} {sidecarTemp : Option PreparedFile}
    {evidence : Option PublishedSidecarEvidence} {sidecarDurability : NamespaceDurability}
    {collisionIndex : Nat} {past : List (Event Value)}
    (hindex : collisionIndex < maxCollisionAttempts) (htied : s.Tied env digest)
    (hannounced : Announced env site content parent temporary sidecarTemp s.trace)
    (hvisible : SidecarVisible env site parent sidecarTemp evidence sidecarDurability s.trace)
    (hlinked : s.trace = past ++ [linkEvent parent temporary
      (collisionName env.sha256 site.plan.path.fileName collisionIndex) .data]) :
    (env.recordPublished parent site.plan content site.itemKey temporary evidence sidecarDurability
      (collisionName env.sha256 site.plan.path.fileName collisionIndex)).Wp s
      (fun result s' => Steps env (ItemStep env site) s s' ∧ Healthy s'.trace ∧
        Published env site result s'.trace)
      (fun failure s' => Steps env (ItemStep env site) s s' ∧
        FailureKnown env site failure s'.trace) := by
  unfold JobEnv.recordPublished
  dsimp only
  rw [wp_bind]
  apply wp_call (ItemStep env site) (fun answer => .handle answer rfl)
  intro durability s₁ h₁ htrace₁
  have hsub₁ := h₁.sublist
  -- nothing comes between the link and the sync
  have hlinked₁ : s₁.trace = past ++ [linkEvent parent temporary
      (collisionName env.sha256 site.plan.path.fileName collisionIndex) .data,
      .call (.syncParent parent .data) durability] := by
    rw [htrace₁, hlinked, List.append_assoc]
    rfl
  have hevents₁ : [linkEvent parent temporary
      (collisionName env.sha256 site.plan.path.fileName collisionIndex) .data,
      .call (.syncParent parent .data) durability].Sublist s₁.trace := by
    rw [hlinked₁]
    exact List.sublist_append_right _ _
  rw [wp_bind, wp_attempt]
  apply wp_append (ItemStep env site) (h₁.tied htied)
  · intro result
    exact .appended result (.filePublished (hannounced.mono hsub₁) (hvisible.mono hsub₁) hevents₁)
  · intro s₂ h₂ htrace₂ hs₂
    have hsub₂ := hsub₁.trans h₂.sublist
    have h₂ := h₁.trans h₂
    unfold liftItem
    dsimp only
    rw [wp_bind, wp_adaptExcept, wp_ofExcept]
    -- the record is written, and the result is what it says
    refine ⟨fun pathEvidence _ => ?_, fun error _ => ⟨h₂, .ofError site error⟩⟩
    refine ⟨h₂, hs₂, .inl ⟨content, parent, temporary, sidecarTemp, ?_⟩⟩
    refine ⟨hannounced.mono hsub₂, ⟨rfl, rfl⟩, ⟨rfl, rfl, rfl⟩, ⟨collisionIndex, hindex, rfl⟩, rfl,
      ⟨evidence, sidecarDurability, hvisible.mono hsub₂, rfl, rfl, ?_⟩, ⟨durability, ?_, ?_⟩⟩
    · intro hcompleted
      exact (mergeDurability_eq_synced (durabilityStatus_eq_completed hcompleted)).1
    · rw [htrace₂, hlinked₁, List.append_assoc]
      exact List.sublist_append_right _ _
    · intro hcompleted
      exact (mergeDurability_eq_synced (durabilityStatus_eq_completed hcompleted)).2
  · intro error s₂ h₂ _
    have hsub₂ := hsub₁.trans h₂.sublist
    exact ⟨h₁.trans h₂, failureKnown_withSidecar _ (hannounced.inParent.mono hsub₂.subset)
      (hvisible.mono hsub₂)⟩

/-- The collision loop of the data name. -/
theorem linkDataFrom_spec {site : Site} {content : ContentPlan} {parent : Dir}
    {temporary : PreparedFile} {sidecarTemp : Option PreparedFile}
    {evidence : Option PublishedSidecarEvidence} {sidecarDurability : NamespaceDurability}
    (hname : IsEntry temporary.name) {remaining collisionIndex : Nat}
    (hindex : collisionIndex + remaining = maxCollisionAttempts) (htied : s.Tied env digest)
    (hs : Healthy s.trace)
    (hannounced : Announced env site content parent temporary sidecarTemp s.trace)
    (hvisible : SidecarVisible env site parent sidecarTemp evidence sidecarDurability s.trace) :
    (env.linkDataFrom parent site.plan content site.itemKey temporary evidence sidecarDurability
      remaining collisionIndex).Wp s
      (fun result s' => Steps env (ItemStep env site) s s' ∧ Healthy s'.trace ∧
        Published env site result s'.trace)
      (fun failure s' => Steps env (ItemStep env site) s s' ∧
        FailureKnown env site failure s'.trace) := by
  -- each attempt takes the next collision name; the sidecar is visible before the first
  induction remaining generalizing collisionIndex s with
  | zero => exact ⟨Steps.refl s, failureKnown_withSidecar _ hannounced.inParent hvisible⟩
  | succ remaining ih =>
    unfold JobEnv.linkDataFrom
    dsimp only
    rw [wp_bind, wp_adaptExcept]
    apply (verifyPrelinkIdentity_spec hname).mono
    · intro _ s₁ h₁
      obtain ⟨h₁, hrebound⟩ := h₁
      have hsub₁ := h₁.sublist
      obtain ⟨h₁, hs₁⟩ := h₁.ofTemp hannounced.inParent hs
      rw [wp_bind]
      apply wp_call (ItemStep env site)
      · intro answer
        exact .linkedData answer hs₁ (hannounced.mono hsub₁) (hvisible.mono hsub₁) hrebound
          (by omega)
      · intro linked s₂ h₂ htrace₂
        have hs₂ := hs₁.concat htrace₂ rfl
        have hsub₂ := hsub₁.trans h₂.sublist
        have hannounced₂ := hannounced.mono hsub₂
        have hvisible₂ := hvisible.mono hsub₂
        have h₂ := h₁.trans h₂
        -- a taken name is tried again under the next index, any other error ends the item
        cases linked with
        | ok linked =>
          dsimp only
          apply (recordPublished_spec (by omega) (h₂.tied htied) hannounced₂ hvisible₂ htrace₂).mono
          · intro result s₃ h₃
            exact ⟨h₂.trans h₃.1, h₃.2⟩
          · intro failure s₃ h₃
            exact ⟨h₂.trans h₃.1, h₃.2⟩
        | error error =>
          dsimp only
          split
          · apply (ih (by omega) (h₂.tied htied) hs₂ hannounced₂ hvisible₂).mono
            · intro result s₃ h₃
              exact ⟨h₂.trans h₃.1, h₃.2⟩
            · intro failure s₃ h₃
              exact ⟨h₂.trans h₃.1, h₃.2⟩
          · exact ⟨h₂, failureKnown_withSidecar _ hannounced₂.inParent hvisible₂⟩
    · intro error s₁ h₁
      have hsub₁ := h₁.sublist
      exact ⟨(h₁.ofTemp hannounced.inParent hs).1,
        failureKnown_withSidecar _ (hannounced.inParent.mono hsub₁.subset) (hvisible.mono hsub₁)⟩

theorem restoreFileItem_spec {site : Site} {content : ContentPlan}
    (hkind : site.plan.item = .file content) (htied : s.Tied env digest) (hs : Healthy s.trace) :
    (env.restoreFileItem site.jobDir site.plan content site.itemKey).Wp s
      (fun result s' => Steps env (ItemStep env site) s s' ∧ Healthy s'.trace ∧
        Published env site result s'.trace)
      (fun failure s' => Steps env (ItemStep env site) s s' ∧
        FailureKnown env site failure s'.trace) := by
  unfold JobEnv.restoreFileItem liftItem
  rw [wp_bind, wp_adaptExcept]
  apply (prepareFileItem_spec hkind htied hs).mono
  · intro out s₁ h₁
    obtain ⟨parent, temporary, sidecarTemp⟩ := out
    obtain ⟨h₁, hs₁, hname, hnames, hannounced₁⟩ := h₁
    dsimp only
    rw [wp_bind]
    -- the sidecar comes first, then the file
    apply (publishSidecar_spec hnames (h₁.tied htied) hs₁ hannounced₁).mono
    · intro out s₂ h₂
      obtain ⟨evidence, durability⟩ := out
      obtain ⟨h₂, hs₂, hvisible₂⟩ := h₂
      have hannounced₂ := hannounced₁.mono h₂.sublist
      have h₂ := h₁.trans h₂
      apply (linkDataFrom_spec hname (Nat.zero_add _) (h₂.tied htied) hs₂ hannounced₂
        hvisible₂).mono
      · intro result s₃ h₃
        exact ⟨h₂.trans h₃.1, h₃.2⟩
      · intro failure s₃ h₃
        exact ⟨h₂.trans h₃.1, h₃.2⟩
    · intro failure s₂ h₂
      exact ⟨h₁.trans h₂.1, h₂.2⟩
  · intro error s₁ h₁
    exact ⟨h₁, .ofError site error⟩

/-! ## Directories -/

/-- The state of a directory that is bound, and whose parent was synced. -/
def boundState (site : Site) (candidateId : Nat) (finalName : String)
    (durability : NamespaceDurability) : DirectoryPublicationState where
  candidateId
  itemKey := site.itemKey
  publishedPath := joinPublishedPath site.plan.path finalName
  publishedName := finalName
  noFollowBindCompleted := true
  validation := .boundNoFollow
  namespaceDurability := durability

/-- A directory that was made behind its record. -/
theorem directoryVisible_intoResult {site : Site} (state : DirectoryPublicationState)
    {parent : Dir} {collisionIndex : Nat} {trace : List (Event Value)} (pathEvidence : Value)
    (hkind : site.plan.item = .directory state.candidateId) (hparent : site.Parent trace parent)
    (hkey : state.itemKey = site.itemKey) (hindex : collisionIndex < maxCollisionAttempts)
    (hname : state.publishedName =
      collisionName env.sha256 site.plan.path.fileName collisionIndex)
    (hpath : state.publishedPath = joinPublishedPath site.plan.path state.publishedName)
    (hcreated : [.appended "directoryPublicationPlanned" (.directoryPublicationPlanned
        (plannedRecord env site state.candidateId collisionIndex)) (.ok ()),
      .call (.createDir parent state.publishedName .item) (.ok ())].Sublist trace)
    (hsynced : state.namespaceDurability = .synced → ∃ bound,
      [.call (.createDir parent state.publishedName .item) (.ok ()),
        .call (.openDirNofollow parent state.publishedName) (.ok bound),
        .call (.syncParent parent .data) .synced].Sublist trace) :
    DirectoryVisible env site state.candidateId parent
      (state.intoResult site.plan pathEvidence) trace where
  kind := hkind
  inParent := hparent
  identity := ⟨hkey, rfl⟩
  path := hpath
  sidecarless := rfl
  created := ⟨collisionIndex, hindex, hname, hcreated⟩
  synced := fun hcompleted => hsynced (durabilityStatus_eq_completed hcompleted)

theorem directoryReconciliationFailure_spec {α : Type} {site : Site}
    {state : DirectoryPublicationState} {parent : Dir} {pathEvidence : Value} (stage : String)
    (error : JobError) (htied : s.Tied env digest) (hkey : state.itemKey = site.itemKey)
    (hvisible : DirectoryVisible env site state.candidateId parent
      (state.intoResult site.plan pathEvidence) s.trace)
    (hmem : .call (.createDir parent state.publishedName .item) (.ok ()) ∈ s.trace)
    (hbound : state.noFollowBindCompleted = true → ∃ bound,
      .call (.openDirNofollow parent state.publishedName) (.ok bound) ∈ s.trace) :
    (env.directoryReconciliationFailure site.plan pathEvidence state stage error :
      ItemM σ Value α).Wp s (fun _ _ => False)
      (fun failure s' => Steps env (ItemStep env site) s s' ∧
        FailureKnown env site failure s'.trace) := by
  -- the directory is visible, so the failure carries its result
  have hfailure : ∀ error s', Steps env (ItemStep env site) s s' →
      FailureKnown env site (.withPublication error (state.intoResult site.plan pathEvidence))
        s'.trace := by
    intro error s' h
    refine ⟨fun _ hsidecar => (by cases hsidecar), fun result hresult => ?_⟩
    cases hresult
    exact ⟨state.candidateId, parent, hvisible.mono h.sublist⟩
  unfold JobEnv.directoryReconciliationFailure
  dsimp only
  rw [wp_bind, wp_attempt]
  apply wp_append (ItemStep env site) htied
  · intro result
    exact .appended result
      (.directoryUnconfirmed hvisible.kind hkey hvisible.inParent hvisible.path hmem hbound)
  · intro s₁ h₁ _ _
    exact ⟨h₁, hfailure _ s₁ h₁⟩
  · intro _ s₁ h₁ _
    exact ⟨h₁, hfailure _ s₁ h₁⟩

theorem verifyDirectoryBinding_spec {site : Site} {parent : Dir} {name : String} (bound : Dir)
    (hparent : site.Parent s.trace parent) (hname : IsEntry name) :
    (env.verifyDirectoryBinding parent name bound).Wp s
      (fun _ s' => Steps env (ItemStep env site) s s')
      (fun _ s' => Steps env (ItemStep env site) s s') := by
  unfold JobEnv.verifyDirectoryBinding
  apply wp_io (ItemStep env site) (fun answer => .handle answer rfl)
  · intro _ boundMetadata s₁ _ h₁ _
    apply wp_io (ItemStep env site)
    · intro answer
      exact .lookedUp answer (hparent.mono h₁.subset) hname
    · intro _ nameMetadata s₂ _ h₂ _
      rw [wp_throwIf]
      exact ⟨fun _ => h₁.trans h₂, fun _ => h₁.trans h₂⟩
    · intro _ s₂ h₂
      exact h₁.trans h₂
  · intro _ s₁ h₁
    exact h₁

theorem itemTransition_spec {site : Site} (componentIndex : Nat) (name : String)
    (transition : ParentTransition) :
    (env.parentTransition componentIndex name transition).Wp s
      (fun _ s' => Steps env (ItemStep env site) s s')
      (fun _ s' => Steps env (ItemStep env site) s s') := by
  unfold JobEnv.parentTransition
  rw [wp_bind]
  apply wp_call (ItemStep env site) (fun answer => .handle answer rfl)
  intro answer s₁ h₁ _
  rw [wp_ofExcept]
  exact ⟨fun _ _ => h₁, fun _ _ => h₁⟩

/-- The end of a directory item, behind the call that made its name. -/
theorem bindDirectory_spec {site : Site} {candidateId : Nat} {parent : Dir} {collisionIndex : Nat}
    (pathEvidence : Value) (hkind : site.plan.item = .directory candidateId)
    (htied : s.Tied env digest)
    (hparent : site.Parent s.trace parent) (hindex : collisionIndex < maxCollisionAttempts)
    (hcreated : [.appended "directoryPublicationPlanned" (.directoryPublicationPlanned
        (plannedRecord env site candidateId collisionIndex)) (.ok ()),
      .call (.createDir parent (collisionName env.sha256 site.plan.path.fileName collisionIndex)
        .item) (.ok ())].Sublist s.trace) :
    (env.bindDirectory parent site.plan candidateId site.itemKey pathEvidence
      (collisionName env.sha256 site.plan.path.fileName collisionIndex)).Wp s
      (fun result s' => Steps env (ItemStep env site) s s' ∧ Healthy s'.trace ∧
        Published env site result s'.trace)
      (fun failure s' => Steps env (ItemStep env site) s s' ∧
        FailureKnown env site failure s'.trace) := by
  have hname : IsEntry (collisionName env.sha256 site.plan.path.fileName collisionIndex) :=
    collisionName_isEntry collisionIndex (component_isEntry (fileName_mem site.plan.path))
  generalize hfinal : collisionName env.sha256 site.plan.path.fileName collisionIndex = finalName
    at hname hcreated ⊢
  have hmem : .call (.createDir parent finalName .item) (.ok ()) ∈ s.trace :=
    hcreated.subset (List.mem_cons_of_mem _ List.mem_cons_self)
  -- the exits of the function at which the directory is not known to be bound
  have hexit : ∀ {α : Type} (bind : Bool) (reason stage : String) (error : JobError) s',
      Steps env (ItemStep env site) s s' →
      (bind = true → ∃ bound, .call (.openDirNofollow parent finalName) (.ok bound) ∈ s'.trace) →
      (env.directoryReconciliationFailure site.plan pathEvidence
        (.unconfirmed candidateId site.itemKey
          (joinPublishedPath site.plan.path finalName) finalName
          bind reason) stage error : ItemM σ Value α).Wp s' (fun _ _ => False)
        (fun failure s'' => Steps env (ItemStep env site) s s'' ∧
          FailureKnown env site failure s''.trace) := by
    intro α bind reason stage error s' h hbound
    have hsub := h.sublist
    have hvisible : DirectoryVisible env site candidateId parent
        (DirectoryPublicationState.intoResult (.unconfirmed candidateId site.itemKey
          (joinPublishedPath site.plan.path finalName) finalName bind reason) site.plan
            pathEvidence) s'.trace := by
      apply directoryVisible_intoResult (.unconfirmed candidateId site.itemKey
        (joinPublishedPath site.plan.path finalName) finalName bind reason) pathEvidence hkind
        (hparent.mono hsub.subset) rfl hindex hfinal.symm rfl (hcreated.trans hsub)
      intro hsynced
      cases hsynced
    apply (directoryReconciliationFailure_spec stage error (h.tied htied) rfl hvisible
      (hsub.subset hmem) hbound).mono
    · intro _ _ hfalse
      exact hfalse
    · intro failure s'' h'
      exact ⟨h.trans h'.1, h'.2⟩
  unfold JobEnv.bindDirectory
  dsimp only
  rw [wp_bind, wp_attempt]
  apply (itemTransition_spec _ finalName .createdBeforeBind).mono
  · intro _ s₁ h₁
    dsimp only
    rw [wp_bind]
    apply wp_call (ItemStep env site)
    · intro answer
      exact .entered answer ⟨List.prefix_rfl, hparent.mono h₁.subset⟩ hname
    · intro opened s₂ h₂ htrace₂
      have hopened := sublist_concat ((List.singleton_sublist.mpr hmem).trans h₁.sublist) htrace₂
      have h₂ := h₁.trans h₂
      cases opened with
      | error error =>
        dsimp only
        exact (hexit false _ _ _ s₂ h₂ fun hfalse => (by cases hfalse)).mono
          (fun _ _ hfalse => hfalse.elim) fun _ _ h => h
      | ok bound =>
        dsimp only
        rw [wp_bind, wp_attempt]
        apply (itemTransition_spec _ finalName .bound).mono
        · intro _ s₃ h₃
          have hopened₃ := hopened.trans h₃.sublist
          have h₃ := h₂.trans h₃
          dsimp only
          rw [wp_bind, wp_attempt]
          apply (verifyDirectoryBinding_spec bound (hparent.mono h₃.subset) hname).mono
          · intro _ s₄ h₄
            have hopened₄ := hopened₃.trans h₄.sublist
            have h₄ := h₃.trans h₄
            dsimp only
            rw [wp_bind]
            apply wp_call (ItemStep env site) (fun answer => .handle answer rfl)
            intro durability s₅ h₅ htrace₅
            have hsynced := sublist_concat hopened₄ htrace₅
            have h₅ := h₄.trans h₅
            have hsub₅ := h₅.sublist
            have hvisible : DirectoryVisible env site candidateId parent
                ((boundState site candidateId finalName durability).intoResult site.plan
                  pathEvidence) s₅.trace := by
              apply directoryVisible_intoResult (boundState site candidateId finalName durability)
                pathEvidence hkind (hparent.mono hsub₅.subset) rfl hindex hfinal.symm rfl
                (hcreated.trans hsub₅)
              intro hdurable
              rw [show durability = .synced from hdurable] at hsynced
              exact ⟨bound, hsynced⟩
            rw [wp_bind, wp_attempt]
            apply wp_append (ItemStep env site) (h₅.tied htied)
            · intro result
              exact .appended result
                (.directoryPublished hkind (hparent.mono hsub₅.subset) hsynced)
            · intro s₆ h₆ htrace₆ hs₆
              exact ⟨h₅.trans h₆, hs₆, .inr ⟨candidateId, parent,
                hvisible.mono h₆.sublist, mem_of_concat htrace₆⟩⟩
            · intro error s₆ h₆ _
              refine ⟨h₅.trans h₆, fun _ hsidecar => (by cases hsidecar), fun result hresult => ?_⟩
              cases hresult
              exact ⟨candidateId, parent, hvisible.mono h₆.sublist⟩
          · intro error s₄ h₄
            dsimp only
            rw [wp_bind]
            have hbound := (hopened₃.trans h₄.sublist).subset
              (List.mem_cons_of_mem _ List.mem_cons_self)
            exact (hexit true _ _ _ s₄ (h₃.trans h₄) fun _ => ⟨bound, hbound⟩).mono
              (fun _ _ hfalse => hfalse.elim) fun _ _ h => h
        · intro error s₃ h₃
          dsimp only
          rw [wp_bind]
          have hbound := (hopened.trans h₃.sublist).subset
            (List.mem_cons_of_mem _ List.mem_cons_self)
          exact (hexit true _ _ _ s₃ (h₂.trans h₃) fun _ => ⟨bound, hbound⟩).mono
            (fun _ _ hfalse => hfalse.elim) fun _ _ h => h
  · intro error s₁ h₁
    dsimp only
    rw [wp_bind]
    exact (hexit false _ _ _ s₁ h₁ fun hfalse => (by cases hfalse)).mono
      (fun _ _ hfalse => hfalse.elim) fun _ _ h => h

/-- The collision loop of a directory. -/
theorem createDirectoryFrom_spec {site : Site} {candidateId : Nat} {parent : Dir}
    (pathEvidence : Value) (hkind : site.plan.item = .directory candidateId)
    {remaining collisionIndex : Nat} (hindex : collisionIndex + remaining = maxCollisionAttempts)
    (htied : s.Tied env digest) (hparent : site.Parent s.trace parent) :
    (env.createDirectoryFrom parent site.plan candidateId site.itemKey pathEvidence remaining
      collisionIndex).Wp s
      (fun result s' => Steps env (ItemStep env site) s s' ∧ Healthy s'.trace ∧
        Published env site result s'.trace)
      (fun failure s' => Steps env (ItemStep env site) s s' ∧
        FailureKnown env site failure s'.trace) := by
  -- each attempt announces its own name before it takes it
  induction remaining generalizing collisionIndex s with
  | zero => exact ⟨Steps.refl s, .ofError site _⟩
  | succ remaining ih =>
    unfold JobEnv.createDirectoryFrom liftItem
    dsimp only
    rw [wp_bind, wp_adaptExcept]
    apply wp_append (ItemStep env site) htied
    · intro result
      exact .appended result (.directoryPlanned hkind (by omega))
    · intro s₁ h₁ htrace₁ hs₁
      have hparent₁ := hparent.mono h₁.subset
      rw [wp_bind]
      apply wp_call (ItemStep env site)
      · intro answer
        refine .createdDirectory answer hs₁ hkind hparent₁ ?_ (by omega)
        rw [htrace₁, List.getLast?_concat]
        rfl
      · intro made s₂ h₂ htrace₂
        have hparent₂ := hparent₁.mono h₂.subset
        have hcreated : [.appended "directoryPublicationPlanned" (.directoryPublicationPlanned
            (plannedRecord env site candidateId collisionIndex)) (.ok ()),
          .call (.createDir parent (collisionName env.sha256 site.plan.path.fileName collisionIndex)
            .item) made].Sublist s₂.trace := by
          rw [htrace₂, htrace₁, List.append_assoc]
          exact List.sublist_append_right _ _
        have h₂ := h₁.trans h₂
        -- the directory is made, or its name is taken
        cases made with
        | ok made =>
          dsimp only
          apply (bindDirectory_spec pathEvidence hkind (h₂.tied htied) hparent₂ (by omega)
            hcreated).mono
          · intro result s₃ h₃
            exact ⟨h₂.trans h₃.1, h₃.2⟩
          · intro failure s₃ h₃
            exact ⟨h₂.trans h₃.1, h₃.2⟩
        | error error =>
          dsimp only
          split
          · apply (ih (by omega) (h₂.tied htied) hparent₂).mono
            · intro result s₃ h₃
              exact ⟨h₂.trans h₃.1, h₃.2⟩
            · intro failure s₃ h₃
              exact ⟨h₂.trans h₃.1, h₃.2⟩
          · exact ⟨h₂, .ofError site _⟩
    · intro error s₁ h₁ _
      exact ⟨h₁, .ofError site error⟩

theorem restoreDirectoryItem_spec {site : Site} {candidateId : Nat}
    (hkind : site.plan.item = .directory candidateId) (htied : s.Tied env digest)
    (hs : Healthy s.trace) :
    (env.restoreDirectoryItem site.jobDir site.plan candidateId site.itemKey).Wp s
      (fun result s' => Steps env (ItemStep env site) s s' ∧ Healthy s'.trace ∧
        Published env site result s'.trace)
      (fun failure s' => Steps env (ItemStep env site) s s' ∧
        FailureKnown env site failure s'.trace) := by
  unfold JobEnv.restoreDirectoryItem liftItem
  rw [wp_bind, wp_adaptExcept]
  -- the parents come first, then the evidence of the path and the record
  apply (openOrCreateParents_spec site hs).mono
  · intro parent s₁ h₁
    obtain ⟨h₁, _, hparent₁⟩ := h₁
    rw [wp_bind, wp_adaptExcept, wp_ofExcept]
    refine ⟨fun pathEvidence _ => ?_, fun error _ => ⟨h₁, .ofError site error⟩⟩
    rw [wp_bind, wp_adaptExcept]
    apply wp_append (ItemStep env site) (h₁.tied htied)
    · intro result
      exact .appended result (.directoryPrepared hkind)
    · intro s₂ h₂ _ _
      have hparent₂ := hparent₁.mono h₂.subset
      have h₂ := h₁.trans h₂
      apply (createDirectoryFrom_spec pathEvidence hkind (Nat.zero_add _) (h₂.tied htied)
        hparent₂).mono
      · intro result s₃ h₃
        exact ⟨h₂.trans h₃.1, h₃.2⟩
      · intro failure s₃ h₃
        exact ⟨h₂.trans h₃.1, h₃.2⟩
    · intro error s₂ h₂ _
      exact ⟨h₁.trans h₂, .ofError site error⟩
  · intro error s₁ h₁
    exact ⟨h₁, .ofError site error⟩

/-! ## Items -/

/-- The site of an item of a plan. -/
def siteOf (jobDir : Dir) (plan : FileRestorePlan) (itemIndex : Nat) : Site where
  jobDir
  plan
  itemKey := restoreItemKey itemIndex plan.candidateId

theorem restoreItem_spec (jobDir : Dir) (plan : FileRestorePlan) (itemIndex : Nat)
    (htied : s.Tied env digest) (hs : Healthy s.trace) :
    (env.restoreItem jobDir plan itemIndex).Wp s
      (fun result s' => Steps env (ItemStep env (siteOf jobDir plan itemIndex)) s s' ∧
        Healthy s'.trace ∧ Published env (siteOf jobDir plan itemIndex) result s'.trace)
      (fun failure s' => Steps env (ItemStep env (siteOf jobDir plan itemIndex)) s s' ∧
        FailureKnown env (siteOf jobDir plan itemIndex) failure s'.trace) := by
  unfold JobEnv.restoreItem
  dsimp only
  split
  · next content hkind =>
    exact @restoreFileItem_spec _ _ env digest s (siteOf jobDir plan itemIndex) content hkind
      htied hs
  · next candidateId hkind =>
    exact @restoreDirectoryItem_spec _ _ env digest s (siteOf jobDir plan itemIndex)
      candidateId hkind
      htied hs

end Undelete.Restore
