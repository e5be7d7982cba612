import Undelete.Spec.ItemProtocol

/-!
# The preparation of an item

The temporary files of an item, the walk to its parent directory, and the announcement of a file:
each function takes only the steps that an item may take.

## Key results

- `openOrCreateParents_spec`: the parent is reached from the job directory.
- `prepareFileItem_spec`: a file that is announced is streamed and synced, and so is its sidecar.
-/

namespace Undelete.Restore

open Except EStateM Trace

variable {σ Value : Type} {env : JobEnv σ Value} {digest : Digest} {s s' : JobState σ Value}

-- a stream is known by its rule only: nothing here evaluates its scratch buffer
attribute [local irreducible] JobEnv.streamCandidate

/-! ## Temporary files -/

/-- A step on temporary files of the directory `parent`. -/
inductive TempStep (env : JobEnv σ Value) (parent : Dir) : Event Value → Prop
  | handle {call : Call Value} (answer : call.Answer) (h : call.isHandle = true) :
      TempStep env parent (.call call answer)
  | streamed {file : File} {content : ContentPlan}
      {result : Except RestoreError (StreamOutcome × Bytes)}
      (h : env.Streams file content result) : TempStep env parent (.streamed file content result)
  | created {name : String} (answer : Except IoError File) (hname : IsEntry name) :
      TempStep env parent (.call (.createNew parent name) answer)
  | reopened {name : String} (answer : Except IoError File) (hname : IsEntry name) :
      TempStep env parent (.call (.openRead parent name) answer)

theorem TempStep.quiet {parent : Dir} (e : Event Value) (h : TempStep env parent e) :
    e.poisons = false := by
  cases h <;> rfl

theorem TempStep.itemStep {site : Site} {parent : Dir} {past : List (Event Value)}
    {e : Event Value} (hparent : site.Parent past parent) (hhealthy : Healthy past)
    (h : TempStep env parent e) : ItemStep env site past e := by
  cases h with
  | handle answer h => exact .handle answer h
  | streamed h => exact .streamed h
  | created answer hname => exact .created answer hhealthy hparent hname
  | reopened answer hname => exact .reopened answer hparent hname

/-- Steps on temporary files are steps of the item. -/
theorem Steps.ofTemp {site : Site} {parent : Dir} (hparent : site.Parent s.trace parent)
    (hs : Healthy s.trace) (h : Steps env (fun _ => TempStep env parent) s s') :
    Steps env (ItemStep env site) s s' ∧ Healthy s'.trace := by
  constructor
  · apply h.lift TempStep.quiet hs
    intro past e hsub hhealthy he
    exact he.itemStep (hparent.mono hsub.subset) hhealthy
  · exact h.healthy hs fun _ => TempStep.quiet

theorem createNewProtected_spec {parent : Dir} {name : String} (hname : IsEntry name) :
    (env.createNewProtected parent name).Wp s
      (fun file s' => Steps env (fun _ => TempStep env parent) s s' ∧
        .call (.createNew parent name) (.ok file) ∈ s'.trace)
      (fun _ s' => Steps env (fun _ => TempStep env parent) s s') := by
  unfold JobEnv.createNewProtected
  apply wp_io (fun _ => TempStep env parent)
  · intro answer
    exact .created answer hname
  · intro created file s₁ hfile h₁ htrace₁
    apply wp_io (fun _ => TempStep env parent)
    · intro answer
      exact .handle answer rfl
    · intro _ metadata s₂ _ h₂ _
      rw [wp_guard]
      subst hfile
      exact ⟨fun _ => h₁.trans h₂, fun _ => ⟨h₁.trans h₂, h₂.mem (mem_of_concat htrace₁)⟩⟩
    · intro _ s₂ h₂
      exact h₁.trans h₂
  · intro _ s₁ h₁
    exact h₁

/-- The collision loop of temporary names. -/
theorem createUniqueTempFrom_spec {parent : Dir} {label : String} (candidateId : Nat)
    (hlabel : label.toList.all isJobNameChar = true) (remaining attemptIndex : Nat) :
    (env.createUniqueTempFrom parent candidateId label remaining attemptIndex).Wp s
      (fun temp s' => Steps env (fun _ => TempStep env parent) s s' ∧ IsEntry temp.1 ∧
        .call (.createNew parent temp.1) (.ok temp.2) ∈ s'.trace)
      (fun _ s' => Steps env (fun _ => TempStep env parent) s s') := by
  induction remaining generalizing attemptIndex s with
  | zero => exact Steps.refl s
  | succ remaining ih =>
    unfold JobEnv.createUniqueTempFrom
    rw [wp_bind, wp_attempt]
    have hname := temporaryName_isEntry candidateId attemptIndex hlabel
    apply (createNewProtected_spec hname).mono
    · intro file s₁ h₁
      exact ⟨h₁.1, hname, h₁.2⟩
    · intro error s₁ h₁
      split
      · next heq => cases heq
      · apply (ih (attemptIndex + 1)).mono
        · intro temp s₂ h₂
          exact ⟨h₁.trans h₂.1, h₂.2⟩
        · intro _ s₂ h₂
          exact h₁.trans h₂
      · exact h₁

/-- The end of a preparation: the file is flushed and synced, and its length is checked. -/
theorem finishTemp_spec {parent : Dir} {file : File} {flushing syncing checking : String}
    {length : Nat} {prepared : PreparedFile} {events : List (Event Value)}
    (hevents : events.Sublist s.trace) :
    (do
      orIo flushing (← env.call (.flush file))
      orIo syncing (← env.call (.syncAll file))
      let actual ← orIo checking (← env.call (.fileMetadata file))
      if actual.len ≠ length then
        throw (.temporaryLengthMismatch length actual.len)
      return prepared : JobM σ Value PreparedFile).Wp s
      (fun temporary s' => Steps env (fun _ => TempStep env parent) s s' ∧ temporary = prepared ∧
        (events ++ [Event.call (.flush file) (.ok ()), .call (.syncAll file) (.ok ())]).Sublist
          s'.trace)
      (fun _ s' => Steps env (fun _ => TempStep env parent) s s') := by
  -- flush, sync and query; each failure leaves a temporary behind, nothing else
  apply wp_io (fun _ => TempStep env parent) (fun answer => .handle answer rfl)
  · intro flushed _ s₁ hflushed h₁ htrace₁
    subst hflushed
    have hevents := sublist_concat hevents htrace₁
    apply wp_io (fun _ => TempStep env parent) (fun answer => .handle answer rfl)
    · intro synced _ s₂ hsynced h₂ htrace₂
      subst hsynced
      have hevents := sublist_concat hevents htrace₂
      have h₂ := h₁.trans h₂
      apply wp_io (fun _ => TempStep env parent) (fun answer => .handle answer rfl)
      · intro _ actual s₃ _ h₃ _
        rw [wp_guard]
        rw [List.append_assoc] at hevents
        exact ⟨fun _ => h₂.trans h₃, fun _ => ⟨h₂.trans h₃, rfl, hevents.trans h₃.sublist⟩⟩
      · intro _ s₃ h₃
        exact h₂.trans h₃
    · intro _ s₂ h₂
      exact h₁.trans h₂
  · intro _ s₁ h₁
    exact h₁

theorem prepareStream_spec (parent : Dir) (content : ContentPlan) :
    (env.prepareStream parent content).Wp s
      (fun temporary s' => Steps env (fun _ => TempStep env parent) s s' ∧ IsEntry temporary.name ∧
        Streamed s'.trace parent content temporary)
      (fun _ s' => Steps env (fun _ => TempStep env parent) s s') := by
  unfold JobEnv.prepareStream JobEnv.createUniqueTemp
  rw [wp_bind]
  -- the temporary comes first, then its metadata, then the stream into it
  apply (createUniqueTempFrom_spec content.candidateId (by decide) _ _).mono
  · intro temp s₁ h₁
    obtain ⟨name, file⟩ := temp
    obtain ⟨h₁, hname, hcreated⟩ := h₁
    have hcreated := List.singleton_sublist.mpr hcreated
    apply wp_io (fun _ => TempStep env parent) (fun answer => .handle answer rfl)
    · intro _ metadata s₂ _ h₂ _
      have hcreated := hcreated.trans h₂.sublist
      have h₂ := h₁.trans h₂
      rw [wp_bind]
      apply wp_stream (fun _ => TempStep env parent)
      · intro result h
        exact .streamed h
      · intro outcome output s₃ h₃ htrace₃
        have h₃ := h₂.trans h₃
        apply (finishTemp_spec (sublist_concat hcreated htrace₃)).mono
        · intro temporary s₄ h₄
          obtain ⟨h₄, rfl, hevents⟩ := h₄
          exact ⟨h₃.trans h₄, hname, output, hevents⟩
        · intro _ s₄ h₄
          exact h₃.trans h₄
      · intro _ s₃ h₃
        exact h₂.trans h₃
    · intro _ s₂ h₂
      exact h₁.trans h₂
  · intro _ s₁ h₁
    exact h₁

theorem prepareBytes_spec {label : String} (parent : Dir) (bytes : Bytes) (sha256 : Digest)
    (hlabel : label.toList.all isJobNameChar = true) :
    (env.prepareBytes parent label bytes sha256).Wp s
      (fun prepared s' => Steps env (fun _ => TempStep env parent) s s' ∧ IsEntry prepared.name ∧
        FileWritten s'.trace parent bytes prepared ∧ prepared.outcome.sha256 = sha256)
      (fun _ s' => Steps env (fun _ => TempStep env parent) s s') := by
  unfold JobEnv.prepareBytes JobEnv.createUniqueTemp
  dsimp only
  rw [wp_bind]
  -- as for a streamed file, with one write in place of the stream
  apply (createUniqueTempFrom_spec _ hlabel _ _).mono
  · intro temp s₁ h₁
    obtain ⟨name, file⟩ := temp
    obtain ⟨h₁, hname, hcreated⟩ := h₁
    have hcreated := List.singleton_sublist.mpr hcreated
    apply wp_io (fun _ => TempStep env parent) (fun answer => .handle answer rfl)
    · intro _ metadata s₂ _ h₂ _
      have hcreated := hcreated.trans h₂.sublist
      have h₂ := h₁.trans h₂
      apply wp_io (fun _ => TempStep env parent) (fun answer => .handle answer rfl)
      · intro written _ s₃ hwritten h₃ htrace₃
        subst hwritten
        have h₃ := h₂.trans h₃
        apply (finishTemp_spec (sublist_concat hcreated htrace₃)).mono
        · intro prepared s₄ h₄
          obtain ⟨h₄, rfl, hevents⟩ := h₄
          exact ⟨h₃.trans h₄, hname, hevents, rfl⟩
        · intro _ s₄ h₄
          exact h₃.trans h₄
      · intro _ s₃ h₃
        exact h₂.trans h₃
    · intro _ s₂ h₂
      exact h₁.trans h₂
  · intro _ s₁ h₁
    exact h₁

/-- A check before a link looks at nothing but the file and its name. -/
theorem verifyPrelinkIdentity_spec {parent : Dir} {prepared : PreparedFile}
    (hname : IsEntry prepared.name) :
    (env.verifyPrelinkIdentity parent prepared).Wp s
      (fun _ s' => Steps env (fun _ => TempStep env parent) s s' ∧ Rebound s'.trace parent prepared)
      (fun _ s' => Steps env (fun _ => TempStep env parent) s s') := by
  unfold JobEnv.verifyPrelinkIdentity
  -- the handle held, then the name looked up again, then the handle of that
  apply wp_io (fun _ => TempStep env parent) (fun answer => .handle answer rfl)
  · intro handled handle s₁ hhandled h₁ htrace₁
    subst hhandled
    rw [wp_guard]
    refine ⟨fun _ => h₁, fun hhandle => ?_⟩
    apply wp_io (fun _ => TempStep env parent) (fun answer => .reopened answer hname)
    · intro opened lookup s₂ hopened h₂ htrace₂
      subst hopened
      have h₂ := h₁.trans h₂
      apply wp_io (fun _ => TempStep env parent) (fun answer => .handle answer rfl)
      · intro queried metadata s₃ hqueried h₃ htrace₃
        subst hqueried
        rw [wp_throwIf]
        refine ⟨fun _ => h₂.trans h₃, fun hmetadata => ⟨h₂.trans h₃, ?_⟩⟩
        -- both guards passed, so both handles are the prepared file
        simp only [Bool.not_eq_true', ne_eq, not_or, Bool.not_eq_false, not_not]
          at hhandle hmetadata
        refine ⟨s.trace, handle, lookup, metadata, ?_, hhandle.1, hhandle.2.1, hhandle.2.2,
          hmetadata.1, hmetadata.2⟩
        rw [htrace₃, htrace₂, htrace₁, List.append_assoc, List.append_assoc]
        rfl
      · intro _ s₃ h₃
        exact h₂.trans h₃
    · intro _ s₂ h₂
      exact h₁.trans h₂
  · intro _ s₁ h₁
    exact h₁

/-! ## Parent directories -/

/-- A step that opens or creates `component` in `current`. -/
inductive WalkStep (current : Dir) (component : String) : Event Value → Prop
  | handle {call : Call Value} (answer : call.Answer) (h : call.isHandle = true) :
      WalkStep current component (.call call answer)
  | entered (answer : Except IoError Dir) :
      WalkStep current component (.call (.openDirNofollow current component) answer)
  | created (answer : Except IoError Unit) :
      WalkStep current component (.call (.createDir current component .parent) answer)

theorem WalkStep.quiet {current : Dir} {component : String} (e : Event Value)
    (h : WalkStep current component e) : e.poisons = false := by
  cases h <;> rfl

theorem parentTransition_spec {current : Dir} {component : String} (componentIndex : Nat)
    (name : String) (transition : ParentTransition) :
    (env.parentTransition componentIndex name transition).Wp s
      (fun _ s' => Steps env (fun _ => WalkStep current component) s s')
      (fun _ s' => Steps env (fun _ => WalkStep current component) s s') := by
  unfold JobEnv.parentTransition
  rw [wp_bind]
  apply wp_call (fun _ => WalkStep current component) (fun answer => .handle answer rfl)
  intro answer s₁ h₁ _
  rw [wp_ofExcept]
  exact ⟨fun _ _ => h₁, fun _ _ => h₁⟩

/-- The second attempt to open a directory that was missing. -/
theorem bindParent_spec (current : Dir) (componentIndex : Nat) (component : String) :
    (do
      let next ← orIo "bind sanitized destination directory"
        (← env.call (.openDirNofollow current component))
      env.parentTransition componentIndex component .bound
      return next : JobM σ Value Dir).Wp s
      (fun next s' => Steps env (fun _ => WalkStep current component) s s' ∧
        .call (.openDirNofollow current component) (.ok next) ∈ s'.trace)
      (fun _ s' => Steps env (fun _ => WalkStep current component) s s') := by
  apply wp_io (fun _ => WalkStep current component) (fun answer => .entered answer)
  · intro opened next s₁ hopened h₁ htrace₁
    subst hopened
    rw [wp_bind]
    apply (parentTransition_spec componentIndex component .bound).mono
    · intro _ s₂ h₂
      exact ⟨h₁.trans h₂, h₂.mem (mem_of_concat htrace₁)⟩
    · intro _ s₂ h₂
      exact h₁.trans h₂
  · intro _ s₁ h₁
    exact h₁

theorem openOrCreateParent_spec (current : Dir) (componentIndex : Nat) (component : String) :
    (env.openOrCreateParent current componentIndex component).Wp s
      (fun next s' => Steps env (fun _ => WalkStep current component) s s' ∧
        .call (.openDirNofollow current component) (.ok next) ∈ s'.trace)
      (fun _ s' => Steps env (fun _ => WalkStep current component) s s') := by
  unfold JobEnv.openOrCreateParent
  rw [wp_bind]
  apply wp_call (fun _ => WalkStep current component) (fun answer => .entered answer)
  intro opened s₁ h₁ htrace₁
  -- the rest of the function, behind an answer that the directory is missing
  have hrest : ∀ s₂, Steps env (fun _ => WalkStep current component) s s₂ →
      (do
        let next ← orIo "bind sanitized destination directory"
          (← env.call (.openDirNofollow current component))
        env.parentTransition componentIndex component .bound
        return next : JobM σ Value Dir).Wp s₂
      (fun next s' => Steps env (fun _ => WalkStep current component) s s' ∧
        .call (.openDirNofollow current component) (.ok next) ∈ s'.trace)
      (fun _ s' => Steps env (fun _ => WalkStep current component) s s') := by
    intro s₂ h₂
    apply (bindParent_spec current componentIndex component).mono
    · intro next s₃ h₃
      exact ⟨h₂.trans h₃.1, h₃.2⟩
    · intro _ s₃ h₃
      exact h₂.trans h₃
  cases opened with
  | ok next =>
    dsimp only
    rw [wp_bind]
    apply (parentTransition_spec componentIndex component .bound).mono
    · intro _ s₂ h₂
      exact ⟨h₁.trans h₂, h₂.mem (mem_of_concat htrace₁)⟩
    · intro _ s₂ h₂
      exact h₁.trans h₂
  | error error =>
    dsimp only
    rw [wp_guard]
    refine ⟨fun _ => h₁, fun _ => ?_⟩
    rw [wp_bind]
    apply wp_call (fun _ => WalkStep current component) (fun answer => .created answer)
    intro made s₂ h₂ _
    have h₂ := h₁.trans h₂
    cases made with
    | ok made =>
      dsimp only
      rw [wp_bind]
      apply (parentTransition_spec componentIndex component .createdBeforeBind).mono
      · intro _ s₃ h₃
        exact hrest s₃ (h₂.trans h₃)
      · intro _ s₃ h₃
        exact h₂.trans h₃
    | error createError =>
      dsimp only
      rw [wp_guard]
      exact ⟨fun _ => h₂, fun _ => hrest s₂ h₂⟩

/-- The walk to the parent of an item, from the directory that `names` lead to. -/
theorem openOrCreateParentsFrom_spec {site : Site} {components names : List String}
    (hnames : names ++ components = site.plan.path.parentComponents) {current : Dir}
    (hcurrent : Walk s.trace site.jobDir names current) (hs : Healthy s.trace)
    (componentIndex : Nat) :
    (env.openOrCreateParentsFrom components componentIndex current).Wp s
      (fun parent s' => Steps env (ItemStep env site) s s' ∧ Healthy s'.trace ∧
        site.Parent s'.trace parent)
      (fun _ s' => Steps env (ItemStep env site) s s') := by
  induction components generalizing names current componentIndex s with
  | nil =>
    rw [List.append_nil] at hnames
    refine ⟨Steps.refl s, hs, ?_⟩
    unfold Site.Parent
    rw [← hnames]
    exact hcurrent
  | cons component components ih =>
    unfold JobEnv.openOrCreateParentsFrom
    rw [wp_bind]
    have hprefix' : names ++ [component] <+: site.plan.path.parentComponents :=
      ⟨components, by rw [List.append_assoc]; exact hnames⟩
    have hentry : IsEntry component := by
      have hmem : component ∈ site.plan.path.parentComponents := by
        rw [← hnames]
        exact List.mem_append_right names List.mem_cons_self
      exact component_isEntry ((List.dropLast_sublist site.plan.path.components).subset hmem)
    -- a turn of the loop is one of the item, wherever its walk has come to
    have hlift : ∀ s', Steps env (fun _ => WalkStep current component) s s' →
        Steps env (ItemStep env site) s s' := by
      intro s' h
      apply h.lift WalkStep.quiet hs
      intro past e hsub hhealthy he
      have hwalk := hcurrent.mono hsub.subset
      cases he with
      | handle answer h => exact .handle answer h
      | entered answer =>
        exact .entered answer ⟨(List.prefix_append names [component]).trans hprefix', hwalk⟩ hentry
      | created answer => exact .createdParent answer hhealthy hwalk hprefix'
    apply (openOrCreateParent_spec current componentIndex component).mono
    · intro next s₁ h₁
      obtain ⟨h₁, hopened⟩ := h₁
      have hs₁ := h₁.healthy hs fun _ => WalkStep.quiet
      have hnext : Walk s₁.trace site.jobDir (names ++ [component]) next :=
        (hcurrent.mono h₁.subset).append (.enter hopened (.here next))
      apply (ih (by rw [List.append_assoc]; exact hnames) hnext hs₁ (componentIndex + 1)).mono
      · intro parent s₂ h₂
        exact ⟨(hlift s₁ h₁).trans h₂.1, h₂.2⟩
      · intro _ s₂ h₂
        exact (hlift s₁ h₁).trans h₂
    · intro _ s₁ h₁
      exact hlift s₁ h₁

theorem openOrCreateParents_spec (site : Site) (hs : Healthy s.trace) :
    (env.openOrCreateParents site.jobDir site.plan.path).Wp s
      (fun parent s' => Steps env (ItemStep env site) s s' ∧ Healthy s'.trace ∧
        site.Parent s'.trace parent)
      (fun _ s' => Steps env (ItemStep env site) s s') := by
  unfold JobEnv.openOrCreateParents
  apply wp_io (ItemStep env site) (fun answer => .handle answer rfl)
  · intro cloned current s₁ hcloned h₁ htrace₁
    subst hcloned
    have hs₁ := hs.concat htrace₁ rfl
    have hwalk : Walk s₁.trace site.jobDir [] current :=
      .clone (mem_of_concat htrace₁) (.here current)
    apply (openOrCreateParentsFrom_spec (List.nil_append _) hwalk hs₁ 0).mono
    · intro parent s₂ h₂
      exact ⟨h₁.trans h₂.1, h₂.2⟩
    · intro _ s₂ h₂
      exact h₁.trans h₂
  · intro _ s₁ h₁
    exact h₁

/-! ## Files -/

theorem prepareSidecar_spec {site : Site} {content : ContentPlan} {parent : Dir}
    {outcome : StreamOutcome} {bytes : Option Bytes}
    (hbytes : env.buildPartialSidecar site.itemKey content outcome site.plan.warnings = .ok bytes) :
    (env.prepareSidecar parent bytes).Wp s
      (fun sidecarTemp s' => Steps env (fun _ => TempStep env parent) s s' ∧
        (∀ sidecar, sidecarTemp = some sidecar → IsEntry sidecar.name) ∧
        SidecarReady env site content parent outcome sidecarTemp s'.trace)
      (fun _ s' => Steps env (fun _ => TempStep env parent) s s') := by
  unfold JobEnv.buildPartialSidecar at hbytes
  unfold JobEnv.prepareSidecar
  split at hbytes
  · next hnone =>
    cases hbytes
    exact ⟨Steps.refl s, fun _ h => (by cases h), .inl ⟨hnone, rfl⟩⟩
  · next record hsome =>
    obtain ⟨bytes', hvec, rfl⟩ := map_eq_ok.mp (mapError_eq_ok.mp hbytes)
    dsimp only
    rw [wp_bind]
    apply (prepareBytes_spec parent bytes' (env.sha256 bytes') (by decide)).mono
    · intro sidecar s₁ h₁
      obtain ⟨h₁, hname, hwritten, hsha256⟩ := h₁
      refine ⟨h₁, ?_, .inr ⟨record, bytes', sidecar, hsome, hvec, rfl, hwritten, hsha256⟩⟩
      intro sidecar' heq
      exact Option.some.inj heq ▸ hname
    · intro _ s₁ h₁
      exact h₁

/-- A file item up to its announcement. -/
theorem prepareFileItem_spec {site : Site} {content : ContentPlan}
    (hkind : site.plan.item = .file content) (htied : s.Tied env digest) (hs : Healthy s.trace) :
    (env.prepareFileItem site.jobDir site.plan content site.itemKey).Wp s
      (fun out s' => Steps env (ItemStep env site) s s' ∧ Healthy s'.trace ∧
        IsEntry out.2.1.name ∧ (∀ sidecar, out.2.2 = some sidecar → IsEntry sidecar.name) ∧
        Announced env site content out.1 out.2.1 out.2.2 s'.trace)
      (fun _ s' => Steps env (ItemStep env site) s s') := by
  unfold JobEnv.prepareFileItem
  rw [wp_bind]
  -- the four stages run in the order of the source
  apply (openOrCreateParents_spec site hs).mono
  · intro parent s₁ h₁
    obtain ⟨h₁, hs₁, hparent₁⟩ := h₁
    rw [wp_bind]
    apply (prepareStream_spec parent content).mono
    · intro temporary s₂ h₂
      obtain ⟨h₂, hname, hstreamed₂⟩ := h₂
      have hparent₂ := hparent₁.mono h₂.subset
      obtain ⟨h₂, hs₂⟩ := h₂.ofTemp hparent₁ hs₁
      have h₂ := h₁.trans h₂
      rw [wp_bind, wp_ofExcept]
      refine ⟨fun bytes hbytes => ?_, fun _ _ => h₂⟩
      rw [wp_bind]
      apply (prepareSidecar_spec hbytes).mono
      · intro sidecarTemp s₃ h₃
        obtain ⟨h₃, hnames, hsidecar₃⟩ := h₃
        have hready : Readied env site content parent temporary sidecarTemp s₃.trace :=
          ⟨hkind, hparent₂.mono h₃.subset, hstreamed₂.mono h₃.sublist,
            hsidecar₃⟩
        obtain ⟨h₃, hs₃⟩ := h₃.ofTemp hparent₂ hs₂
        have h₃ := h₂.trans h₃
        rw [wp_bind]
        apply wp_append (ItemStep env site) (h₃.tied htied)
        · intro result
          exact .appended result (.itemPrepared hready)
        -- the journal record comes after everything it announces
        · intro s₄ h₄ htrace₄ hs₄
          have hsub := h₄.sublist
          exact ⟨h₃.trans h₄, hs₄, hname, hnames, hready.mono hsub, mem_of_concat htrace₄⟩
        · intro _ s₄ h₄ _
          exact h₃.trans h₄
      · intro _ s₃ h₃
        exact h₂.trans (h₃.ofTemp hparent₂ hs₂).1
    · intro _ s₂ h₂
      exact h₁.trans (h₂.ofTemp hparent₁ hs₁).1
  · intro _ s₁ h₁
    exact h₁

end Undelete.Restore
