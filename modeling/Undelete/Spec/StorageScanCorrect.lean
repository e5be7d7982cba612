import Undelete.Native.Desktop.StorageScan

/-!
# What the storage workflow displays

A summary on display should be the answer of the scan that was started last, for the inventory,
volume, folder and mode on display; a folder on display should be one that was authorised for
them; and while the scan is outstanding, the window should say so. This holds in every run in
which no inventory arrives during a scan and no command reads a state that is no longer
current. A refresh that was started before the scan breaks it: its answer resets the scan, and
the summary then lands on the new inventory.

## Key results

- `Inv`: the invariant, and one lemma per step that keeps it.
- `reachable_displays`: what is displayed in careful runs.
- `refresh_resets_scan`: an inventory that arrives during a scan.
-/

namespace Undelete.Desktop.StorageScan

/-- The scan was started for the inventory, volume, folder and mode on display. -/
structure Source (s : StorageWorkflowState) (call : ScanCall) : Prop where
  generation_eq : s.inventory.map (·.generation) = some call.generation
  volumeId_eq : s.selectedVolumeId = some call.volumeId
  scopeId_eq : s.folderSelection.map (·.scopeId) = call.scopeId
  scanMode_eq : s.scanMode = call.scanMode

/-- The folder was authorised for the inventory and volume on display. -/
def Authorised (h : StorageScan) (s : StorageWorkflowState) (folder : FolderSelection) : Prop :=
  ∃ call, (call, folder) ∈ h.folderAnswers ∧ folder.volumeId = call.volumeId ∧
    s.inventory.map (·.generation) = some call.generation ∧
    s.selectedVolumeId = some call.volumeId

/-- What the window may display. -/
structure Displays (h : StorageScan) : Prop where
  scanning : ∀ call ∈ h.scanCalls, call.requestGeneration = h.scanGeneration →
    h.state.scanPhase = .scanning
  summary : ∀ summary, h.state.summary = some summary →
    ∃ call, h.scans.head? = some call ∧ (call, summary) ∈ h.scanAnswers ∧ Source h.state call
  folder : ∀ folder, h.state.folderSelection = some folder → Authorised h h.state folder

/-- What `startScan` and `selectFolder` read from `stateRef` is what is displayed. -/
structure Rendered (h : StorageScan) : Prop where
  inventory_eq : h.stateRef.inventory = h.state.inventory
  volumeId_eq : h.stateRef.selectedVolumeId = h.state.selectedVolumeId
  folder_eq : h.stateRef.folderSelection = h.state.folderSelection
  scanMode_eq : h.stateRef.scanMode = h.state.scanMode

/-- No inventory arrives while a scan is outstanding; a scan is started, and a folder accepted,
    on a state that is rendered. -/
def Careful (h : StorageScan) : Event → Prop
  | .inventoryAnswer call (.ok _) => call.requestGeneration = h.inventoryGeneration →
      ∀ scan ∈ h.scanCalls, scan.requestGeneration ≠ h.scanGeneration
  | .startScan _ => h.Rendered
  | .folderAnswer _ _ => h.Rendered
  | _ => True

/-! ## The invariant -/

structure Inv (h : StorageScan) : Prop where
  nodup : h.scanCalls.Nodup
  scan_le : ∀ call ∈ h.scanCalls, call.requestGeneration ≤ h.scanGeneration
  folder_le : ∀ call ∈ h.folderCalls, call.requestGeneration ≤ h.scanGeneration
  /-- A scan of the current generation is the last one that was started. -/
  current : ∀ call ∈ h.scanCalls, call.requestGeneration = h.scanGeneration →
    h.scanInFlight = true ∧ h.state.scanPhase = .scanning ∧ h.state.summary = none ∧
    h.scans.head? = some call ∧ Source h.state call
  /-- While a folder is being selected no scan is started. -/
  exclusive : ∀ call ∈ h.folderCalls, call.requestGeneration = h.scanGeneration →
    ∀ scan ∈ h.scanCalls, scan.requestGeneration ≠ h.scanGeneration
  summary : ∀ summary, h.state.summary = some summary →
    ∃ call, h.scans.head? = some call ∧ (call, summary) ∈ h.scanAnswers ∧ Source h.state call
  folder : ∀ folder, h.state.folderSelection = some folder → Authorised h h.state folder

theorem Inv.displays {h : StorageScan} (hi : Inv h) : Displays h :=
  ⟨fun call hcall heq => (hi.current call hcall heq).2.1, hi.summary, hi.folder⟩

theorem inv_initial (runtimeAvailable : Bool) : Inv (initial runtimeAvailable) := by
  constructor
  · exact List.nodup_nil
  · intro call hcall
    cases hcall
  · intro call hcall
    cases hcall
  · intro call hcall
    cases hcall
  · intro call hcall
    cases hcall
  · intro summary hsummary
    cases hsummary
  · intro folder hfolder
    cases hfolder

variable {h : StorageScan}

/-- The scans of the current generation are over. -/
def Quiet (h : StorageScan) : Prop :=
  ∀ call ∈ h.scanCalls, call.requestGeneration ≠ h.scanGeneration

theorem Inv.quiet (hi : Inv h) (hflag : h.scanInFlight = false) : h.Quiet := by
  intro call hcall heq
  have := (hi.current call hcall heq).1
  rw [hflag] at this
  cases this

/-- An update that leaves the source, the phase and the summary alone. -/
theorem Inv.update (hi : Inv h) {update : StorageWorkflowState → StorageWorkflowState}
    (hinventory : (update h.state).inventory = h.state.inventory)
    (hvolume : (update h.state).selectedVolumeId = h.state.selectedVolumeId)
    (hfolder : (update h.state).folderSelection = h.state.folderSelection)
    (hmode : (update h.state).scanMode = h.state.scanMode)
    (hphase : (update h.state).scanPhase = h.state.scanPhase ∨ h.Quiet)
    (hsummary : (update h.state).summary = h.state.summary) : Inv (h.setState update) := by
  have hsource : ∀ call, Source h.state call → Source (update h.state) call := fun call hs =>
    ⟨by rw [hinventory]; exact hs.generation_eq, by rw [hvolume]; exact hs.volumeId_eq,
      by rw [hfolder]; exact hs.scopeId_eq, by rw [hmode]; exact hs.scanMode_eq⟩
  refine { hi with current := fun call hcall heq => ?_, summary := fun summary hs => ?_,
                   folder := fun folder hf => ?_ }
  · obtain ⟨hflag, hscanning, hnone, hhead, hs⟩ := hi.current call hcall heq
    have hphase := hphase.resolve_right fun hquiet => hquiet call hcall heq
    exact ⟨hflag, hphase.trans hscanning, hsummary.trans hnone, hhead, hsource call hs⟩
  · obtain ⟨call, hhead, hanswer, hs⟩ := hi.summary summary (hsummary.symm.trans hs)
    exact ⟨call, hhead, hanswer, hsource call hs⟩
  · obtain ⟨call, hanswer, heq, hgeneration, hid⟩ := hi.folder folder (hfolder.symm.trans hf)
    refine ⟨call, hanswer, heq, ?_, hvolume.trans hid⟩
    show (update h.state).inventory.map _ = _
    rw [hinventory]
    exact hgeneration

/-- An update without a scan that takes the summary away. -/
theorem Inv.reset (hi : Inv h) {update : StorageWorkflowState → StorageWorkflowState}
    (hquiet : h.Quiet) (hsummary : (update h.state).summary = none)
    (hfolder : ∀ folder, (update h.state).folderSelection = some folder →
      Authorised h (update h.state) folder) : Inv (h.setState update) :=
  { hi with
    current := fun call hcall heq => absurd heq (hquiet call hcall)
    summary := fun summary hs => by
      rw [show (h.setState update).state.summary = none from hsummary] at hs
      cases hs
    folder := hfolder }

/-! ## Steps -/

theorem Inv.refreshInventory (hi : Inv h) (runtimeAvailable : Bool) :
    Inv (h.refreshInventory runtimeAvailable) := by
  unfold StorageScan.refreshInventory
  split
  · exact hi
  · apply Inv.update (h := { h with
      inventoryInFlight := true
      inventoryGeneration := h.inventoryGeneration + 1
      requestSequence := h.requestSequence + 1
      inventoryCalls := ⟨⟨.inventory, h.requestSequence + 1⟩, h.inventoryGeneration + 1⟩ ::
        h.inventoryCalls }) { hi with }
    all_goals first | rfl | exact .inl rfl

theorem Inv.mount (hi : Inv h) (runtimeAvailable : Bool) : Inv (h.mount runtimeAvailable) := by
  have hmounted : Inv { h with mounted := true } := { hi with }
  unfold StorageScan.mount
  split
  · exact hmounted.refreshInventory runtimeAvailable
  · exact hmounted

/-- The clean-up ends the generation of all calls. -/
theorem Inv.unmount (hi : Inv h) : Inv h.unmount := by
  have hlt : ∀ call ∈ h.scanCalls, call.requestGeneration ≠ h.scanGeneration + 1 :=
    fun call hcall heq => by
      have := hi.scan_le call hcall
      omega
  exact { hi with
    scan_le := fun call hcall => Nat.le_succ_of_le (hi.scan_le call hcall)
    folder_le := fun call hcall => Nat.le_succ_of_le (hi.folder_le call hcall)
    current := fun call hcall heq => absurd heq (hlt call hcall)
    exclusive := fun _ _ _ scan hscan => hlt scan hscan }

theorem Inv.selectVolume (hi : Inv h) (volumeId : String) : Inv (h.selectVolume volumeId) := by
  unfold StorageScan.selectVolume
  split
  · exact hi
  · next hflag =>
    have hquiet := hi.quiet (Bool.not_eq_true _ ▸ hflag)
    by_cases hany : h.state.inventory.any (inventoryContainsVolume · volumeId)
    · apply hi.reset hquiet
      · rw [if_pos hany]
        rfl
      · intro folder hfolder
        rw [if_pos hany] at hfolder
        cases hfolder
    · apply hi.update
      all_goals rw [if_neg hany]
      exact .inl rfl

theorem Inv.selectFolder (hi : Inv h) : Inv h.selectFolder := by
  unfold StorageScan.selectFolder
  split
  · next volumeId inventory volume hvolumeId hinventory hvolume =>
    split
    · exact hi
    · next hguard =>
      simp only [Bool.or_eq_true, not_or, Bool.not_eq_true] at hguard
      have hquiet := hi.quiet hguard.2
      apply Inv.update (h := { h with
        folderInFlight := true
        requestSequence := h.requestSequence + 1
        folderCalls := ⟨⟨.folder, h.requestSequence + 1⟩, inventory.generation, volumeId,
          h.scanGeneration⟩ :: h.folderCalls })
        { hi with
          folder_le := List.forall_mem_cons.mpr ⟨Nat.le_refl _, hi.folder_le⟩
          exclusive := fun call hcall heq => hquiet }
      all_goals first | rfl | exact .inl rfl
  · exact hi

theorem Inv.clearFolder (hi : Inv h) : Inv h.clearFolder := by
  unfold StorageScan.clearFolder
  split
  · exact hi
  · next hguard =>
    simp only [Bool.or_eq_true, not_or, Bool.not_eq_true] at hguard
    exact hi.reset (hi.quiet hguard.2) rfl fun folder hfolder => (by cases hfolder)

theorem Inv.selectScanMode (hi : Inv h) (mode : ScanMode) : Inv (h.selectScanMode mode) := by
  unfold StorageScan.selectScanMode
  split
  · exact hi
  · next hguard =>
    simp only [Bool.or_eq_true, not_or, Bool.not_eq_true] at hguard
    dsimp only
    by_cases hrefused : mode = .deepJpeg && !(h.state.folderSelection = none &&
        h.state.volume.any (·.isNtfs))
    · apply hi.update
      all_goals rw [if_pos hrefused]
      exact .inl rfl
    · apply hi.reset (hi.quiet hguard.1)
      · rw [if_neg hrefused]
        rfl
      · rw [if_neg hrefused]
        exact hi.folder

theorem Inv.resetScan (hi : Inv h) : Inv h.resetScan := by
  unfold StorageScan.resetScan
  split
  · exact hi
  · next hflag => exact hi.reset (hi.quiet (Bool.not_eq_true _ ▸ hflag)) rfl hi.folder

/-- A scan is started for the source on display. -/
theorem Inv.startScan (hi : Inv h) (hrendered : h.Rendered) (now : Nat) :
    Inv (h.startScan now) := by
  unfold StorageScan.startScan
  split
  · next volumeId inventory volume hvolumeId hinventory hvolume =>
    split
    · exact hi
    · next hguard =>
      simp only [Bool.or_eq_true, not_or, Bool.not_eq_true] at hguard
      have hquiet := hi.quiet hguard.1.2
      rw [hrendered.volumeId_eq] at hvolumeId
      rw [hrendered.inventory_eq] at hinventory
      rw [hrendered.folder_eq, hrendered.scanMode_eq]
      -- the new generation lies above every call still open
      have hfresh : ∀ call ∈ h.scanCalls, call.requestGeneration ≠ h.scanGeneration + 1 :=
        fun call hcall heq => by
          have := hi.scan_le call hcall
          omega
      -- the folder was chosen on the selected volume, so the filter keeps it
      have hscope : h.state.folderSelection.map (·.scopeId) =
          (h.state.folderSelection.filter (·.volumeId = volumeId)).map (·.scopeId) := by
        cases hfolder : h.state.folderSelection with
        | none => rfl
        | some folder =>
          obtain ⟨call, _, heq, _, hid⟩ := hi.folder folder hfolder
          have : folder.volumeId = volumeId := by
            rw [heq]
            exact Option.some.inj (hid.symm.trans hvolumeId)
          rw [Option.filter_some, if_pos (by simpa using this)]
      constructor
      · exact List.nodup_cons.mpr ⟨fun hmem => hfresh _ hmem rfl, hi.nodup⟩
      · exact List.forall_mem_cons.mpr ⟨Nat.le_refl _,
          fun call hcall => Nat.le_succ_of_le (hi.scan_le call hcall)⟩
      · exact fun call hcall => Nat.le_succ_of_le (hi.folder_le call hcall)
      · intro call hcall heq
        rcases List.mem_cons.mp hcall with rfl | hcall
        · refine ⟨rfl, rfl, rfl, rfl, ?_, hvolumeId, hscope, rfl⟩
          show h.state.inventory.map _ = _
          rw [hinventory]
          rfl
        · exact absurd heq (hfresh call hcall)
      · intro call hcall heq
        have := hi.folder_le call hcall
        have heq : call.requestGeneration = h.scanGeneration + 1 := heq
        omega
      · intro summary hsummary
        cases hsummary
      · exact hi.folder
  · exact hi

theorem Inv.inventoryAnswered (hi : Inv h) (call : InventoryCall)
    (answer : Except StorageErrorCode StorageInventory)
    (hcareful : Careful h (.inventoryAnswer call answer)) :
    Inv (h.inventoryAnswered call answer) := by
  have herased : Inv { h with inventoryCalls := h.inventoryCalls.erase call } := { hi with }
  have hflag : ∀ h' : StorageScan, Inv h' →
      Inv (if h'.inventoryGeneration = call.requestGeneration then
        { h' with inventoryInFlight := false } else h') := by
    intro h' hi'
    split
    · exact { hi' with }
    · exact hi'
  unfold StorageScan.inventoryAnswered
  apply hflag
  dsimp only
  split
  · exact herased
  · next hcurrent =>
    simp only [Bool.or_eq_true, decide_eq_true_eq, not_or, Decidable.not_not] at hcurrent
    cases answer with
    | ok inventory =>
      exact herased.reset (hcareful hcurrent.2.symm) rfl fun folder hfolder => (by cases hfolder)
    | error code =>
      apply herased.update
      all_goals first | rfl | exact .inl rfl

/-- A folder selection of the current generation ends while no scan is outstanding. -/
theorem Inv.folderFailed (hi : Inv h) (call : FolderCall) (code : StorageErrorCode)
    (hquiet : call.requestGeneration = h.scanGeneration → h.Quiet) :
    Inv (h.folderFailed call code) := by
  unfold StorageScan.folderFailed
  split
  · next hcurrent =>
    simp only [Bool.and_eq_true, decide_eq_true_eq] at hcurrent
    apply hi.update
    all_goals first | rfl | exact .inr (hquiet hcurrent.2.symm)
  · exact hi

theorem Inv.folderAnswered (hi : Inv h) {call : FolderCall} (hcall : call ∈ h.folderCalls)
    (answer : Except StorageErrorCode (Option FolderSelection)) (hrendered : h.Rendered) :
    Inv (h.folderAnswered call answer) := by
  have herased : Inv { h with folderCalls := h.folderCalls.erase call, folderInFlight := false } :=
    { hi with
      folder_le := fun call' hmem => hi.folder_le call' (List.mem_of_mem_erase hmem)
      exclusive := fun call' hmem => hi.exclusive call' (List.mem_of_mem_erase hmem) }
  have hquiet : call.requestGeneration = h.scanGeneration → h.Quiet := hi.exclusive call hcall
  unfold StorageScan.folderAnswered
  cases answer with
  | error code => exact herased.folderFailed call code hquiet
  | ok selection =>
    have hrecorded : Inv { h with
        folderCalls := h.folderCalls.erase call
        folderInFlight := false
        folderAnswers := (selection.map fun folder => (call, folder)).toList ++ h.folderAnswers } :=
      { herased with
        folder := fun folder hfolder => by
          obtain ⟨call', hanswer, hrest⟩ := hi.folder folder hfolder
          exact ⟨call', List.mem_append_right _ hanswer, hrest⟩ }
    dsimp only
    split
    · exact hrecorded
    · next hcurrent =>
      -- the answer counts only for the generation, inventory and volume it was asked for
      simp only [Bool.or_eq_true, decide_eq_true_eq, not_or, Decidable.not_not] at hcurrent
      obtain ⟨⟨⟨_, hgeneration⟩, hinventory⟩, hvolumeId⟩ := hcurrent
      rw [hrendered.inventory_eq] at hinventory
      rw [hrendered.volumeId_eq] at hvolumeId
      cases selection with
      | none =>
        apply hrecorded.update
        all_goals first | rfl | exact .inl rfl
      | some folder =>
        dsimp only
        split
        · exact hrecorded.folderFailed call _ hquiet
        · next hid =>
          apply hrecorded.reset (hquiet hgeneration.symm) rfl
          intro folder' hfolder'
          cases hfolder'
          exact ⟨call, List.mem_cons_self, Decidable.not_not.mp hid, hinventory, hvolumeId⟩

theorem Inv.scanProgressed (hi : Inv h) (call : ScanCall) (progress : ScanProgressEvent) :
    Inv (h.scanProgressed call progress) := by
  unfold StorageScan.scanProgressed
  split
  · apply hi.update
    all_goals first | rfl | exact .inl rfl
  · exact hi

/-- An answered scan of the current generation leaves none behind. -/
theorem Inv.quiet_erase (hi : Inv h) {call : ScanCall} (hcall : call ∈ h.scanCalls)
    (hgeneration : call.requestGeneration = h.scanGeneration) :
    Quiet { h with scanCalls := h.scanCalls.erase call } := by
  intro other hother heq
  obtain ⟨hne, hmem⟩ := hi.nodup.mem_erase_iff.mp hother
  have hhead := (hi.current call hcall hgeneration).2.2.2.1
  have hhead' := (hi.current other hmem heq).2.2.2.1
  exact hne (Option.some.inj (hhead'.symm.trans hhead))

theorem Inv.scanFailed (hi : Inv h) (call : ScanCall) (code : StorageErrorCode)
    (hquiet : call.requestGeneration = h.scanGeneration → h.Quiet) :
    Inv (h.scanFailed call code) := by
  unfold StorageScan.scanFailed
  split
  · next hcurrent =>
    simp only [Bool.and_eq_true, decide_eq_true_eq] at hcurrent
    exact hi.reset (hquiet hcurrent.2.symm) rfl hi.folder
  · exact hi

/-- The answer of a scan: its summary is displayed when it is the last one. -/
theorem Inv.scanAnswered (hi : Inv h) {call : ScanCall} (hcall : call ∈ h.scanCalls)
    (answer : Except StorageErrorCode ScanSummary) : Inv (h.scanAnswered call answer) := by
  have herased : Inv { h with scanCalls := h.scanCalls.erase call } :=
    { hi with
      nodup := hi.nodup.erase call
      scan_le := fun other hmem => hi.scan_le other (List.mem_of_mem_erase hmem)
      current := fun other hmem => hi.current other (List.mem_of_mem_erase hmem)
      exclusive := fun folder hfolder heq other hmem =>
        hi.exclusive folder hfolder heq other (List.mem_of_mem_erase hmem) }
  have hquiet := fun heq : call.requestGeneration = h.scanGeneration => hi.quiet_erase hcall heq
  -- the `finally` of the hook clears the flag of its own generation only
  have hflag : ∀ h' : StorageScan, Inv h' →
      (call.requestGeneration = h'.scanGeneration → h'.Quiet) →
      Inv (if h'.scanGeneration = call.requestGeneration then
        { h' with scanInFlight := false } else h') := by
    intro h' hi' hquiet'
    split
    · next heq =>
      refine { hi' with current := fun other hmem hother => ?_ }
      exact absurd hother (hquiet' heq.symm other hmem)
    · exact hi'
  have hfailed : ∀ (h' : StorageScan) (code : StorageErrorCode),
      (h'.scanFailed call code).scanCalls = h'.scanCalls ∧
        (h'.scanFailed call code).scanGeneration = h'.scanGeneration := by
    intro h' code
    unfold StorageScan.scanFailed
    split
    · exact ⟨rfl, rfl⟩
    · exact ⟨rfl, rfl⟩
  -- a failure changes neither the calls nor the generation
  have hquietFailed : ∀ (h' : StorageScan) (code : StorageErrorCode),
      (call.requestGeneration = h'.scanGeneration → h'.Quiet) →
      call.requestGeneration = (h'.scanFailed call code).scanGeneration →
        (h'.scanFailed call code).Quiet := by
    intro h' code hquiet' heq
    unfold Quiet
    rw [(hfailed h' code).1, (hfailed h' code).2]
    exact hquiet' (heq.trans (hfailed h' code).2)
  unfold StorageScan.scanAnswered
  cases answer with
  | error code =>
    exact hflag _ (herased.scanFailed call code hquiet) (hquietFailed _ code hquiet)
  | ok completed =>
    have hrecorded : Inv { h with
        scanCalls := h.scanCalls.erase call
        scanAnswers := (call, completed) :: h.scanAnswers } :=
      { herased with
        summary := fun summary hs => by
          obtain ⟨call', hhead, hanswer, hsource⟩ := hi.summary summary hs
          exact ⟨call', hhead, List.mem_cons_of_mem _ hanswer, hsource⟩ }
    dsimp only
    split
    · exact hflag _ hrecorded hquiet
    · next hcurrent =>
      simp only [Bool.or_eq_true, decide_eq_true_eq, not_or, Decidable.not_not] at hcurrent
      have heq : call.requestGeneration = h.scanGeneration := hcurrent.2.symm
      split
      · exact hflag _ (hrecorded.scanFailed call _ hquiet) (hquietFailed _ _ hquiet)
      -- the summary shown is the answer to the call of this generation
      · obtain ⟨_, _, _, hhead, hsource⟩ := hi.current call hcall heq
        refine hflag _ ?_ hquiet
        exact { hrecorded with
          current := fun other hmem hother => absurd hother (hquiet heq other hmem)
          summary := fun summary hs => by
            cases hs
            exact ⟨call, hhead, List.mem_cons_self, ⟨hsource.generation_eq, hsource.volumeId_eq,
              hsource.scopeId_eq, hsource.scanMode_eq⟩⟩
          folder := hi.folder }

/-- Every careful step keeps the invariant. -/
theorem inv_next {runtimeAvailable : Bool} {e : Event} {h' : StorageScan} (hi : Inv h)
    (hcareful : Careful h e) (hnext : h.next runtimeAvailable e = some h') : Inv h' := by
  -- events that need a mounted hook or an open call are guarded
  have hguard : ∀ (p : Prop) [Decidable p] (next : StorageScan), (p → Inv next) →
      (if p then some next else none) = some h' → Inv h' := by
    intro p _ next hinv heq
    split at heq
    · next hp =>
      cases heq
      exact hinv hp
    · cases heq
  cases e with
  | mount => exact hguard _ _ (fun _ => hi.mount runtimeAvailable) hnext
  | unmount => exact hguard _ _ (fun _ => hi.unmount) hnext
  | render =>
    cases hnext
    exact { hi with }
  | refreshInventory =>
    cases hnext
    exact hi.refreshInventory runtimeAvailable
  | selectVolume volumeId =>
    cases hnext
    exact hi.selectVolume volumeId
  | selectFolder =>
    cases hnext
    exact hi.selectFolder
  | clearFolder =>
    cases hnext
    exact hi.clearFolder
  | selectScanMode mode =>
    cases hnext
    exact hi.selectScanMode mode
  | startScan now =>
    cases hnext
    exact hi.startScan hcareful now
  | resetScan =>
    cases hnext
    exact hi.resetScan
  | inventoryAnswer call answer =>
    exact hguard _ _ (fun _ => hi.inventoryAnswered call answer hcareful) hnext
  | folderAnswer call answer =>
    exact hguard _ _ (fun hcall => hi.folderAnswered hcall answer hcareful) hnext
  | scanProgress call progress =>
    exact hguard _ _ (fun _ => hi.scanProgressed call progress) hnext
  | scanAnswer call answer =>
    exact hguard _ _ (fun hcall => hi.scanAnswered hcall answer) hnext

/-- What is displayed in every state that careful steps lead to. -/
theorem reachable_displays (runtimeAvailable : Bool) (h : StorageScan)
    (hreach : Reachable (next runtimeAvailable) Careful (initial runtimeAvailable) h) :
    Displays h :=
  (hreach.invariant (inv_initial runtimeAvailable) fun _ _ _ hi hcareful hnext =>
    inv_next hi hcareful hnext).displays

/-! ## An inventory that arrives during a scan -/

/-- One NTFS volume. -/
def oneVolume (generation : String) : StorageInventory :=
  ⟨generation, [⟨"d0", [⟨"v0", "NTFS", true, true⟩]⟩]⟩

def summaryOf (scanId : String) : ScanSummary := ⟨scanId, ⟨.volume, "C:"⟩, .metadata⟩

def firstScan : ScanCall := ⟨⟨.scan, 2⟩, "g1", "v0", none, .metadata, 1⟩

/-- The window is opened, and a volume is selected and scanned. -/
def scanEvents : List Event :=
  [.mount, .render, .inventoryAnswer ⟨⟨.inventory, 1⟩, 1⟩ (.ok (oneVolume "g1")), .render,
    .selectVolume "v0", .render, .startScan 7, .render, .scanAnswer firstScan
    (.ok (summaryOf "s1"))]

theorem reachable_displays_scan :
    ∃ h, Reachable.run (next true) (initial true) scanEvents = some h ∧
      h.state.summary = some (summaryOf "s1") ∧ Displays h := by
  have hallowed : Reachable.Allowed (next true) Careful (initial true) scanEvents :=
    ⟨trivial, trivial, fun _ scan hscan => (by cases hscan), trivial, trivial, trivial,
      ⟨rfl, rfl, rfl, rfl⟩, trivial, trivial, trivial⟩
  exact ⟨_, rfl, rfl, reachable_displays true _ (Reachable.init.of_run hallowed rfl)⟩

/-- An inventory is refreshed, a scan is started, and the inventory arrives first. -/
def refreshEvents : List Event :=
  [.mount, .render, .inventoryAnswer ⟨⟨.inventory, 1⟩, 1⟩ (.ok (oneVolume "g1")), .render,
    .selectVolume "v0", .render, .refreshInventory, .render, .startScan 7, .render,
    .inventoryAnswer ⟨⟨.inventory, 2⟩, 2⟩ (.ok (oneVolume "g2")), .render]

def refreshedScan : ScanCall := ⟨⟨.scan, 3⟩, "g1", "v0", none, .metadata, 1⟩

/-- The scan is outstanding, and the window shows no scan. -/
theorem refresh_resets_scan :
    ∃ h, Reachable (next true) (fun _ _ => True) (initial true) h ∧
      refreshedScan ∈ h.scanCalls ∧ refreshedScan.requestGeneration = h.scanGeneration ∧
      h.stateRef.scanPhase = .idle ∧ ¬Displays h := by
  refine ⟨_, Reachable.init.of_run
    (Reachable.allowed_of_forall (fun _ _ => trivial) _ refreshEvents)
    rfl, by decide, rfl, rfl, fun hdisplays => ?_⟩
  cases hdisplays.scanning refreshedScan (by decide) rfl

end Undelete.Desktop.StorageScan
