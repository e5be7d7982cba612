import Undelete.ForStd.Reach

/-!
# The storage workflow of the window

Model of the hook `useStorageScan` in `apps/desktop/src/state/storageScan.ts`. An asynchronous
command runs up to its `await` in one step, and goes on in another one when the native answer
arrives: the variables it has captured are kept in a call. `setState` queues an update, and
`stateRef` is assigned when the component is rendered, so commands that read `stateRef` may see
an older state: `state` has all queued updates applied, and `render` copies it. The fields of
`StorageScan` after the calls record what has happened; no operation reads them.
-/

namespace Undelete.Desktop

inductive StorageErrorCode where
  | desktopRuntimeUnavailable
  | inventoryUnavailable
  | sourceUnsupported
  | sourceGone
  | sourceIdentityChanged
  | folderScopeUnsupported
  | folderScopeMismatch
  | scanModeUnsupported
  | uacCancelled
  | brokerUnavailable
  | brokerProtocol
  | sourceIo
  | scanCorrupt
  | scanInternal
  | resultQueryInvalid
  | resultCursorStale
  | resultSelectionStale
  | resultSelectionInvalid
  | reportIncompatible
deriving DecidableEq, Repr

/-! ## Native contracts -/

structure StorageVolume where
  id : String
  fileSystem : String
  scanSupported : Bool
  folderScopeSupported : Bool
deriving DecidableEq, Repr

structure StorageDisk where
  id : String
  volumes : List StorageVolume
deriving DecidableEq, Repr

structure StorageInventory where
  generation : String
  disks : List StorageDisk
deriving DecidableEq, Repr

structure FolderSelection where
  scopeId : String
  volumeId : String
  label : String
deriving DecidableEq, Repr

inductive ScanMode where
  | metadata
  | deepJpeg
deriving DecidableEq, Repr

inductive ScanScopeKind where
  | volume
  | folder
deriving DecidableEq, Repr

structure ScanScope where
  kind : ScanScopeKind
  label : String
deriving DecidableEq, Repr

structure ScanSummary where
  scanId : String
  scope : ScanScope
  scanMode : ScanMode
deriving DecidableEq, Repr

inductive ScanProgressPhase where
  | bootstrap
  | mftRecords
  | namespacePaths
  | candidates
  | deepJpeg
  | complete
deriving DecidableEq, Repr

inductive RequestKind where
  | inventory
  | folder
  | scan
deriving DecidableEq, Repr

/-- The id `kind-sequence`, with the number written in base 36. -/
structure RequestId where
  kind : RequestKind
  sequence : Nat
deriving DecidableEq, Repr

structure ScanProgressEvent where
  requestId : RequestId
  phase : ScanProgressPhase
  completed : String
  total : String
deriving DecidableEq, Repr

/-! ## The state of the hook -/

inductive InventoryPhase where
  | unavailable
  | loading
  | refreshing
  | ready
  | error
deriving DecidableEq, Repr

inductive FolderPhase where
  | idle
  | selecting
deriving DecidableEq, Repr

inductive ScanPhase where
  | idle
  | scanning
  | success
  | error
deriving DecidableEq, Repr

structure StorageWorkflowState where
  inventoryPhase : InventoryPhase
  inventory : Option StorageInventory := none
  inventoryError : Option StorageErrorCode := none
  selectedVolumeId : Option String := none
  folderSelection : Option FolderSelection := none
  scanMode : ScanMode := .metadata
  folderPhase : FolderPhase := .idle
  folderCancelled : Bool := false
  scanPhase : ScanPhase := .idle
  scanError : Option StorageErrorCode := none
  scanProgress : Option ScanProgressEvent := none
  scanStartedAt : Option Nat := none
  summary : Option ScanSummary := none
deriving DecidableEq, Repr

def StorageInventory.volumes (inventory : StorageInventory) : List StorageVolume :=
  inventory.disks.flatMap (·.volumes)

def inventoryContainsVolume (inventory : StorageInventory) (volumeId : String) : Bool :=
  inventory.disks.any fun disk => disk.volumes.any (·.id = volumeId)

namespace StorageWorkflowState

def clearScan (s : StorageWorkflowState) : StorageWorkflowState :=
  { s with
    scanPhase := .idle, scanError := none, scanProgress := none, scanStartedAt := none,
    summary := none }

/-- The volume with the selected id. -/
def volume (s : StorageWorkflowState) : Option StorageVolume := do
  let inventory ← s.inventory
  inventory.volumes.find? fun item => some item.id = s.selectedVolumeId

end StorageWorkflowState

/-- `fileSystem.toLocaleLowerCase("en-US") === "ntfs"`. -/
def StorageVolume.isNtfs (volume : StorageVolume) : Bool := volume.fileSystem.toLower = "ntfs"

/-- `refreshInventory`, waiting for `listStorageSources`. -/
structure InventoryCall where
  requestId : RequestId
  requestGeneration : Nat
deriving DecidableEq, Repr

/-- `selectFolder`, waiting for `selectScanFolder`. -/
structure FolderCall where
  requestId : RequestId
  generation : String
  volumeId : String
  requestGeneration : Nat
deriving DecidableEq, Repr

/-- `startScan`, waiting for `scanStorageVolume`. -/
structure ScanCall where
  requestId : RequestId
  generation : String
  volumeId : String
  scopeId : Option String
  scanMode : ScanMode
  requestGeneration : Nat
deriving DecidableEq, Repr

/-- The kind of scope that the answer must have. -/
def ScanCall.scopeKind (call : ScanCall) : ScanScopeKind :=
  if call.scopeId = none then .volume else .folder

structure StorageScan where
  state : StorageWorkflowState
  stateRef : StorageWorkflowState
  mounted : Bool := false
  inventoryInFlight : Bool := false
  folderInFlight : Bool := false
  scanInFlight : Bool := false
  inventoryGeneration : Nat := 0
  scanGeneration : Nat := 0
  requestSequence : Nat := 0
  inventoryCalls : List InventoryCall := []
  folderCalls : List FolderCall := []
  scanCalls : List ScanCall := []
  /-- The scans that were started, the last one first. -/
  scans : List ScanCall := []
  /-- The folders that were authorised. -/
  folderAnswers : List (FolderCall × FolderSelection) := []
  /-- The summaries that were answered. -/
  scanAnswers : List (ScanCall × ScanSummary) := []
deriving DecidableEq, Repr

namespace StorageScan

def initial (runtimeAvailable : Bool) : StorageScan where
  state := { inventoryPhase := if runtimeAvailable then .loading else .unavailable }
  stateRef := { inventoryPhase := if runtimeAvailable then .loading else .unavailable }

def setState (h : StorageScan) (update : StorageWorkflowState → StorageWorkflowState) :
    StorageScan :=
  { h with state := update h.state }

/-! ## Commands -/

def refreshInventory (runtimeAvailable : Bool) (h : StorageScan) : StorageScan :=
  if !runtimeAvailable || h.inventoryInFlight || h.scanInFlight then h
  else
    let call : InventoryCall :=
      ⟨⟨.inventory, h.requestSequence + 1⟩, h.inventoryGeneration + 1⟩
    let h := { h with
      inventoryInFlight := true
      inventoryGeneration := h.inventoryGeneration + 1
      requestSequence := h.requestSequence + 1
      inventoryCalls := call :: h.inventoryCalls }
    h.setState fun current => { current with
      inventoryPhase := if current.inventory = none then .loading else .refreshing
      inventoryError := none
      folderCancelled := false }

/-- The effect that runs when the component is mounted. -/
def mount (runtimeAvailable : Bool) (h : StorageScan) : StorageScan :=
  let h := { h with mounted := true }
  if runtimeAvailable then h.refreshInventory runtimeAvailable else h

/-- The clean-up of that effect. -/
def unmount (h : StorageScan) : StorageScan :=
  { h with
    mounted := false
    inventoryGeneration := h.inventoryGeneration + 1
    scanGeneration := h.scanGeneration + 1
    inventoryInFlight := false
    folderInFlight := false
    scanInFlight := false }

def selectVolume (volumeId : String) (h : StorageScan) : StorageScan :=
  if h.scanInFlight then h
  else
    h.setState fun current =>
      if current.inventory.any (inventoryContainsVolume · volumeId) then
        { current.clearScan with
          selectedVolumeId := some volumeId
          folderSelection := none
          scanMode := .metadata
          folderPhase := .idle
          folderCancelled := false }
      else current

def selectFolder (h : StorageScan) : StorageScan :=
  match h.stateRef.selectedVolumeId, h.stateRef.inventory, h.stateRef.volume with
  | some volumeId, some inventory, some volume =>
    if !volume.folderScopeSupported || h.folderInFlight || h.scanInFlight then h
    else
      let call : FolderCall :=
        ⟨⟨.folder, h.requestSequence + 1⟩, inventory.generation, volumeId, h.scanGeneration⟩
      let h := { h with
        folderInFlight := true
        requestSequence := h.requestSequence + 1
        folderCalls := call :: h.folderCalls }
      h.setState fun latest => { latest with
        folderPhase := .selecting, folderCancelled := false, scanError := none }
  | _, _, _ => h

def clearFolder (h : StorageScan) : StorageScan :=
  if h.folderInFlight || h.scanInFlight then h
  else
    h.setState fun current => { current.clearScan with
      folderSelection := none, folderCancelled := false }

def selectScanMode (mode : ScanMode) (h : StorageScan) : StorageScan :=
  if h.scanInFlight || h.folderInFlight then h
  else
    h.setState fun current =>
      let deepJpegAvailable := current.folderSelection = none && current.volume.any (·.isNtfs)
      if mode = .deepJpeg && !deepJpegAvailable then current
      else { current.clearScan with scanMode := mode }

/-- Whether the mode cannot be used for the volume and the folder of the state. -/
def modeRefused (current : StorageWorkflowState) (volume : StorageVolume) : Bool :=
  current.scanMode = .deepJpeg && (current.folderSelection ≠ none || !volume.isNtfs)

def startScan (now : Nat) (h : StorageScan) : StorageScan :=
  match h.stateRef.selectedVolumeId, h.stateRef.inventory, h.stateRef.volume with
  | some volumeId, some inventory, some volume =>
    if !volume.scanSupported || modeRefused h.stateRef volume || h.scanInFlight ||
        h.folderInFlight then h
    else
      let scopeId :=
        (h.stateRef.folderSelection.filter (·.volumeId = volumeId)).map (·.scopeId)
      let call : ScanCall :=
        { requestId := ⟨.scan, h.requestSequence + 1⟩
          generation := inventory.generation
          volumeId
          scopeId
          scanMode := h.stateRef.scanMode
          requestGeneration := h.scanGeneration + 1 }
      let h := { h with
        scanInFlight := true
        scanGeneration := h.scanGeneration + 1
        requestSequence := h.requestSequence + 1
        scanCalls := call :: h.scanCalls
        scans := call :: h.scans }
      h.setState fun latest => { latest with
        scanPhase := .scanning
        scanError := none
        scanProgress := none
        scanStartedAt := some now
        summary := none
        folderCancelled := false }
  | _, _, _ => h

def resetScan (h : StorageScan) : StorageScan :=
  if h.scanInFlight then h else h.setState (·.clearScan)

/-! ## Answers -/

/-- The part of `refreshInventory` behind its `await`. -/
def inventoryAnswered (call : InventoryCall) (answer : Except StorageErrorCode StorageInventory)
    (h : StorageScan) : StorageScan :=
  let h := { h with inventoryCalls := h.inventoryCalls.erase call }
  let h :=
    -- an answer of an earlier request is dropped
    if !h.mounted || h.inventoryGeneration ≠ call.requestGeneration then h
    else
      match answer with
      | .ok inventory =>
        h.setState fun current =>
          { current.clearScan with
            inventoryPhase := .ready
            inventory := some inventory
            inventoryError := none
            selectedVolumeId :=
              current.selectedVolumeId.filter (inventoryContainsVolume inventory ·)
            folderSelection := none
            scanMode := .metadata
            folderPhase := .idle
            folderCancelled := false }
      | .error code =>
        h.setState fun current => { current with
          inventoryPhase := .error, inventoryError := some code }
  -- the `finally` block of the request
  if h.inventoryGeneration = call.requestGeneration then { h with inventoryInFlight := false }
  else h

/-- The `catch` of `selectFolder`. -/
def folderFailed (call : FolderCall) (code : StorageErrorCode) (h : StorageScan) : StorageScan :=
  if h.mounted && h.scanGeneration = call.requestGeneration then
    h.setState fun latest => { latest with
      folderPhase := .idle, folderCancelled := false, scanPhase := .error, scanError := some code }
  else h

/-- The part of `selectFolder` behind its `await`. -/
def folderAnswered (call : FolderCall) (answer : Except StorageErrorCode (Option FolderSelection))
    (h : StorageScan) : StorageScan :=
  let h := { h with
    folderCalls := h.folderCalls.erase call
    folderInFlight := false }
  match answer with
  | .error code => h.folderFailed call code
  | .ok selection =>
    let h := { h with
      folderAnswers := (selection.map fun folder => (call, folder)).toList ++ h.folderAnswers }
    -- the folder counts only for the inventory and volume it was asked for
    if !h.mounted || h.scanGeneration ≠ call.requestGeneration ||
        h.stateRef.inventory.map (·.generation) ≠ some call.generation ||
        h.stateRef.selectedVolumeId ≠ some call.volumeId then h
    else
      match selection with
      | none => h.setState fun latest => { latest with
          folderPhase := .idle, folderCancelled := true }
      | some folder =>
        -- the answer names another volume
        if folder.volumeId ≠ call.volumeId then h.folderFailed call .folderScopeMismatch
        else
          h.setState fun latest => { latest.clearScan with
            folderSelection := some folder
            scanMode := .metadata
            folderPhase := .idle
            folderCancelled := false }

/-- The callback of `listenScanProgress`. -/
def scanProgressed (call : ScanCall) (progress : ScanProgressEvent) (h : StorageScan) :
    StorageScan :=
  if h.mounted && h.scanGeneration = call.requestGeneration then
    h.setState fun latest => { latest with scanProgress := some progress }
  else h

/-- The `catch` of `startScan`. -/
def scanFailed (call : ScanCall) (code : StorageErrorCode) (h : StorageScan) : StorageScan :=
  if h.mounted && h.scanGeneration = call.requestGeneration then
    h.setState fun latest => { latest with
      scanPhase := .error, scanError := some code, scanProgress := none, summary := none }
  else h

/-- The part of `startScan` behind its `await`. -/
def scanAnswered (call : ScanCall) (answer : Except StorageErrorCode ScanSummary)
    (h : StorageScan) : StorageScan :=
  let h := { h with scanCalls := h.scanCalls.erase call }
  let h :=
    match answer with
    | .error code => h.scanFailed call code
    | .ok completedSummary =>
      let h := { h with scanAnswers := (call, completedSummary) :: h.scanAnswers }
      if !h.mounted || h.scanGeneration ≠ call.requestGeneration then h
      -- a summary of another mode or scope is not shown
      else if completedSummary.scanMode ≠ call.scanMode ||
          completedSummary.scope.kind ≠ call.scopeKind then
        h.scanFailed call .reportIncompatible
      else
        h.setState fun latest => { latest with
          scanPhase := .success
          scanError := none
          scanProgress := some
            { requestId := call.requestId, phase := .complete, completed := "1", total := "1" }
          summary := some completedSummary }
  -- the `finally` block of the request
  if h.scanGeneration = call.requestGeneration then { h with scanInFlight := false } else h

/-! ## Steps -/

inductive Event where
  | mount
  | unmount
  | render
  | refreshInventory
  | selectVolume (volumeId : String)
  | selectFolder
  | clearFolder
  | selectScanMode (mode : ScanMode)
  | startScan (now : Nat)
  | resetScan
  | inventoryAnswer (call : InventoryCall) (answer : Except StorageErrorCode StorageInventory)
  | folderAnswer (call : FolderCall) (answer : Except StorageErrorCode (Option FolderSelection))
  | scanProgress (call : ScanCall) (progress : ScanProgressEvent)
  | scanAnswer (call : ScanCall) (answer : Except StorageErrorCode ScanSummary)

/-- One event; a call is answered once, and reports progress only after it was started. -/
def next (runtimeAvailable : Bool) (h : StorageScan) : Event → Option StorageScan
  | .mount => if !h.mounted then some (h.mount runtimeAvailable) else none
  | .unmount => if h.mounted then some h.unmount else none
  | .render => some { h with stateRef := h.state }
  | .refreshInventory => some (h.refreshInventory runtimeAvailable)
  | .selectVolume volumeId => some (h.selectVolume volumeId)
  | .selectFolder => some h.selectFolder
  | .clearFolder => some h.clearFolder
  | .selectScanMode mode => some (h.selectScanMode mode)
  | .startScan now => some (h.startScan now)
  | .resetScan => some h.resetScan
  | .inventoryAnswer call answer =>
    if call ∈ h.inventoryCalls then some (h.inventoryAnswered call answer) else none
  | .folderAnswer call answer =>
    if call ∈ h.folderCalls then some (h.folderAnswered call answer) else none
  | .scanProgress call progress =>
    if call ∈ h.scans then some (h.scanProgressed call progress) else none
  | .scanAnswer call answer =>
    if call ∈ h.scanCalls then some (h.scanAnswered call answer) else none

end StorageScan

end Undelete.Desktop
