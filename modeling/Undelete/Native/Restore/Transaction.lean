import Undelete.Native.Restore.Job

/-!
# The restore transaction

Model of the functions of `crates/restore/src/transaction.rs`. Each collision loop counts its
remaining attempts; a `Result` that the source inspects is an `attempt`.
-/

namespace Undelete.Restore

open EStateM (attempt)

variable {σ Value ε α : Type}

/-! ## Names -/

/-- The digits `digits`, padded with zeros to `width`. -/
def padDigits (width : Nat) (digits : List Char) : String :=
  String.ofList (List.replicate (width - digits.length) '0' ++ digits)

/-- `{n:0widthx}` -/
def hexPadded (width n : Nat) : String := padDigits width (Nat.toDigits 16 n)

/-- `{n:0width}` -/
def decimalPadded (width n : Nat) : String := padDigits width (Nat.toDigits 10 n)

def jobDirectoryComponent (sha256 : Bytes → Digest) (jobId : String) : String :=
  ".um-recovery-" ++ String.ofList ((hexDigest (sha256 (Bytes.ofString jobId))).toList.take 32)

def restoreItemKey (itemIndex candidateId : Nat) : String :=
  decimalPadded 6 itemIndex ++ "-" ++ hexPadded 16 candidateId

def partialSidecarBaseName (itemKey : String) : String := ".um-partial-" ++ itemKey ++ ".json"

def temporaryName (candidateId : Nat) (label : String) (attempt : Nat) : String :=
  ".um-" ++ hexPadded 16 candidateId ++ "-" ++ label ++ "-" ++ decimalPadded 4 attempt ++
    ".umrecovering"

/-- `str::rsplit_once`. -/
def rsplitOnce (separator : Char) (text : List Char) : Option (List Char × List Char) :=
  let extension := (text.reverse.takeWhile (· ≠ separator)).reverse
  if extension.length = text.length then none
  else some (text.take (text.length - extension.length - 1), extension)

/-- The name `collision_name` tries before it falls back to a hash. -/
def collisionCandidate (base : String) (collisionIndex : Nat) : String :=
  let suffix := " (recovered " ++ toString collisionIndex ++ ")"
  match rsplitOnce '.' base.toList with
  | some (stem, extension) =>
    if stem.isEmpty then base ++ suffix
    else String.ofList stem ++ suffix ++ "." ++ String.ofList extension
  | none => base ++ suffix

def collisionName (sha256 : Bytes → Digest) (base : String) (collisionIndex : Nat) : String :=
  if collisionIndex = 0 then base
  else
    let candidate := collisionCandidate base collisionIndex
    match SafeRelativePath.tryFromComponents [candidate] with
    | .ok _ => candidate
    | .error _ =>
      "recovered-" ++ String.ofList ((hexDigest (sha256 (Bytes.ofString candidate))).toList.take 40)

def joinPublishedPath (path : SafeRelativePath) (finalName : String) : String :=
  "/".intercalate (path.parentComponents ++ [finalName])

/-! ## Errors and durability -/

def destinationIo (operation : String) (error : IoError) : JobError :=
  .destinationIo operation error.kind error.message

def hardLinkError (error : IoError) : JobError := .hardLinkPublication error.kind error.message

def JobError.isCancelled : JobError → Bool
  | .content (.cancelled _) => true
  | _ => false

def errorKind : JobError → String
  | .content (.cancelled _) => "cancelled"
  | .content (.hashMismatch _ _) => "hashMismatch"
  | .collisionLimitExceeded _ => "collisionLimit"
  | .hardLinkPublication _ _ => "hardLinkPublication"
  | .temporaryIdentityChanged => "temporaryIdentityChanged"
  | .needsReconciliation _ => "needsReconciliation"
  | .journalIo _ _ _ | .journalPoisoned => "journalDurability"
  | _ => "restoreFailure"

def mergeDurability (first second : NamespaceDurability) : NamespaceDurability :=
  match first, second with
  | .failed _ _, _ => first
  | _, .failed _ _ => second
  | .unconfirmed _, _ => first
  | _, .unconfirmed _ => second
  | .unsupported _ _, _ => first
  | _, .unsupported _ _ => second
  | .synced, .synced => .synced

def durabilityStatus (durability : NamespaceDurability) : RestoreCompletionStatus :=
  if durability.isSynced then .completedDurable else .needsReconciliation

def JobEnv.publicationReconciliationError (env : JobEnv σ Value) (boundary publishedName : String)
    (error : JobError) : JobError :=
  .needsReconciliation (boundary ++ " " ++ env.debugStr publishedName ++
    " was linked before its durable journal boundary failed: " ++ env.display error)

/-- `map_err` with `destination_io` on the answer of a call. -/
def orIo (operation : String) (answer : Except IoError α) : JobM σ Value α :=
  ofExcept (answer.mapError (destinationIo operation))

/-! ## The destination root -/

structure DestinationRoot where
  dir : Dir
  baselineIdentity : FileIdentity

def JobEnv.fromRetainedFile (env : JobEnv σ Value) (dir : Dir) : JobM σ Value DestinationRoot := do
  let metadata ← orIo "query retained root metadata" (← env.call (.dirMetadata dir))
  if !metadata.isDir then
    throw .destinationRootNotDirectory
  return { dir, baselineIdentity := metadata.identity }

def JobEnv.revalidate (env : JobEnv σ Value) (root : DestinationRoot) : JobM σ Value Unit := do
  let metadata ← orIo "revalidate retained root metadata" (← env.call (.dirMetadata root.dir))
  if !metadata.isDir ∨ metadata.identity ≠ root.baselineIdentity then
    throw .destinationRootIdentityChanged

/-! ## Prepared files -/

structure PreparedFile where
  name : String
  file : File
  identity : FileIdentity
  outcome : StreamOutcome

def JobEnv.createNewProtected (env : JobEnv σ Value) (parent : Dir) (name : String) :
    JobM σ Value File := do
  let file ← orIo "create no-follow file" (← env.call (.createNew parent name))
  let metadata ← orIo "query created no-follow file" (← env.call (.fileMetadata file))
  if !metadata.isFile then
    throw .temporaryNotRegularFile
  return file

def JobEnv.createUniqueTempFrom (env : JobEnv σ Value) (parent : Dir) (candidateId : Nat)
    (label : String) : Nat → Nat → JobM σ Value (String × File)
  | 0, _ => throw (.collisionLimitExceeded maxTempCreateAttempts)
  | remaining + 1, attemptIndex => do
    let name := temporaryName candidateId label attemptIndex
    match ← attempt (env.createNewProtected parent name) with
    | .ok file => return (name, file)
    | .error (.destinationIo _ .alreadyExists _) =>
      env.createUniqueTempFrom parent candidateId label remaining (attemptIndex + 1)
    | .error error => throw error

def JobEnv.createUniqueTemp (env : JobEnv σ Value) (parent : Dir) (candidateId : Nat)
    (label : String) : JobM σ Value (String × File) :=
  env.createUniqueTempFrom parent candidateId label maxTempCreateAttempts 0

def JobEnv.prepareStream (env : JobEnv σ Value) (parent : Dir) (content : ContentPlan) :
    JobM σ Value PreparedFile := do
  let (name, file) ← env.createUniqueTemp parent content.candidateId "data"
  let metadata ← orIo "query temporary file" (← env.call (.fileMetadata file))
  let outcome ← env.streamCandidate file content
  orIo "flush temporary file" (← env.call (.flush file))
  orIo "sync temporary file" (← env.call (.syncAll file))
  let actual ← orIo "verify temporary file" (← env.call (.fileMetadata file))
  if actual.len ≠ outcome.bytesWritten then
    throw (.temporaryLengthMismatch outcome.bytesWritten actual.len)
  return { name, file, identity := metadata.identity, outcome }

def JobEnv.prepareBytes (env : JobEnv σ Value) (parent : Dir) (label : String) (bytes : Bytes)
    (sha256 : Digest) : JobM σ Value PreparedFile := do
  let candidateId := Bytes.leValue (sha256.toList.take 8)
  let (name, file) ← env.createUniqueTemp parent candidateId label
  let metadata ← orIo "query transactional side file" (← env.call (.fileMetadata file))
  orIo "write transactional side file" (← env.call (.writeAll file bytes))
  orIo "flush transactional side file" (← env.call (.flush file))
  orIo "sync transactional side file" (← env.call (.syncAll file))
  let actual ← orIo "verify transactional side file" (← env.call (.fileMetadata file))
  if actual.len ≠ bytes.length then
    throw (.temporaryLengthMismatch bytes.length actual.len)
  return {
    name, file
    identity := metadata.identity
    outcome := {
      bytesWritten := bytes.length
      sha256
      zeroFilledRanges := []
      requiresBestEffort := false } }

def JobEnv.verifyPrelinkIdentity (env : JobEnv σ Value) (parent : Dir) (prepared : PreparedFile) :
    JobM σ Value Unit := do
  let handle ← orIo "query retained temporary handle" (← env.call (.fileMetadata prepared.file))
  if !handle.isFile ∨ handle.identity ≠ prepared.identity ∨
      handle.len ≠ prepared.outcome.bytesWritten then
    throw .temporaryIdentityChanged
  let lookup ← orIo "rebind temporary name" (← env.call (.openRead parent prepared.name))
  let metadata ← orIo "query rebound temporary name" (← env.call (.fileMetadata lookup))
  if !metadata.isFile ∨ metadata.identity ≠ prepared.identity then
    throw .temporaryIdentityChanged

/-! ## Parent directories -/

def JobEnv.parentTransition (env : JobEnv σ Value) (componentIndex : Nat) (component : String)
    (transition : ParentTransition) : JobM σ Value Unit := do
  ofExcept (← env.call (.parentTransition componentIndex component transition))

/-- One turn of the loop of `open_or_create_parents`. -/
def JobEnv.openOrCreateParent (env : JobEnv σ Value) (current : Dir) (componentIndex : Nat)
    (component : String) : JobM σ Value Dir := do
  match ← env.call (.openDirNofollow current component) with
  | .ok next =>
    env.parentTransition componentIndex component .bound
    return next
  | .error error =>
    if error.kind ≠ .notFound then
      throw (destinationIo "open sanitized destination directory without following" error)
    match ← env.call (.createDir current component .parent) with
    | .ok () => env.parentTransition componentIndex component .createdBeforeBind
    | .error createError =>
      if createError.kind ≠ .alreadyExists then
        throw (destinationIo "create sanitized destination directory" createError)
    let next ← orIo "bind sanitized destination directory"
      (← env.call (.openDirNofollow current component))
    env.parentTransition componentIndex component .bound
    return next

def JobEnv.openOrCreateParentsFrom (env : JobEnv σ Value) :
    List String → Nat → Dir → JobM σ Value Dir
  | [], _, current => return current
  | component :: components, componentIndex, current => do
    let next ← env.openOrCreateParent current componentIndex component
    env.openOrCreateParentsFrom components (componentIndex + 1) next

def JobEnv.openOrCreateParents (env : JobEnv σ Value) (jobDir : Dir) (path : SafeRelativePath) :
    JobM σ Value Dir := do
  let current ← orIo "clone job directory capability" (← env.call (.tryClone jobDir))
  env.openOrCreateParentsFrom path.parentComponents 0 current

/-! ## Items -/

structure ItemRestoreFailure (Value : Type) where
  error : JobError
  publishedSidecar : Option PublishedSidecarEvidence
  published : Option (RestoreItemResult Value)

namespace ItemRestoreFailure

def withSidecar (error : JobError) (publishedSidecar : Option PublishedSidecarEvidence) :
    ItemRestoreFailure Value :=
  { error, publishedSidecar, published := none }

def withPublication (error : JobError) (published : RestoreItemResult Value) :
    ItemRestoreFailure Value :=
  { error, publishedSidecar := none, published := some published }

/-- `From<RestoreError>` -/
def ofError (error : JobError) : ItemRestoreFailure Value :=
  { error, publishedSidecar := none, published := none }

end ItemRestoreFailure

abbrev ItemM (σ Value : Type) : Type → Type :=
  EStateM (ItemRestoreFailure Value) (JobState σ Value)

/-- `?` in a function that fails with an `ItemRestoreFailure`. -/
def liftItem (x : JobM σ Value α) : ItemM σ Value α :=
  EStateM.adaptExcept ItemRestoreFailure.ofError x

def JobEnv.parseEvidence (env : JobEnv σ Value) (plan : FileRestorePlan) : Except JobError Value :=
  (env.json.valueFromStr plan.pathEvidenceJson).mapError .manifestSerialization

/-! ### Files -/

def JobEnv.buildPartialSidecar (env : JobEnv σ Value) (itemKey : String) (content : ContentPlan)
    (outcome : StreamOutcome) (warnings : List String) : Except JobError (Option Bytes) :=
  match partialSidecar itemKey content.candidateId content.logicalSize outcome
      content.expectedSha256 warnings with
  | none => .ok none
  | some sidecar =>
    (env.json.sidecarToVec sidecar).map some |>.mapError .manifestSerialization

def JobEnv.prepareSidecar (env : JobEnv σ Value) (parent : Dir) (bytes : Option Bytes) :
    JobM σ Value (Option PreparedFile) := do
  match bytes with
  | some bytes =>
    let sidecar ← env.prepareBytes parent "partial" bytes (env.sha256 bytes)
    return some sidecar
  | none => return none

/-- The collision loop of the sidecar. -/
def JobEnv.linkSidecarFrom (env : JobEnv σ Value) (parent : Dir) (content : ContentPlan)
    (itemKey : String) (sidecar : PreparedFile) :
    Nat → Nat → ItemM σ Value (PublishedSidecarEvidence × NamespaceDurability)
  | 0, _ => throw (.ofError (.collisionLimitExceeded maxCollisionAttempts))
  | remaining + 1, collisionIndex => do
    let sidecarName := collisionName env.sha256 (partialSidecarBaseName itemKey) collisionIndex
    liftItem (env.verifyPrelinkIdentity parent sidecar)
    match ← env.call (.hardLink parent sidecar.name sidecarName .partialSidecar) with
    | .ok () =>
      let durability := mergeDurability .synced (← env.call (.syncParent parent .sidecar))
      let evidence : PublishedSidecarEvidence :=
        { itemKey, name := sidecarName, sha256 := sidecar.outcome.sha256 }
      -- the name is visible from here on, so a journal failure keeps the evidence
      match ← attempt (env.append "itemSidecarPublished" (.itemSidecarPublished
          { candidateId := content.candidateId
            itemKey
            name := evidence.name
            sha256 := hexDigest evidence.sha256
            namespaceDurability := durability })) with
      | .error error =>
        throw (.withSidecar (env.publicationReconciliationError "sidecar" evidence.name error)
          (some evidence))
      | .ok () => return (evidence, durability)
    | .error error =>
      -- only a taken name tries the next collision index
      if error.kind = .alreadyExists then
        env.linkSidecarFrom parent content itemKey sidecar remaining (collisionIndex + 1)
      else throw (.ofError (hardLinkError error))

/-- `Some` sidecar is linked before any attempt on the data name. -/
def JobEnv.publishSidecar (env : JobEnv σ Value) (parent : Dir) (content : ContentPlan)
    (itemKey : String) (sidecar : Option PreparedFile) :
    ItemM σ Value (Option PublishedSidecarEvidence × NamespaceDurability) := do
  match sidecar with
  | some sidecar =>
    let (evidence, durability) ←
      env.linkSidecarFrom parent content itemKey sidecar maxCollisionAttempts 0
    return (some evidence, durability)
  | none => return (none, .synced)

/-- What `restore_file_item` does behind the link of the data name. -/
def JobEnv.recordPublished (env : JobEnv σ Value) (parent : Dir) (plan : FileRestorePlan)
    (content : ContentPlan) (itemKey : String) (temporary : PreparedFile)
    (publishedSidecar : Option PublishedSidecarEvidence) (sidecarDurability : NamespaceDurability)
    (finalName : String) : ItemM σ Value (RestoreItemResult Value) := do
  let durability := mergeDurability sidecarDurability (← env.call (.syncParent parent .data))
  let completionStatus := durabilityStatus durability
  let publishedPath := joinPublishedPath plan.path finalName
  -- the file is visible already, so the failure asks for reconciliation
  if let .error error ← attempt (env.append "itemPublished" (.itemPublished
      { candidateId := content.candidateId
        itemKey
        itemKind := "file"
        publishedPath
        sidecarName := publishedSidecar.map (·.name)
        noFollowBindCompleted := none
        directoryValidation := none
        namespaceDurability := durability
        completionStatus })) then
    throw (.withSidecar (env.publicationReconciliationError "item" publishedPath error)
      publishedSidecar)
  -- the temporary link is never removed, only labelled
  let temporaryDisposition : TemporaryFileDisposition :=
    if durability.isSynced then .retainedBySafeCleanupPolicy else .retainedForReconciliation
  let pathEvidence ← liftItem (ofExcept (env.parseEvidence plan))
  return {
    candidateId := content.candidateId
    itemKey
    requestedPath := plan.path.toSlashString
    publishedPath
    publishedName := finalName
    outputLen := some temporary.outcome.bytesWritten
    outputSha256 := some temporary.outcome.sha256
    expectedSha256 := content.expectedSha256
    zeroFilledRanges := temporary.outcome.zeroFilledRanges
    sidecarName := publishedSidecar.map (·.name)
    sidecarSha256 := publishedSidecar.map (·.sha256)
    temporaryDisposition := some temporaryDisposition
    pathEvidence
    warnings := plan.warnings
    namespaceDurability := durability
    completionStatus
    directoryNoFollowBindCompleted := none
    directoryValidation := none }

/-- The collision loop of the data name. -/
def JobEnv.linkDataFrom (env : JobEnv σ Value) (parent : Dir) (plan : FileRestorePlan)
    (content : ContentPlan) (itemKey : String) (temporary : PreparedFile)
    (publishedSidecar : Option PublishedSidecarEvidence) (sidecarDurability : NamespaceDurability) :
    Nat → Nat → ItemM σ Value (RestoreItemResult Value)
  | 0, _ => throw (.withSidecar (.collisionLimitExceeded maxCollisionAttempts) publishedSidecar)
  | remaining + 1, collisionIndex => do
    let finalName := collisionName env.sha256 plan.path.fileName collisionIndex
    EStateM.adaptExcept (ItemRestoreFailure.withSidecar · publishedSidecar)
      (env.verifyPrelinkIdentity parent temporary)
    match ← env.call (.hardLink parent temporary.name finalName .data) with
    | .ok () =>
      env.recordPublished parent plan content itemKey temporary publishedSidecar sidecarDurability
        finalName
    | .error error =>
      if error.kind = .alreadyExists then
        env.linkDataFrom parent plan content itemKey temporary publishedSidecar sidecarDurability
          remaining (collisionIndex + 1)
      else throw (.withSidecar (hardLinkError error) publishedSidecar)

/-- The part of `restore_file_item` up to its `itemPrepared` record. -/
def JobEnv.prepareFileItem (env : JobEnv σ Value) (jobDir : Dir) (plan : FileRestorePlan)
    (content : ContentPlan) (itemKey : String) :
    JobM σ Value (Dir × PreparedFile × Option PreparedFile) := do
  let parent ← env.openOrCreateParents jobDir plan.path
  let temporary ← env.prepareStream parent content
  let sidecarBytes ←
    ofExcept (env.buildPartialSidecar itemKey content temporary.outcome plan.warnings)
  let sidecarTemp ← env.prepareSidecar parent sidecarBytes
  env.append "itemPrepared" (.itemPrepared
    { candidateId := content.candidateId
      itemKey
      requestedPath := plan.path.toSlashString
      temporaryName := temporary.name
      outputLength := temporary.outcome.bytesWritten
      outputSha256 := hexDigest temporary.outcome.sha256
      expectedSha256 := content.expectedSha256.map hexDigest
      sidecarTemporaryName := sidecarTemp.map (·.name) })
  return (parent, temporary, sidecarTemp)

def JobEnv.restoreFileItem (env : JobEnv σ Value) (jobDir : Dir) (plan : FileRestorePlan)
    (content : ContentPlan) (itemKey : String) : ItemM σ Value (RestoreItemResult Value) := do
  let (parent, temporary, sidecarTemp) ←
    liftItem (env.prepareFileItem jobDir plan content itemKey)
  let (publishedSidecar, sidecarDurability) ←
    env.publishSidecar parent content itemKey sidecarTemp
  env.linkDataFrom parent plan content itemKey temporary publishedSidecar sidecarDurability
    maxCollisionAttempts 0

/-! ### Directories -/

structure DirectoryPublicationState where
  candidateId : Nat
  itemKey : String
  publishedPath : String
  publishedName : String
  noFollowBindCompleted : Bool
  validation : DirectoryValidation
  namespaceDurability : NamespaceDurability

namespace DirectoryPublicationState

def unconfirmed (candidateId : Nat) (itemKey publishedPath publishedName : String)
    (noFollowBindCompleted : Bool) (reason : String) : DirectoryPublicationState where
  candidateId
  itemKey
  publishedPath
  publishedName
  noFollowBindCompleted
  validation := .unconfirmed
  namespaceDurability := .unconfirmed reason

def intoResult (state : DirectoryPublicationState) (plan : FileRestorePlan) (pathEvidence : Value) :
    RestoreItemResult Value where
  candidateId := state.candidateId
  itemKey := state.itemKey
  requestedPath := plan.path.toSlashString
  publishedPath := state.publishedPath
  publishedName := state.publishedName
  outputLen := none
  outputSha256 := none
  expectedSha256 := none
  zeroFilledRanges := []
  sidecarName := none
  sidecarSha256 := none
  temporaryDisposition := none
  pathEvidence
  warnings := plan.warnings
  namespaceDurability := state.namespaceDurability
  completionStatus := durabilityStatus state.namespaceDurability
  directoryNoFollowBindCompleted := some state.noFollowBindCompleted
  directoryValidation := some state.validation

end DirectoryPublicationState

/-- `return Err(directory_reconciliation_failure(..))` -/
def JobEnv.directoryReconciliationFailure (env : JobEnv σ Value) (plan : FileRestorePlan)
    (pathEvidence : Value) (state : DirectoryPublicationState) (stage : String)
    (error : JobError) : ItemM σ Value α := do
  let result := state.intoResult plan pathEvidence
  match ← attempt (env.append "directoryReconciliationRequired" (.directoryReconciliationRequired
      { candidateId := state.candidateId
        itemKey := state.itemKey
        itemKind := "directory"
        publishedPath := state.publishedPath
        publishedName := state.publishedName
        stage
        noFollowBindCompleted := state.noFollowBindCompleted
        directoryValidation := state.validation
        namespaceDurability := state.namespaceDurability
        disposition := "directoryNeedsReconciliation"
        completionStatus := .needsReconciliation })) with
  | .error journalError =>
    -- the record itself could not be written
    throw (.withPublication (env.publicationReconciliationError "directory reconciliation record"
      state.publishedPath journalError) result)
  | .ok () =>
    throw (.withPublication
      (.needsReconciliation ("directory " ++ env.debugStr state.publishedPath ++
      " is visible after " ++ stage ++ " failed and requires reconciliation: " ++
      env.display error)) result)

def JobEnv.verifyDirectoryBinding (env : JobEnv σ Value) (parent : Dir) (name : String)
    (bound : Dir) : JobM σ Value Unit := do
  let boundMetadata ← orIo "query bound directory identity" (← env.call (.dirMetadata bound))
  let nameMetadata ← orIo "query visible directory identity"
    (← env.call (.symlinkMetadata parent name))
  if !boundMetadata.isDir ∨ !nameMetadata.isDir ∨
      boundMetadata.identity ≠ nameMetadata.identity then
    -- the kind is `ErrorKind::Other`
    throw (.destinationIo "validate selected destination directory identity" (.other 0)
      "bound capability and visible name do not identify one directory")

/-- What `restore_directory_item` does behind the `create_dir` of `final_name`. -/
def JobEnv.bindDirectory (env : JobEnv σ Value) (parent : Dir) (plan : FileRestorePlan)
    (candidateId : Nat) (itemKey : String) (pathEvidence : Value) (finalName : String) :
    ItemM σ Value (RestoreItemResult Value) := do
  let publishedPath := joinPublishedPath plan.path finalName
  -- the directory is visible, what is not known is whether it is ours
  let unconfirmed := DirectoryPublicationState.unconfirmed candidateId itemKey publishedPath
    finalName
  let finalComponentIndex := plan.path.components.length - 1
  if let .error error ←
      attempt (env.parentTransition finalComponentIndex finalName .createdBeforeBind) then
    env.directoryReconciliationFailure plan pathEvidence (unconfirmed false
      "no-follow bind was not attempted after the post-create transition failed")
      "createdBeforeBind" error
  match ← env.call (.openDirNofollow parent finalName) with
  | .error error =>
    env.directoryReconciliationFailure plan pathEvidence (unconfirmed false
      "the visible directory name could not be bound with no-follow semantics")
      "noFollowBind" (destinationIo "bind selected destination directory" error)
  | .ok bound =>
    if let .error error ← attempt (env.parentTransition finalComponentIndex finalName .bound) then
      env.directoryReconciliationFailure plan pathEvidence (unconfirmed true
        "the no-follow handle was bound but post-bind validation did not complete")
        "boundBeforeValidation" error
    if let .error error ← attempt (env.verifyDirectoryBinding parent finalName bound) then
      env.directoryReconciliationFailure plan pathEvidence (unconfirmed true
        "the no-follow handle and visible directory name did not retain one identity")
        "noFollowIdentityValidation" error
    -- bound without following links, and still the directory the name shows
    let durability ← env.call (.syncParent parent .data)
    let state : DirectoryPublicationState :=
      { candidateId, itemKey, publishedPath
        publishedName := finalName
        noFollowBindCompleted := true
        validation := .boundNoFollow
        namespaceDurability := durability }
    let result := state.intoResult plan pathEvidence
    if let .error error ← attempt (env.append "itemPublished" (.itemPublished
        { candidateId
          itemKey
          itemKind := "directory"
          publishedPath
          sidecarName := none
          noFollowBindCompleted := some true
          directoryValidation := some .boundNoFollow
          namespaceDurability := durability
          completionStatus := durabilityStatus durability })) then
      throw (.withPublication (env.publicationReconciliationError "directory item" publishedPath
        error) result)
    return result

/-- The collision loop of a directory. -/
def JobEnv.createDirectoryFrom (env : JobEnv σ Value) (parent : Dir) (plan : FileRestorePlan)
    (candidateId : Nat) (itemKey : String) (pathEvidence : Value) :
    Nat → Nat → ItemM σ Value (RestoreItemResult Value)
  | 0, _ => throw (.ofError (.collisionLimitExceeded maxCollisionAttempts))
  | remaining + 1, collisionIndex => do
    let finalName := collisionName env.sha256 plan.path.fileName collisionIndex
    -- the plan record is written ahead of each name that is tried
    liftItem (env.append "directoryPublicationPlanned" (.directoryPublicationPlanned
      { candidateId
        itemKey
        itemKind := "directory"
        publishedPath := joinPublishedPath plan.path finalName
        publishedName := finalName
        collisionIndex }))
    match ← env.call (.createDir parent finalName .item) with
    | .ok () => env.bindDirectory parent plan candidateId itemKey pathEvidence finalName
    | .error error =>
      if error.kind = .alreadyExists then
        env.createDirectoryFrom parent plan candidateId itemKey pathEvidence remaining
          (collisionIndex + 1)
      else
        throw (.ofError (destinationIo "create selected destination directory" error))

def JobEnv.restoreDirectoryItem (env : JobEnv σ Value) (jobDir : Dir) (plan : FileRestorePlan)
    (candidateId : Nat) (itemKey : String) : ItemM σ Value (RestoreItemResult Value) := do
  let parent ← liftItem (env.openOrCreateParents jobDir plan.path)
  let pathEvidence ← liftItem (ofExcept (env.parseEvidence plan))
  liftItem (env.append "itemPrepared" (.directoryPrepared
    { candidateId
      itemKey
      requestedPath := plan.path.toSlashString
      itemKind := "directory" }))
  env.createDirectoryFrom parent plan candidateId itemKey pathEvidence maxCollisionAttempts 0

def JobEnv.restoreItem (env : JobEnv σ Value) (jobDir : Dir) (plan : FileRestorePlan)
    (itemIndex : Nat) : ItemM σ Value (RestoreItemResult Value) :=
  let itemKey := restoreItemKey itemIndex plan.candidateId
  match plan.item with
  | .file content => env.restoreFileItem jobDir plan content itemKey
  | .directory candidateId => env.restoreDirectoryItem jobDir plan candidateId itemKey

/-! ## The manifest of a job -/

inductive JobTerminal where
  | completed
  | failed (errorKind : String)
  | cancelled
deriving DecidableEq, Repr

structure TerminalItemOutcome (Value : Type) where
  index : Nat
  disposition : ManifestItemDisposition
  failureKind : String
  publishedSidecar : Option PublishedSidecarEvidence
  published : Option (RestoreItemResult Value)

/-- The outcome of an item whose result is `result`. -/
def publishedOutcome (item : FileRestorePlan) (result : RestoreItemResult Value) :
    ManifestItemDisposition × Option String :=
  match item.item with
  | .file _ => (.published, none)
  | .directory _ =>
    if result.completionStatus = .needsReconciliation then
      (.directoryNeedsReconciliation, some "needsReconciliation")
    else (.directoryCreated, none)

/-- The sidecar a result names. -/
def RestoreItemResult.sidecarEvidence (result : RestoreItemResult Value) :
    Option PublishedSidecarEvidence :=
  match result.sidecarName, result.sidecarSha256 with
  | some name, some sha256 => some { itemKey := result.itemKey, name, sha256 }
  | _, _ => none

/-- One turn of the loop of `build_manifest_outcomes`. -/
def JobEnv.manifestOutcome (env : JobEnv σ Value) (published : List (RestoreItemResult Value))
    (terminalItem : Option (TerminalItemOutcome Value)) (entry : FileRestorePlan × Nat) :
    Except JobError (ManifestItemOutcome Value) := do
  let (item, index) := entry
  let parsedEvidence ← env.parseEvidence item
  let (disposition, failureKind, publishedResult, warnings, pathEvidence, terminalSidecar) ←
    match published[index]? with
    -- finished items come first in the plan
    | some result =>
      let (disposition, failureKind) := publishedOutcome item result
      pure (disposition, failureKind, some result, result.warnings, result.pathEvidence, none)
    | none =>
      match terminalItem with
      | some terminal =>
        -- the item the job ended in, possibly with a visible name
        if index = terminal.index then
          pure (terminal.disposition, some terminal.failureKind, terminal.published,
            (terminal.published.map (·.warnings)).getD item.warnings,
            (terminal.published.map (·.pathEvidence)).getD parsedEvidence,
            terminal.publishedSidecar)
        else
          -- items behind it were never started
          pure (.notAttempted, none, none, item.warnings, parsedEvidence, none)
      | none =>
        throw (.manifestSerialization "successful outcomes do not match immutable plan items")
  return {
    candidateId := item.candidateId
    itemKey := restoreItemKey index item.candidateId
    itemKind := item.itemKind
    disposition
    requestedPath := item.path.toSlashString
    expectedSha256 := item.expectedSha256
    warnings
    pathEvidence
    failureKind
    publishedSidecar :=
      match publishedResult with
      | some result => result.sidecarEvidence
      | none => terminalSidecar
    published := publishedResult }

def JobEnv.buildManifestOutcomes (env : JobEnv σ Value) (plan : RestoreJobPlan)
    (published : List (RestoreItemResult Value))
    (terminalItem : Option (TerminalItemOutcome Value)) :
    Except JobError (List (ManifestItemOutcome Value)) := do
  if published.length > plan.items.length then
    throw (.manifestSerialization "published outcomes exceed immutable plan items")
  plan.items.zipIdx.mapM (env.manifestOutcome published terminalItem)

def JobEnv.recordItemFailure (env : JobEnv σ Value) (candidateId : Nat) (error : JobError) :
    JobM σ Value Unit :=
  env.append (if error.isCancelled then "itemCancelled" else "itemFailed")
    (.failure { candidateId := some candidateId, errorKind := errorKind error })

def JobEnv.recordJobFailure (env : JobEnv σ Value) (error : JobError) : JobM σ Value Unit :=
  env.append "jobFailed" (.failure { candidateId := none, errorKind := errorKind error })

/-- The terminal record of a job. -/
def JobEnv.appendTerminal (env : JobEnv σ Value) (itemCount : Nat)
    (overallStatus : RestoreCompletionStatus) (terminal : JobTerminal) : JobM σ Value Unit :=
  match terminal with
  | .completed =>
    env.append "jobCompleted" (.jobCompleted { itemCount, completionStatus := overallStatus })
  | .failed errorKind => env.append "jobFailed" (.failure { candidateId := none, errorKind })
  | .cancelled =>
    env.append "jobCancelled" (.failure { candidateId := none, errorKind := "cancelled" })

/-- The bytes of `build_manifest` and their hash. -/
def JobEnv.buildManifest (env : JobEnv σ Value) (manifest : RecoveryManifest Value) :
    JobM σ Value (Bytes × Digest) := fun st =>
  let st := { st with trace := st.trace ++ [.manifest manifest] }
  match env.json.manifestToVec manifest with
  | .ok bytes => .ok (bytes, env.sha256 bytes) st
  | .error message => .error (.manifestSerialization message) st

/-- What `publish_final_manifest` does behind the link of the manifest. -/
def JobEnv.recordManifest (env : JobEnv σ Value) (jobDir : Dir) (jobDirectoryName : String)
    (outcomes : List (ManifestItemOutcome Value)) (terminal : JobTerminal)
    (manifestSha256 : Digest) : JobM σ Value (RestoreSummary Value) := do
  let manifestSync ← env.call (.syncParent jobDir .manifest)
  let manifestStatus := durabilityStatus manifestSync
  -- the manifest is linked already
  if let .error error ← attempt (env.append "manifestPublished" (.manifestPublished
      { name := manifestName
        namespaceDurability := manifestSync
        completionStatus := manifestStatus })) then
    throw (env.publicationReconciliationError "manifest" manifestName error)
  let publishedItems := outcomes.filterMap (·.published)
  -- one item in need of reconciliation is enough
  let overallStatus : RestoreCompletionStatus :=
    if manifestStatus = .needsReconciliation ∨
        publishedItems.any (·.completionStatus = .needsReconciliation) then
      .needsReconciliation
    else .completedDurable
  if let .error error ← attempt (env.appendTerminal outcomes.length overallStatus terminal) then
    throw (env.publicationReconciliationError "job terminal record" manifestName error)
  return {
    jobDirectoryName
    manifestName
    journalName
    manifestSha256
    items := publishedItems
    completionStatus := overallStatus }

def JobEnv.publishFinalManifest (env : JobEnv σ Value) (jobDir : Dir) (jobDirectoryName : String)
    (plan : RestoreJobPlan) (outcomes : List (ManifestItemOutcome Value)) (terminal : JobTerminal) :
    JobM σ Value (RestoreSummary Value) := do
  -- the manifest commits to the journal as it stands before it
  let outcomesPrefixSha256 := (← get).journal.previousHash
  let (manifestBytes, manifestSha256) ←
    env.buildManifest (recoveryManifest plan.jobId outcomesPrefixSha256 outcomes)
  let manifestTemp ← env.prepareBytes jobDir "manifest" manifestBytes manifestSha256
  env.append "manifestPrepared" (.manifestPrepared
    { name := manifestName
      length := manifestBytes.length
      sha256 := hexDigest manifestSha256
      outcomesPrefixSha256
      temporaryName := manifestTemp.name })
  env.verifyPrelinkIdentity jobDir manifestTemp
  if let .error error ← env.call (.hardLink jobDir manifestTemp.name manifestName .manifest) then
    let error := hardLinkError error
    if let .error journalError ← attempt (env.recordJobFailure error) then
      throw (env.publicationReconciliationError "manifest failure record" manifestName journalError)
    throw error
  env.recordManifest jobDir jobDirectoryName outcomes terminal manifestSha256

/-! ## The job -/

def JobEnv.observe (env : JobEnv σ Value) (event : RestoreJobEvent) : JobM σ Value Unit :=
  env.call (.observe event)

def JobEnv.observeFinished (env : JobEnv σ Value) (item : FileRestorePlan) (itemIndex : Nat)
    (outcome : RestoreItemOutcome) : JobM σ Value Unit :=
  env.observe (.itemFinished itemIndex item.candidateId item.observerKind outcome)

/-- The manifest of a job that ends at an item, and the error the job returns. -/
def JobEnv.publishTerminal (env : JobEnv σ Value) (jobDir : Dir) (jobDirectoryName : String)
    (plan : RestoreJobPlan) (results : List (RestoreItemResult Value))
    (terminalItem : TerminalItemOutcome Value) (terminal : JobTerminal) (error : JobError) :
    JobM σ Value α := do
  let outcomes ← ofExcept (env.buildManifestOutcomes plan results (some terminalItem))
  let summary ← env.publishFinalManifest jobDir jobDirectoryName plan outcomes terminal
  env.call (.manifestPublished summary)
  throw error

/-- The exit of the item loop at an item that is cancelled before it begins. -/
def JobEnv.cancelItem (env : JobEnv σ Value) (jobDir : Dir) (jobDirectoryName : String)
    (plan : RestoreJobPlan) (item : FileRestorePlan) (itemIndex : Nat)
    (results : List (RestoreItemResult Value)) : JobM σ Value α := do
  let error : JobError := .content (.cancelled 0)
  env.observeFinished item itemIndex .cancelled
  env.recordItemFailure item.candidateId error
  env.publishTerminal jobDir jobDirectoryName plan results
    { index := itemIndex
      disposition := .cancelled
      failureKind := "cancelled"
      publishedSidecar := none
      published := none }
    .cancelled error

/-- The outcomes an observer and the manifest see for an item that failed. -/
def failedItemOutcome (item : FileRestorePlan) (failure : ItemRestoreFailure Value) :
    RestoreItemOutcome × ManifestItemDisposition :=
  if failure.published.isSome && item.observerKind = .directory then
    (.directoryNeedsReconciliation, .directoryNeedsReconciliation)
  else if failure.error.isCancelled then (.cancelled, .cancelled)
  else (.failed, .failed)

/-- The exit of the item loop at an item that failed. -/
def JobEnv.failItem (env : JobEnv σ Value) (jobDir : Dir) (jobDirectoryName : String)
    (plan : RestoreJobPlan) (item : FileRestorePlan) (itemIndex : Nat)
    (results : List (RestoreItemResult Value)) (failure : ItemRestoreFailure Value) :
    JobM σ Value α := do
  if (← get).journal.poisoned then
    throw failure.error
  let (observerOutcome, disposition) := failedItemOutcome item failure
  env.observeFinished item itemIndex observerOutcome
  if failure.published.isNone then
    env.recordItemFailure item.candidateId failure.error
  env.publishTerminal jobDir jobDirectoryName plan results
    { index := itemIndex
      disposition
      failureKind := errorKind failure.error
      publishedSidecar := failure.publishedSidecar
      published := failure.published }
    (if failure.error.isCancelled then .cancelled else .failed (errorKind failure.error))
    failure.error

/-- The outcome an observer sees for an item that has a result. -/
def finishedOutcome (item : FileRestorePlan) (result : RestoreItemResult Value) :
    RestoreItemOutcome :=
  match item.observerKind with
  | .file => .published
  | .directory =>
    if result.completionStatus = .completedDurable then .directoryCreated
    else .directoryNeedsReconciliation

/-- The item loop, at the item `itemIndex`; returns the results of all items. -/
def JobEnv.restoreItemsFrom (env : JobEnv σ Value) (jobDir : Dir) (jobDirectoryName : String)
    (plan : RestoreJobPlan) :
    List FileRestorePlan → Nat → List (RestoreItemResult Value) →
      JobM σ Value (List (RestoreItemResult Value))
  | [], _, results => return results
  | item :: items, itemIndex, results => do
    env.observe (.itemStarted itemIndex item.candidateId item.observerKind item.logicalSize)
    if ← env.call .isCancelled then
      env.cancelItem jobDir jobDirectoryName plan item itemIndex results
    match ← attempt (env.restoreItem jobDir item itemIndex) with
    | .ok result =>
      env.observeFinished item itemIndex (finishedOutcome item result)
      env.restoreItemsFrom jobDir jobDirectoryName plan items (itemIndex + 1) (results ++ [result])
    | .error failure =>
      env.failItem jobDir jobDirectoryName plan item itemIndex results failure

/-- The job directory and its journal, up to the record `jobStarted`. -/
def JobEnv.startJob (env : JobEnv σ Value) (root : DestinationRoot) (plan : RestoreJobPlan) :
    JobM σ Value Dir := do
  env.revalidate root
  let jobDirectoryName := jobDirectoryComponent env.sha256 plan.jobId
  orIo "create unique job directory" (← env.call (.createDir root.dir jobDirectoryName .job))
  let jobDir ← orIo "bind unique job directory"
    (← env.call (.openDirNofollow root.dir jobDirectoryName))
  let _ ← env.createNewProtected jobDir journalName
  modify fun st => { st with
    journal := JobJournal.withSink (env.sha256 (Bytes.ofString plan.jobId)) }
  env.append "jobStarted" (.jobStarted
    { itemCount := plan.items.length, rootIdentityRevalidated := true })
  return jobDir

/-- `DestinationRoot::restore_job_observed_with_runtime` -/
def JobEnv.restoreJob (env : JobEnv σ Value) (root : DestinationRoot) (plan : RestoreJobPlan) :
    JobM σ Value (RestoreSummary Value) := do
  let jobDir ← env.startJob root plan
  let jobDirectoryName := jobDirectoryComponent env.sha256 plan.jobId
  let results ← env.restoreItemsFrom jobDir jobDirectoryName plan plan.items 0 []
  let outcomes ← ofExcept (env.buildManifestOutcomes plan results none)
  let summary ← env.publishFinalManifest jobDir jobDirectoryName plan outcomes .completed
  env.call (.manifestPublished summary)
  return summary

/-- The state a job starts in. -/
def JobState.start (s : σ) : JobState σ Value where
  env := s
  journal := JobJournal.withSink (Vector.replicate 32 0)
  trace := []

end Undelete.Restore
