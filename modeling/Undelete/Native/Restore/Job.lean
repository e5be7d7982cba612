import Undelete.ForStd.Wp
import Undelete.Native.Restore.Path
import Undelete.Native.Restore.Manifest

/-!
# Restore jobs and what they call

The data of `crates/restore/src/transaction.rs`: the plan of a job, the payloads of its journal
records, and the calls a run makes. The destination, the source, the cancellation probe, the
observer and the `TransactionRuntime` are one environment that answers every call from its own
state; `serde_json`, SHA-256 and the formatting of error texts are parameters.

A run keeps a trace of what it did. The trace is no part of the source: no function reads it.
-/

namespace Undelete.Restore

def restoreScratchBytes : Nat := 1024 * 1024
def maxCollisionAttempts : Nat := 10000
def maxRestoreJobItems : Nat := 110000
def maxRestorePathComponentsPerJob : Nat := 1000000
def maxPathEvidenceBytesPerJob : Nat := 8 * 1024 * 1024
def maxJobIdChars : Nat := 128
def maxTempCreateAttempts : Nat := 10000
def journalName : String := "recovery-journal.jsonl"

/-! ## Plans -/

inductive RestorePlanItem where
  | file (content : ContentPlan)
  | directory (candidateId : Nat)
deriving DecidableEq

inductive RestoreItemKind where
  | file | directory
deriving DecidableEq, Repr

structure FileRestorePlan where
  path : SafeRelativePath
  pathEvidenceJson : String
  item : RestorePlanItem
  warnings : List String
deriving DecidableEq

namespace FileRestorePlan

def file (path : DerivedSafePath) (content : ContentPlan) : FileRestorePlan where
  path := path.path
  pathEvidenceJson := path.evidenceJson
  item := .file content
  warnings := []

def directory (candidateId : Nat) (path : DerivedSafePath) : FileRestorePlan where
  path := path.path
  pathEvidenceJson := path.evidenceJson
  item := .directory candidateId
  warnings := []

def withWarnings (plan : FileRestorePlan) (warnings : List String) :
    Except JobError FileRestorePlan :=
  if warnings.length > 1024 ∨ warnings.any (·.length > 4096) then
    .error (.manifestSerialization "item warning evidence exceeds its bound")
  else .ok { plan with warnings }

def candidateId (plan : FileRestorePlan) : Nat :=
  match plan.item with
  | .file content => content.candidateId
  | .directory candidateId => candidateId

def expectedSha256 (plan : FileRestorePlan) : Option Digest :=
  match plan.item with
  | .file content => content.expectedSha256
  | .directory _ => none

def itemKind (plan : FileRestorePlan) : String :=
  match plan.item with
  | .file _ => "file"
  | .directory _ => "directory"

def observerKind (plan : FileRestorePlan) : RestoreItemKind :=
  match plan.item with
  | .file _ => .file
  | .directory _ => .directory

def logicalSize (plan : FileRestorePlan) : Nat :=
  match plan.item with
  | .file content => content.logicalSize
  | .directory _ => 0

end FileRestorePlan

def checkedJobBudgetTotalFrom (maximum : Nat) : List Nat → Nat → Except Nat Nat
  | [], total => .ok total
  | value :: values, total => do
    let total ← okOr (U64.checkedAdd total value) (2 ^ 64 - 1)
    if total > maximum then
      throw total
    checkedJobBudgetTotalFrom maximum values total

def checkedJobBudgetTotal (values : List Nat) (maximum : Nat) : Except Nat Nat :=
  checkedJobBudgetTotalFrom maximum values 0

/-- The checks of `RestoreJobPlan::new`. -/
def checkJobPlan (jobId : String) (items : List FileRestorePlan) : Except JobError Unit := do
  if jobId.length = 0 ∨ jobId.length > maxJobIdChars ∨ jobId.toList.any isControl then
    throw (.invalidJobId maxJobIdChars)
  if items.isEmpty ∨ items.length > maxRestoreJobItems then
    throw (.invalidJobItemCount items.length maxRestoreJobItems)
  let _ ← (checkedJobBudgetTotal (items.map (·.path.components.length))
    maxRestorePathComponentsPerJob).mapError fun actual =>
      JobError.jobPathComponentLimit actual maxRestorePathComponentsPerJob
  let _ ← (checkedJobBudgetTotal (items.map (·.pathEvidenceJson.utf8ByteSize))
    maxPathEvidenceBytesPerJob).mapError fun actual =>
      JobError.jobPathEvidenceLimit actual maxPathEvidenceBytesPerJob

structure RestoreJobPlan where
  jobId : String
  items : List FileRestorePlan
  accepted : checkJobPlan jobId items = .ok ()

/-! ## Journal payloads -/

structure JobStarted where
  itemCount : Nat
  rootIdentityRevalidated : Bool
deriving DecidableEq, Repr

structure ItemPrepared where
  candidateId : Nat
  itemKey : String
  requestedPath : String
  temporaryName : String
  outputLength : Nat
  outputSha256 : String
  expectedSha256 : Option String
  sidecarTemporaryName : Option String
deriving DecidableEq, Repr

structure DirectoryPrepared where
  candidateId : Nat
  itemKey : String
  requestedPath : String
  itemKind : String
deriving DecidableEq, Repr

structure DirectoryPublicationPlanned where
  candidateId : Nat
  itemKey : String
  itemKind : String
  publishedPath : String
  publishedName : String
  collisionIndex : Nat
deriving DecidableEq, Repr

structure DirectoryReconciliationRequired where
  candidateId : Nat
  itemKey : String
  itemKind : String
  publishedPath : String
  publishedName : String
  stage : String
  noFollowBindCompleted : Bool
  directoryValidation : DirectoryValidation
  namespaceDurability : NamespaceDurability
  disposition : String
  completionStatus : RestoreCompletionStatus
deriving DecidableEq, Repr

structure ItemSidecarPublished where
  candidateId : Nat
  itemKey : String
  name : String
  sha256 : String
  namespaceDurability : NamespaceDurability
deriving DecidableEq, Repr

structure ItemPublished where
  candidateId : Nat
  itemKey : String
  itemKind : String
  publishedPath : String
  sidecarName : Option String
  noFollowBindCompleted : Option Bool
  directoryValidation : Option DirectoryValidation
  namespaceDurability : NamespaceDurability
  completionStatus : RestoreCompletionStatus
deriving DecidableEq, Repr

structure ManifestPrepared where
  name : String
  length : Nat
  sha256 : String
  outcomesPrefixSha256 : String
  temporaryName : String
deriving DecidableEq, Repr

structure ManifestPublished where
  name : String
  namespaceDurability : NamespaceDurability
  completionStatus : RestoreCompletionStatus
deriving DecidableEq, Repr

structure JobCompleted where
  itemCount : Nat
  completionStatus : RestoreCompletionStatus
deriving DecidableEq, Repr

structure FailureRecord where
  candidateId : Option Nat
  errorKind : String
deriving DecidableEq, Repr

inductive JournalPayload where
  | jobStarted (record : JobStarted)
  | itemPrepared (record : ItemPrepared)
  | directoryPrepared (record : DirectoryPrepared)
  | directoryPublicationPlanned (record : DirectoryPublicationPlanned)
  | directoryReconciliationRequired (record : DirectoryReconciliationRequired)
  | itemSidecarPublished (record : ItemSidecarPublished)
  | itemPublished (record : ItemPublished)
  | manifestPrepared (record : ManifestPrepared)
  | manifestPublished (record : ManifestPublished)
  | jobCompleted (record : JobCompleted)
  | failure (record : FailureRecord)
deriving DecidableEq, Repr

/-! ## Calls -/

structure FileIdentity where
  device : Nat
  inode : Nat
deriving DecidableEq, Repr

structure Metadata where
  isDir : Bool
  isFile : Bool
  identity : FileIdentity
  len : Nat
deriving DecidableEq, Repr

/-- A directory capability. -/
structure Dir where
  fd : Nat
deriving DecidableEq, Repr

/-- An open file. -/
structure File where
  fd : Nat
deriving DecidableEq, Repr

inductive NamespaceBoundary where
  | sidecar | data | manifest
deriving DecidableEq, Repr

inductive LinkBoundary where
  | partialSidecar | data | manifest
deriving DecidableEq, Repr

/-- Which `create_dir` of the source a call is. -/
inductive CreateBoundary where
  | job | parent | item
deriving DecidableEq, Repr

inductive ParentTransition where
  | createdBeforeBind | bound
deriving DecidableEq, Repr

inductive RestoreItemOutcome where
  | published | directoryCreated | directoryNeedsReconciliation | failed | cancelled
deriving DecidableEq, Repr

inductive RestoreJobEvent where
  | itemStarted (itemIndex candidateId : Nat) (itemKind : RestoreItemKind) (logicalSize : Nat)
  | itemFinished (itemIndex candidateId : Nat) (itemKind : RestoreItemKind)
      (outcome : RestoreItemOutcome)
deriving DecidableEq, Repr

inductive Call (Value : Type) where
  | dirMetadata (dir : Dir)
  | tryClone (dir : Dir)
  | createDir (dir : Dir) (name : String) (boundary : CreateBoundary)
  | openDirNofollow (dir : Dir) (name : String)
  | symlinkMetadata (dir : Dir) (name : String)
  | createNew (dir : Dir) (name : String)
  | openRead (dir : Dir) (name : String)
  | fileMetadata (file : File)
  | writeAll (file : File) (bytes : Bytes)
  | flush (file : File)
  | syncAll (file : File)
  | hardLink (dir : Dir) (temporaryName finalName : String) (boundary : LinkBoundary)
  | syncParent (dir : Dir) (boundary : NamespaceBoundary)
  | parentTransition (componentIndex : Nat) (component : String) (transition : ParentTransition)
  | isCancelled
  | observe (event : RestoreJobEvent)
  | manifestPublished (summary : RestoreSummary Value)

variable {σ Value ε : Type}

/-- The type of the answer to a call. -/
@[reducible] def Call.Answer : Call Value → Type
  | dirMetadata _ | symlinkMetadata _ _ | fileMetadata _ => Except IoError Metadata
  | tryClone _ | openDirNofollow _ _ => Except IoError Dir
  | createNew _ _ | openRead _ _ => Except IoError File
  | createDir _ _ _ | writeAll _ _ | flush _ | syncAll _ | hardLink _ _ _ _ => Except IoError Unit
  | syncParent _ _ => NamespaceDurability
  | parentTransition _ _ _ => Except JobError Unit
  | isCancelled => Bool
  | observe _ | manifestPublished _ => Unit

/-- The functions of `serde_json` a job uses; an error is its text. -/
structure JobJson (Value : Type) extends Json Value where
  payloadToValue : JournalPayload → Except String Value
  manifestToVec : RecoveryManifest Value → Except String Bytes
  sidecarToVec : PartialSidecar → Except String Bytes
  valueFromStr : String → Except String Value

/-- Everything a job calls. `sinkFault` says how the journal's sink fails during the next append;
    `stream` is what `stream_candidate` calls for a file it writes, and `streamFailed` the state
    it leaves when it fails. -/
structure JobEnv (σ Value : Type) where
  json : JobJson Value
  sha256 : Bytes → Digest
  display : JobError → String
  debugStr : String → String
  answer : (call : Call Value) → σ → call.Answer × σ
  sinkFault : σ → Option SinkFault × σ
  stream : File → StreamEnv σ
  streamFailed : File → ContentPlan → σ → σ

/-! ## Runs -/

/-- What a run did: the calls with their answers, the streamed contents with their output, the
    appends with their results, and the manifests it built. -/
inductive Event (Value : Type) where
  | call (call : Call Value) (answer : call.Answer)
  | streamed (file : File) (content : ContentPlan)
      (result : Except RestoreError (StreamOutcome × Bytes))
  | appended (kind : String) (payload : JournalPayload) (result : Except JobError Unit)
  | manifest (manifest : RecoveryManifest Value)

structure JobState (σ Value : Type) where
  env : σ
  journal : JobJournal
  trace : List (Event Value)

abbrev JobM (σ Value : Type) : Type → Type := EStateM JobError (JobState σ Value)

def JobEnv.call (env : JobEnv σ Value) (call : Call Value) :
    EStateM ε (JobState σ Value) call.Answer := fun st =>
  let (answer, s) := env.answer call st.env
  .ok answer { st with env := s, trace := st.trace ++ [.call call answer] }

/-- The error of an append. An append does not panic: the hash it decodes is one it wrote. -/
def Fault.jobError : Fault → JobError
  | .error e => e
  | .panic => .journalPoisoned

/-- `JobJournal::append` on the journal of the run. -/
def JobEnv.append (env : JobEnv σ Value) (kind : String) (payload : JournalPayload) :
    JobM σ Value Unit := fun st =>
  let (fault, s) := env.sinkFault st.env
  let (result, journal) := st.journal.append env.json.toJson env.sha256 kind
    (env.json.payloadToValue payload) fault
  let result := result.mapError Fault.jobError
  let st := { env := s, journal, trace := st.trace ++ [.appended kind payload result] }
  match result with
  | .ok () => .ok () st
  | .error error => .error error st

/-- The streaming of a content plan into an open file, with a fresh scratch buffer. -/
def JobEnv.streamed (env : JobEnv σ Value) (file : File) (content : ContentPlan) (s : σ) :
    Except RestoreError (StreamOutcome × StreamState σ) :=
  Restore.streamCandidate (env.stream file) env.sha256 content
    (List.replicate restoreScratchBytes 0) s

/-- What a streaming that ended with `result` makes of the state. -/
def JobEnv.finishStream (env : JobEnv σ Value) (file : File) (content : ContentPlan)
    (st : JobState σ Value) (result : Except RestoreError (StreamOutcome × StreamState σ)) :
    EStateM.Result JobError (JobState σ Value) StreamOutcome :=
  match result with
  | .ok (outcome, stream) =>
    .ok outcome { st with
      env := stream.env
      trace := st.trace ++ [.streamed file content (.ok (outcome, stream.output))] }
  | .error error =>
    .error (.content error) { st with
      env := env.streamFailed file content st.env
      trace := st.trace ++ [.streamed file content (.error error)] }

/-- `stream_candidate` in `prepare_stream`. -/
def JobEnv.streamCandidate (env : JobEnv σ Value) (file : File) (content : ContentPlan) :
    JobM σ Value StreamOutcome := fun st =>
  env.finishStream file content st (env.streamed file content st.env)

end Undelete.Restore
