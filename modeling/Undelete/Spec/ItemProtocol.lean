import Undelete.Spec.JobNames
import Undelete.Spec.JobTrace

/-!
# The protocol of one item

What the run of one item may do next, given its trace: `ItemStep`. A name becomes visible only
behind the journal record that announces it, and while the sink has not failed; a file is linked
only when its contents are synced, its name still is the file that was prepared, and its sidecar
(where it needs one) is visible. What the result and the failure of an item say of the trace is
`Published` and `FailureKnown`.
-/

namespace Undelete.Restore

open Except EStateM Trace

variable {σ Value : Type} {env : JobEnv σ Value} {s s' : JobState σ Value}
  {trace trace' : List (Event Value)}

/-! ## Directories -/

/-- `last` was reached from `dir` by entering `names` one after the other, without following
    links. -/
inductive Walk (trace : List (Event Value)) : Dir → List String → Dir → Prop
  | here (dir : Dir) : Walk trace dir [] dir
  | clone {dir dir' last : Dir} {names : List String}
      (h : .call (.tryClone dir) (.ok dir') ∈ trace) (rest : Walk trace dir' names last) :
      Walk trace dir names last
  | enter {dir dir' last : Dir} {name : String} {names : List String}
      (h : .call (.openDirNofollow dir name) (.ok dir') ∈ trace)
      (rest : Walk trace dir' names last) : Walk trace dir (name :: names) last

theorem Walk.mono (hsub : trace ⊆ trace') {dir last : Dir} {names : List String}
    (h : Walk trace dir names last) : Walk trace' dir names last := by
  induction h with
  | here dir => exact .here dir
  | clone h _ ih => exact .clone (hsub h) ih
  | enter h _ ih => exact .enter (hsub h) ih

theorem Walk.append {dir mid last : Dir} {names names' : List String}
    (h : Walk trace dir names mid) (h' : Walk trace mid names' last) :
    Walk trace dir (names ++ names') last := by
  induction h with
  | here dir => exact h'
  | clone h _ ih => exact .clone h (ih h')
  | enter h _ ih => exact .enter h (ih h')

/-- Where an item is restored: the job directory, and the plan and the key of the item. -/
structure Site where
  jobDir : Dir
  plan : FileRestorePlan
  itemKey : String

namespace Site

/-- The first components of the item's path lead to `dir`. -/
def OnPath (site : Site) (trace : List (Event Value)) (names : List String) (dir : Dir) : Prop :=
  names <+: site.plan.path.parentComponents ∧ Walk trace site.jobDir names dir

/-- The directory the item is published in. -/
def Parent (site : Site) (trace : List (Event Value)) (dir : Dir) : Prop :=
  Walk trace site.jobDir site.plan.path.parentComponents dir

theorem Parent.mono {site : Site} {dir : Dir} (hsub : trace ⊆ trace') (h : site.Parent trace dir) :
    site.Parent trace' dir := Walk.mono hsub h

end Site

/-! ## Prepared files -/

/-- The content was streamed into the temporary file, which was created in `dir` and is synced. -/
def Streamed (trace : List (Event Value)) (dir : Dir) (content : ContentPlan)
    (temporary : PreparedFile) : Prop :=
  ∃ output, [.call (.createNew dir temporary.name) (.ok temporary.file),
    .streamed temporary.file content (.ok (temporary.outcome, output)),
    .call (.flush temporary.file) (.ok ()),
    .call (.syncAll temporary.file) (.ok ())].Sublist trace

/-- The bytes were written to the side file, which was created in `dir` and is synced. -/
def FileWritten (trace : List (Event Value)) (dir : Dir) (bytes : Bytes) (prepared : PreparedFile) :
    Prop :=
  [.call (.createNew dir prepared.name) (.ok prepared.file),
    .call (.writeAll prepared.file bytes) (.ok ()),
    .call (.flush prepared.file) (.ok ()),
    .call (.syncAll prepared.file) (.ok ())].Sublist trace

/-- The last calls found that the open file and its name in `dir` are the file prepared. -/
def Rebound (trace : List (Event Value)) (dir : Dir) (prepared : PreparedFile) : Prop :=
  ∃ past handle lookup metadata,
    trace = past ++ [.call (.fileMetadata prepared.file) (.ok handle),
      .call (.openRead dir prepared.name) (.ok lookup),
      .call (.fileMetadata lookup) (.ok metadata)] ∧
    handle.isFile = true ∧ handle.identity = prepared.identity ∧
    handle.len = prepared.outcome.bytesWritten ∧
    metadata.isFile = true ∧ metadata.identity = prepared.identity

/-- The sidecar of an output is prepared, if the output needs one. -/
def SidecarReady (env : JobEnv σ Value) (site : Site) (content : ContentPlan) (parent : Dir)
    (outcome : StreamOutcome) (sidecarTemp : Option PreparedFile) (trace : List (Event Value)) :
    Prop :=
  let sidecar := partialSidecar site.itemKey content.candidateId content.logicalSize outcome
    content.expectedSha256 site.plan.warnings
  (sidecar = none ∧ sidecarTemp = none) ∨
    ∃ record bytes prepared, sidecar = some record ∧ env.json.sidecarToVec record = .ok bytes ∧
      sidecarTemp = some prepared ∧ FileWritten trace parent bytes prepared ∧
      prepared.outcome.sha256 = env.sha256 bytes

/-- What the record `itemPrepared` says of a file. -/
def preparedRecord (site : Site) (content : ContentPlan) (temporary : PreparedFile)
    (sidecarTemp : Option PreparedFile) : ItemPrepared where
  candidateId := content.candidateId
  itemKey := site.itemKey
  requestedPath := site.plan.path.toSlashString
  temporaryName := temporary.name
  outputLength := temporary.outcome.bytesWritten
  outputSha256 := hexDigest temporary.outcome.sha256
  expectedSha256 := content.expectedSha256.map hexDigest
  sidecarTemporaryName := sidecarTemp.map (·.name)

/-- A file item before it is announced. -/
structure Readied (env : JobEnv σ Value) (site : Site) (content : ContentPlan) (parent : Dir)
    (temporary : PreparedFile) (sidecarTemp : Option PreparedFile)
    (trace : List (Event Value)) : Prop where
  kind : site.plan.item = .file content
  inParent : site.Parent trace parent
  streamed : Streamed trace parent content temporary
  sidecar : SidecarReady env site content parent temporary.outcome sidecarTemp trace

/-- A file item that the journal has announced. -/
structure Announced (env : JobEnv σ Value) (site : Site) (content : ContentPlan) (parent : Dir)
    (temporary : PreparedFile) (sidecarTemp : Option PreparedFile)
    (trace : List (Event Value)) : Prop
    extends Readied env site content parent temporary sidecarTemp trace where
  announced : .appended "itemPrepared"
    (.itemPrepared (preparedRecord site content temporary sidecarTemp)) (.ok ()) ∈ trace

theorem Streamed.mono {dir : Dir} {content : ContentPlan} {temporary : PreparedFile}
    (hsub : trace.Sublist trace') (h : Streamed trace dir content temporary) :
    Streamed trace' dir content temporary := by
  obtain ⟨output, hevents⟩ := h
  exact ⟨output, hevents.trans hsub⟩

theorem SidecarReady.mono {site : Site} {content : ContentPlan} {parent : Dir}
    {outcome : StreamOutcome} {sidecarTemp : Option PreparedFile} (hsub : trace.Sublist trace')
    (h : SidecarReady env site content parent outcome sidecarTemp trace) :
    SidecarReady env site content parent outcome sidecarTemp trace' := by
  rcases h with h | ⟨record, bytes, prepared, hrecord, hbytes, htemp, hwritten, hsha256⟩
  · exact .inl h
  · exact .inr ⟨record, bytes, prepared, hrecord, hbytes, htemp, hwritten.trans hsub, hsha256⟩

theorem Readied.mono {site : Site} {content : ContentPlan} {parent : Dir}
    {temporary : PreparedFile} {sidecarTemp : Option PreparedFile}
    (hsub : trace.Sublist trace')
    (h : Readied env site content parent temporary sidecarTemp trace) :
    Readied env site content parent temporary sidecarTemp trace' where
  kind := h.kind
  inParent := h.inParent.mono hsub.subset
  streamed := h.streamed.mono hsub
  sidecar := h.sidecar.mono hsub

theorem Announced.mono {site : Site} {content : ContentPlan} {parent : Dir}
    {temporary : PreparedFile} {sidecarTemp : Option PreparedFile}
    (hsub : trace.Sublist trace')
    (h : Announced env site content parent temporary sidecarTemp trace) :
    Announced env site content parent temporary sidecarTemp trace' where
  toReadied := h.toReadied.mono hsub
  announced := hsub.subset h.announced

/-! ## Published names -/

/-- The link of a prepared file to a name, with the answer `ok`. -/
def linkEvent (parent : Dir) (prepared : PreparedFile) (name : String) (boundary : LinkBoundary) :
    Event Value :=
  .call (.hardLink parent prepared.name name boundary) (.ok ())

/-- A sidecar that is visible: under which name, and how durable. -/
structure SidecarLinked (env : JobEnv σ Value) (site : Site) (parent : Dir)
    (sidecar : PreparedFile) (evidence : PublishedSidecarEvidence)
    (durability : NamespaceDurability) (trace : List (Event Value)) : Prop where
  key : evidence.itemKey = site.itemKey
  sha256 : evidence.sha256 = sidecar.outcome.sha256
  name : ∃ i < maxCollisionAttempts,
    evidence.name = collisionName env.sha256 (partialSidecarBaseName site.itemKey) i
  linked : [linkEvent parent sidecar evidence.name .partialSidecar,
    .call (.syncParent parent .sidecar) durability].Sublist trace

/-- The sidecar of an item is visible, if the item has one. -/
def SidecarVisible (env : JobEnv σ Value) (site : Site) (parent : Dir)
    (sidecarTemp : Option PreparedFile) (evidence : Option PublishedSidecarEvidence)
    (durability : NamespaceDurability) (trace : List (Event Value)) : Prop :=
  (sidecarTemp = none ∧ evidence = none ∧ durability = .synced) ∨
    ∃ sidecar name, sidecarTemp = some sidecar ∧ evidence = some name ∧
      SidecarLinked env site parent sidecar name durability trace

theorem SidecarLinked.mono {site : Site} {parent : Dir} {sidecar : PreparedFile}
    {evidence : PublishedSidecarEvidence} {durability : NamespaceDurability}
    (hsub : trace.Sublist trace')
    (h : SidecarLinked env site parent sidecar evidence durability trace) :
    SidecarLinked env site parent sidecar evidence durability trace' where
  key := h.key
  sha256 := h.sha256
  name := h.name
  linked := h.linked.trans hsub

theorem SidecarVisible.mono {site : Site} {parent : Dir} {sidecarTemp : Option PreparedFile}
    {evidence : Option PublishedSidecarEvidence} {durability : NamespaceDurability}
    (hsub : trace.Sublist trace')
    (h : SidecarVisible env site parent sidecarTemp evidence durability trace) :
    SidecarVisible env site parent sidecarTemp evidence durability trace' := by
  rcases h with h | ⟨sidecar, name, hsidecar, hname, hlinked⟩
  · exact .inl h
  · exact .inr ⟨sidecar, name, hsidecar, hname, hlinked.mono hsub⟩

/-! ## Results -/

/-- The record `directoryPublicationPlanned` for the name of a collision index. -/
def plannedRecord (env : JobEnv σ Value) (site : Site) (candidateId collisionIndex : Nat) :
    DirectoryPublicationPlanned :=
  let finalName := collisionName env.sha256 site.plan.path.fileName collisionIndex
  { candidateId
    itemKey := site.itemKey
    itemKind := "directory"
    publishedPath := joinPublishedPath site.plan.path finalName
    publishedName := finalName
    collisionIndex }

/-- The record `itemPublished` for a result. -/
def publishedRecord (itemKind : String) (result : RestoreItemResult Value) : ItemPublished where
  candidateId := result.candidateId
  itemKey := result.itemKey
  itemKind
  publishedPath := result.publishedPath
  sidecarName := result.sidecarName
  noFollowBindCompleted := result.directoryNoFollowBindCompleted
  directoryValidation := result.directoryValidation
  namespaceDurability := result.namespaceDurability
  completionStatus := result.completionStatus

/-- The record `itemPrepared` of a directory. -/
def directoryRecord (site : Site) (candidateId : Nat) : DirectoryPrepared where
  candidateId
  itemKey := site.itemKey
  requestedPath := site.plan.path.toSlashString
  itemKind := "directory"

/-- The record `itemSidecarPublished`. -/
def sidecarRecord (content : ContentPlan) (evidence : PublishedSidecarEvidence)
    (durability : NamespaceDurability) : ItemSidecarPublished where
  candidateId := content.candidateId
  itemKey := evidence.itemKey
  name := evidence.name
  sha256 := hexDigest evidence.sha256
  namespaceDurability := durability

/-- The record `directoryReconciliationRequired`. -/
def reconciliationRecord (state : DirectoryPublicationState) (stage : String) :
    DirectoryReconciliationRequired where
  candidateId := state.candidateId
  itemKey := state.itemKey
  itemKind := "directory"
  publishedPath := state.publishedPath
  publishedName := state.publishedName
  stage
  noFollowBindCompleted := state.noFollowBindCompleted
  directoryValidation := state.validation
  namespaceDurability := state.namespaceDurability
  disposition := "directoryNeedsReconciliation"
  completionStatus := .needsReconciliation

/-- The record `itemPublished` of a file. -/
def filePublishedRecord (site : Site) (content : ContentPlan) (finalName : String)
    (evidence : Option PublishedSidecarEvidence) (durability : NamespaceDurability) :
    ItemPublished where
  candidateId := content.candidateId
  itemKey := site.itemKey
  itemKind := "file"
  publishedPath := joinPublishedPath site.plan.path finalName
  sidecarName := evidence.map (·.name)
  noFollowBindCompleted := none
  directoryValidation := none
  namespaceDurability := durability
  completionStatus := durabilityStatus durability

/-- The record `itemPublished` of a directory that is bound. -/
def directoryPublishedRecord (site : Site) (candidateId : Nat) (finalName : String)
    (durability : NamespaceDurability) : ItemPublished where
  candidateId
  itemKey := site.itemKey
  itemKind := "directory"
  publishedPath := joinPublishedPath site.plan.path finalName
  sidecarName := none
  noFollowBindCompleted := some true
  directoryValidation := some .boundNoFollow
  namespaceDurability := durability
  completionStatus := durabilityStatus durability

/-- The records of an item: under which kind each is appended, and what has happened before. -/
inductive Truthful (env : JobEnv σ Value) (site : Site) (past : List (Event Value)) :
    String → JournalPayload → Prop
  | itemPrepared {content : ContentPlan} {parent : Dir} {temporary : PreparedFile}
      {sidecarTemp : Option PreparedFile}
      (h : Readied env site content parent temporary sidecarTemp past) :
      Truthful env site past "itemPrepared"
        (.itemPrepared (preparedRecord site content temporary sidecarTemp))
  | directoryPrepared {candidateId : Nat} (hkind : site.plan.item = .directory candidateId) :
      Truthful env site past "itemPrepared" (.directoryPrepared (directoryRecord site candidateId))
  | directoryPlanned {candidateId collisionIndex : Nat}
      (hkind : site.plan.item = .directory candidateId)
      (hindex : collisionIndex < maxCollisionAttempts) :
      Truthful env site past "directoryPublicationPlanned"
        (.directoryPublicationPlanned (plannedRecord env site candidateId collisionIndex))
  | directoryUnconfirmed {state : DirectoryPublicationState} {stage : String} {parent : Dir}
      (hkind : site.plan.item = .directory state.candidateId) (hkey : state.itemKey = site.itemKey)
      (hparent : site.Parent past parent)
      (hpath : state.publishedPath = joinPublishedPath site.plan.path state.publishedName)
      (hcreated : .call (.createDir parent state.publishedName .item) (.ok ()) ∈ past)
      (hbound : state.noFollowBindCompleted = true → ∃ bound,
        .call (.openDirNofollow parent state.publishedName) (.ok bound) ∈ past) :
      Truthful env site past "directoryReconciliationRequired"
        (.directoryReconciliationRequired (reconciliationRecord state stage))
  | sidecarPublished {content : ContentPlan} {parent : Dir} {sidecar : PreparedFile}
      {evidence : PublishedSidecarEvidence} {durability : NamespaceDurability}
      (hkind : site.plan.item = .file content) (hparent : site.Parent past parent)
      (hlinked : SidecarLinked env site parent sidecar evidence durability past) :
      Truthful env site past "itemSidecarPublished"
        (.itemSidecarPublished (sidecarRecord content evidence durability))
  | filePublished {content : ContentPlan} {parent : Dir} {temporary : PreparedFile}
      {sidecarTemp : Option PreparedFile} {evidence : Option PublishedSidecarEvidence}
      {sidecarDurability durability : NamespaceDurability} {finalName : String}
      (hannounced : Announced env site content parent temporary sidecarTemp past)
      (hvisible : SidecarVisible env site parent sidecarTemp evidence sidecarDurability past)
      (hlinked : [linkEvent parent temporary finalName .data,
        .call (.syncParent parent .data) durability].Sublist past) :
      Truthful env site past "itemPublished" (.itemPublished
        (filePublishedRecord site content finalName evidence
          (mergeDurability sidecarDurability durability)))
  | directoryPublished {candidateId : Nat} {parent bound : Dir} {finalName : String}
      {durability : NamespaceDurability} (hkind : site.plan.item = .directory candidateId)
      (hparent : site.Parent past parent)
      (hcreated : [.call (.createDir parent finalName .item) (.ok ()),
        .call (.openDirNofollow parent finalName) (.ok bound),
        .call (.syncParent parent .data) durability].Sublist past) :
      Truthful env site past "itemPublished"
        (.itemPublished (directoryPublishedRecord site candidateId finalName durability))

/-- What a result says of the trace, for a file that is published. -/
structure FilePublished (env : JobEnv σ Value) (site : Site) (content : ContentPlan) (parent : Dir)
    (temporary : PreparedFile) (sidecarTemp : Option PreparedFile)
    (result : RestoreItemResult Value) (trace : List (Event Value)) : Prop where
  announced : Announced env site content parent temporary sidecarTemp trace
  identity : result.itemKey = site.itemKey ∧ result.candidateId = content.candidateId
  output : result.outputLen = some temporary.outcome.bytesWritten ∧
    result.outputSha256 = some temporary.outcome.sha256 ∧
    result.zeroFilledRanges = temporary.outcome.zeroFilledRanges
  name : ∃ i < maxCollisionAttempts,
    result.publishedName = collisionName env.sha256 site.plan.path.fileName i
  path : result.publishedPath = joinPublishedPath site.plan.path result.publishedName
  visible : ∃ evidence durability,
    SidecarVisible env site parent sidecarTemp evidence durability trace ∧
    result.sidecarName = evidence.map (·.name) ∧ result.sidecarSha256 = evidence.map (·.sha256) ∧
    (result.completionStatus = .completedDurable → durability = .synced)
  linked : ∃ durability,
    [linkEvent parent temporary result.publishedName .data,
      .call (.syncParent parent .data) durability,
      .appended "itemPublished" (.itemPublished (publishedRecord "file" result))
        (.ok ())].Sublist trace ∧
    (result.completionStatus = .completedDurable → durability = .synced)

/-- What a result says of the trace, for a directory that is visible. -/
structure DirectoryVisible (env : JobEnv σ Value) (site : Site) (candidateId : Nat) (parent : Dir)
    (result : RestoreItemResult Value) (trace : List (Event Value)) : Prop where
  kind : site.plan.item = .directory candidateId
  inParent : site.Parent trace parent
  identity : result.itemKey = site.itemKey ∧ result.candidateId = candidateId
  path : result.publishedPath = joinPublishedPath site.plan.path result.publishedName
  sidecarless : result.sidecarName = none
  created : ∃ i < maxCollisionAttempts,
    result.publishedName = collisionName env.sha256 site.plan.path.fileName i ∧
    [.appended "directoryPublicationPlanned"
        (.directoryPublicationPlanned (plannedRecord env site candidateId i)) (.ok ()),
      .call (.createDir parent result.publishedName .item) (.ok ())].Sublist trace
  synced : result.completionStatus = .completedDurable → ∃ bound,
    [.call (.createDir parent result.publishedName .item) (.ok ()),
      .call (.openDirNofollow parent result.publishedName) (.ok bound),
      .call (.syncParent parent .data) .synced].Sublist trace

/-- What the result of an item says of the trace. -/
def Published (env : JobEnv σ Value) (site : Site) (result : RestoreItemResult Value)
    (trace : List (Event Value)) : Prop :=
  (∃ content parent temporary sidecarTemp,
    FilePublished env site content parent temporary sidecarTemp result trace) ∨
  ∃ candidateId parent, DirectoryVisible env site candidateId parent result trace ∧
    .appended "itemPublished" (.itemPublished (publishedRecord "directory" result)) (.ok ()) ∈ trace

/-- What the failure of an item says of the trace. -/
structure FailureKnown (env : JobEnv σ Value) (site : Site) (failure : ItemRestoreFailure Value)
    (trace : List (Event Value)) : Prop where
  sidecar : ∀ evidence, failure.publishedSidecar = some evidence →
    ∃ parent sidecar durability, site.Parent trace parent ∧
      SidecarLinked env site parent sidecar evidence durability trace
  published : ∀ result, failure.published = some result →
    ∃ candidateId parent, DirectoryVisible env site candidateId parent result trace

theorem FilePublished.mono {site : Site} {content : ContentPlan} {parent : Dir}
    {temporary : PreparedFile} {sidecarTemp : Option PreparedFile}
    {result : RestoreItemResult Value} (hsub : trace.Sublist trace')
    (h : FilePublished env site content parent temporary sidecarTemp result trace) :
    FilePublished env site content parent temporary sidecarTemp result trace' where
  announced := h.announced.mono hsub
  identity := h.identity
  output := h.output
  name := h.name
  path := h.path
  visible := by
    obtain ⟨evidence, durability, hvisible, hrest⟩ := h.visible
    exact ⟨evidence, durability, hvisible.mono hsub, hrest⟩
  linked := by
    obtain ⟨durability, hlinked, hrest⟩ := h.linked
    exact ⟨durability, hlinked.trans hsub, hrest⟩

theorem DirectoryVisible.mono {site : Site} {candidateId : Nat} {parent : Dir}
    {result : RestoreItemResult Value} (hsub : trace.Sublist trace')
    (h : DirectoryVisible env site candidateId parent result trace) :
    DirectoryVisible env site candidateId parent result trace' where
  kind := h.kind
  inParent := h.inParent.mono hsub.subset
  identity := h.identity
  path := h.path
  sidecarless := h.sidecarless
  created := by
    obtain ⟨i, hi, hname, hevents⟩ := h.created
    exact ⟨i, hi, hname, hevents.trans hsub⟩
  synced := by
    intro hdurable
    obtain ⟨bound, hevents⟩ := h.synced hdurable
    exact ⟨bound, hevents.trans hsub⟩

theorem Published.mono {site : Site} {result : RestoreItemResult Value}
    (hsub : trace.Sublist trace') (h : Published env site result trace) :
    Published env site result trace' := by
  rcases h with ⟨content, parent, temporary, sidecarTemp, h⟩ | ⟨candidateId, parent, h, hmem⟩
  · exact .inl ⟨content, parent, temporary, sidecarTemp, h.mono hsub⟩
  · exact .inr ⟨candidateId, parent, h.mono hsub, hsub.subset hmem⟩

theorem FailureKnown.ofError (site : Site) (error : JobError) :
    FailureKnown env site (.ofError error) trace where
  sidecar := fun _ h => (by cases h)
  published := fun _ h => (by cases h)

/-! ## Steps of an item -/

/-- A call on an open handle; it names no entry of a directory. -/
def Call.isHandle : Call Value → Bool
  | .dirMetadata _ | .tryClone _ | .fileMetadata _ | .writeAll _ _ | .flush _ | .syncAll _
  | .syncParent _ _ | .parentTransition _ _ _ => true
  | _ => false

/-- What the run of an item may do after `past`. -/
inductive ItemStep (env : JobEnv σ Value) (site : Site) (past : List (Event Value)) :
    Event Value → Prop
  | handle {call : Call Value} (answer : call.Answer) (h : call.isHandle = true) :
      ItemStep env site past (.call call answer)
  | streamed {file : File} {content : ContentPlan}
      {result : Except RestoreError (StreamOutcome × Bytes)}
      (h : env.Streams file content result) :
      ItemStep env site past (.streamed file content result)
  | entered {names : List String} {dir : Dir} {name : String} (answer : Except IoError Dir)
      (h : site.OnPath past names dir) (hname : IsEntry name) :
      ItemStep env site past (.call (.openDirNofollow dir name) answer)
  | createdParent {names : List String} {dir : Dir} {name : String} (answer : Except IoError Unit)
      (hhealthy : Healthy past) (h : Walk past site.jobDir names dir)
      (hnames : names ++ [name] <+: site.plan.path.parentComponents) :
      ItemStep env site past (.call (.createDir dir name .parent) answer)
  | created {dir : Dir} {name : String} (answer : Except IoError File)
      (hhealthy : Healthy past) (h : site.Parent past dir) (hname : IsEntry name) :
      ItemStep env site past (.call (.createNew dir name) answer)
  | reopened {dir : Dir} {name : String} (answer : Except IoError File)
      (h : site.Parent past dir) (hname : IsEntry name) :
      ItemStep env site past (.call (.openRead dir name) answer)
  | lookedUp {dir : Dir} {name : String} (answer : Except IoError Metadata)
      (h : site.Parent past dir) (hname : IsEntry name) :
      ItemStep env site past (.call (.symlinkMetadata dir name) answer)
  | linkedSidecar {content : ContentPlan} {parent : Dir} {temporary sidecar : PreparedFile}
      {collisionIndex : Nat} (answer : Except IoError Unit) (hhealthy : Healthy past)
      (hannounced : Announced env site content parent temporary (some sidecar) past)
      (hrebound : Rebound past parent sidecar) (hindex : collisionIndex < maxCollisionAttempts) :
      ItemStep env site past (.call (.hardLink parent sidecar.name
        (collisionName env.sha256 (partialSidecarBaseName site.itemKey) collisionIndex)
        .partialSidecar) answer)
  | linkedData {content : ContentPlan} {parent : Dir} {temporary : PreparedFile}
      {sidecarTemp : Option PreparedFile} {evidence : Option PublishedSidecarEvidence}
      {durability : NamespaceDurability} {collisionIndex : Nat} (answer : Except IoError Unit)
      (hhealthy : Healthy past)
      (hannounced : Announced env site content parent temporary sidecarTemp past)
      (hvisible : SidecarVisible env site parent sidecarTemp evidence durability past)
      (hrebound : Rebound past parent temporary) (hindex : collisionIndex < maxCollisionAttempts) :
      ItemStep env site past (.call (.hardLink parent temporary.name
        (collisionName env.sha256 site.plan.path.fileName collisionIndex) .data) answer)
  | createdDirectory {candidateId : Nat} {dir : Dir} {collisionIndex : Nat}
      (answer : Except IoError Unit) (hhealthy : Healthy past)
      (hkind : site.plan.item = .directory candidateId) (hparent : site.Parent past dir)
      (hplanned : past.getLast? = some (.appended "directoryPublicationPlanned"
        (.directoryPublicationPlanned (plannedRecord env site candidateId collisionIndex))
        (.ok ())))
      (hindex : collisionIndex < maxCollisionAttempts) :
      ItemStep env site past (.call (.createDir dir
        (collisionName env.sha256 site.plan.path.fileName collisionIndex) .item) answer)
  | appended {kind : String} {payload : JournalPayload} (result : Except JobError Unit)
      (h : Truthful env site past kind payload) :
      ItemStep env site past (.appended kind payload result)

end Undelete.Restore
