import Undelete.Native.Ntfs.Mft

/-!
# Namespace evidence

Model of the namespace half of `crates/fs-ntfs/src/scan.rs`: the expansion of parent
references into paths, the bounded namespace, folder membership, and the displayed
path of a candidate.
-/

namespace Undelete.Ntfs

def maxPathDepth : Nat := 255
def maxNamespacePathsPerName : Nat := 256

/-- Stable reference to one observed MFT record generation. -/
structure NtfsNodeRef where
  record : Nat
  sequence : Nat
deriving DecidableEq, Repr

/-- Truthfulness of one reconstructed path, from best to worst. -/
inductive NtfsPathState where
  | exact | reconstructed | incomplete | orphaned | ambiguous
deriving DecidableEq, Repr

/-- The declaration order of the states, which the source derives `Ord` from. -/
def NtfsPathState.rank : NtfsPathState → Nat
  | .exact => 0
  | .reconstructed => 1
  | .incomplete => 2
  | .orphaned => 3
  | .ambiguous => 4

/-- One non-DOS `$FILE_NAME` path for an observed MFT record. -/
structure NtfsNamespacePath where
  node : NtfsNodeRef
  namespaceId : Nat
  name : String
  parentPath : List String
  ancestors : List NtfsNodeRef
  state : NtfsPathState
deriving DecidableEq, Repr

structure NtfsDirectoryNode where
  node : NtfsNodeRef
  active : Bool
deriving DecidableEq, Repr

inductive NtfsScopeMembership where
  | isMatch | noMatch | unknown
deriving DecidableEq, Repr

structure NtfsNamespace where
  paths : List NtfsNamespacePath
  directories : List NtfsDirectoryNode
  isComplete : Bool
deriving DecidableEq, Repr

/-! ## Folder membership -/

namespace NtfsNamespace

/-- The paths that `build_index` files under `node`; the index maps a node to the
    offsets of its paths, in order. -/
def pathsOf (ns : NtfsNamespace) (node : NtfsNodeRef) : List NtfsNamespacePath :=
  ns.paths.filter fun path => path.node = node

/-- `NtfsNamespaceIndex::classify_candidate`. -/
def classifyIndexed (ns : NtfsNamespace) (candidate directory : NtfsNodeRef) :
    NtfsScopeMembership :=
  let paths := ns.pathsOf candidate
  if paths.any fun path => path.ancestors.contains directory then .isMatch
  else if paths.isEmpty || !ns.isComplete ||
      paths.any fun path => !(path.state = .exact || path.state = .reconstructed) then .unknown
  else .noMatch

/-- `NtfsNamespace::classify_candidate`; building the index fails on too many paths. -/
def classifyCandidate (ns : NtfsNamespace) (candidate directory : NtfsNodeRef) :
    NtfsScopeMembership :=
  if ns.paths.length > maxNamespacePaths then .unknown
  else ns.classifyIndexed candidate directory

end NtfsNamespace

/-! ## Expansion of parent references -/

def usefulNamespaceNames (entry : ParsedEntry) : List FileNameAttr :=
  entry.names.filter fun name => name.namespaceId ≠ nsDos && !name.name.isEmpty

structure ParentPathEvidence where
  parentPath : List String
  ancestors : List NtfsNodeRef
  state : NtfsPathState
deriving DecidableEq, Repr

structure ParentPathExpansion where
  paths : List ParentPathEvidence
  complete : Bool
deriving DecidableEq, Repr

/-- `left.max(right)`. -/
def mergePathState (left right : NtfsPathState) : NtfsPathState :=
  if left.rank ≤ right.rank then right else left

def orphanedParentPath : ParentPathExpansion := ⟨[⟨[], [], .orphaned⟩], true⟩

/-- One step below `node`: the name and the node are pushed and the state is merged. -/
def ParentPathEvidence.push (path : ParentPathEvidence) (name : String) (node : NtfsNodeRef)
    (relation : NtfsPathState) : ParentPathEvidence where
  parentPath := path.parentPath ++ [name]
  ancestors := path.ancestors ++ [node]
  state := mergePathState path.state relation

/-- The inner loop of `'names`: appends the upstream paths until the cap is reached,
    in which case the flag is set. -/
def pushUpstream (name : String) (node : NtfsNodeRef) (relation : NtfsPathState) :
    List ParentPathEvidence → List ParentPathEvidence → List ParentPathEvidence × Bool
  | [], paths => (paths, false)
  | path :: upstream, paths =>
    if paths.length ≥ maxNamespacePathsPerName then (paths, true)
    else pushUpstream name node relation upstream (paths ++ [path.push name node relation])

/-- The loop `'names` of `expand_parent_paths`, given the expansion of a reference. -/
def expandNames (expand : Nat → Nat → ParentPathExpansion) (node : NtfsNodeRef)
    (relation : NtfsPathState) : List FileNameAttr → List ParentPathEvidence → Bool →
    ParentPathExpansion
  | [], paths, complete => ⟨paths, complete⟩
  | name :: names, paths, complete =>
    if paths.length ≥ maxNamespacePathsPerName then ⟨paths, false⟩
    else
      let upstream := expand name.parentRecord name.parentSequence
      let (paths, capped) := pushUpstream name.name node relation upstream.paths paths
      if capped then ⟨paths, false⟩
      else expandNames expand node relation names paths (complete && upstream.complete)

/-- The state contributed by a validated parent. -/
def relationState (parent : ParsedEntry) : NtfsPathState :=
  if !parent.attributesComplete then .incomplete
  else if !parent.inUse then .reconstructed
  else .exact

/-- `parent.sequence` is the referenced generation, or a deleted directory whose
    sequence was bumped on free. -/
def generationMatches (parent : ParsedEntry) (parentSequence : Nat) : Bool :=
  parent.sequence = parentSequence ||
    (!parent.inUse && parent.sequence = (parentSequence + 1) % 2 ^ 16)

/-- All parent paths of a reference. The first argument counts down from
    `maxPathDepth`, so it is `MAX_PATH_DEPTH - depth` of the source. -/
def expandParentPaths (entries : RecordMap ParsedEntry) :
    Nat → List Nat → Nat → Nat → ParentPathExpansion
  | 0, _, _, _ => ⟨[⟨[], [], .incomplete⟩], false⟩
  | depthLeft + 1, visited, parentRecord, parentSequence =>
    if parentRecord ∈ visited then orphanedParentPath
    else match entries.get? parentRecord with
      | none => orphanedParentPath
      | some parent =>
        if !parent.isDirectory then orphanedParentPath
        else
          let node : NtfsNodeRef := ⟨parentRecord, parent.sequence⟩
          if parentRecord = rootRecord then
            if !parent.inUse || parent.sequence ≠ parentSequence then orphanedParentPath
            else ⟨[⟨[], [node], if parent.attributesComplete then .exact else .incomplete⟩], true⟩
          else if !generationMatches parent parentSequence then orphanedParentPath
          else
            let names := usefulNamespaceNames parent
            if names.isEmpty then ⟨[⟨[], [node], .orphaned⟩], true⟩
            else
              let expansion := expandNames
                (expandParentPaths entries depthLeft (parentRecord :: visited))
                node (relationState parent) names [] true
              if expansion.paths.isEmpty then ⟨[⟨[], [node], .incomplete⟩], false⟩
              else expansion

/-! ## The namespace -/

/-- What the record loop of `build_namespace` carries. -/
structure NamespaceDraft where
  paths : List NtfsNamespacePath := []
  componentsUsed : Nat := 0
  complete : Bool
  budgetReached : Bool := false
deriving DecidableEq, Repr

/-- The loop state after a budget stopped the labelled loop. -/
def NamespaceDraft.exhausted (d : NamespaceDraft) : NamespaceDraft :=
  { d with complete := false, budgetReached := true }

/-- Whether the loops of `build_namespace` go on after a step. -/
inductive NamespaceStep where
  | next (d : NamespaceDraft)
  | stop (d : NamespaceDraft)

def namespacePath (record : Nat) (entry : ParsedEntry) (name : FileNameAttr)
    (parent : ParentPathEvidence) : NtfsNamespacePath where
  node := ⟨record, entry.sequence⟩
  namespaceId := name.namespaceId
  name := name.name
  parentPath := parent.parentPath
  ancestors := parent.ancestors
  state := mergePathState parent.state (if entry.attributesComplete then .exact else .incomplete)

/-- `components_used` after one more path. -/
def nextComponentCount (componentsUsed : Nat) (parent : ParentPathEvidence) : Option Nat := do
  let cost ← (U64.checkedAdd parent.parentPath.length parent.ancestors.length).bind
    (U64.checkedAdd · 1)
  let next ← U64.checkedAdd componentsUsed cost
  if next > maxNamespaceComponents then none else some next

/-- The loop over the expansion of one name. -/
def addParentPaths (record : Nat) (entry : ParsedEntry) (name : FileNameAttr) :
    List ParentPathEvidence → NamespaceDraft → NamespaceStep
  | [], d => .next d
  | parent :: parents, d =>
    if d.paths.length ≥ maxNamespacePaths then .stop d.exhausted
    else match nextComponentCount d.componentsUsed parent with
      | none => .stop d.exhausted
      | some componentsUsed =>
        addParentPaths record entry name parents
          { d with componentsUsed, paths := d.paths ++ [namespacePath record entry name parent] }

/-- The loop over the useful names of one record. -/
def addNames (entries : RecordMap ParsedEntry) (record : Nat) (entry : ParsedEntry) :
    List FileNameAttr → NamespaceDraft → NamespaceStep
  | [], d => .next d
  | name :: names, d =>
    if d.paths.length ≥ maxNamespacePaths then .stop d.exhausted
    else
      let expansion :=
        expandParentPaths entries maxPathDepth [record] name.parentRecord name.parentSequence
      let d := if expansion.complete then d else d.exhausted
      match addParentPaths record entry name expansion.paths d with
      | .next d => addNames entries record entry names d
      | .stop d => .stop d

/-- The loop `'records`. -/
def addRecords (entries : RecordMap ParsedEntry) : List Nat → NamespaceDraft → NamespaceDraft
  | [], d => d
  | record :: records, d =>
    if record = rootRecord then addRecords entries records d
    else match entries.get? record with
      | none => addRecords entries records d
      | some entry =>
        match addNames entries record entry (usefulNamespaceNames entry) d with
        | .next d => addRecords entries records d
        | .stop d => d

/-- The order `build_namespace` sorts its paths by. -/
def comparePaths (left right : NtfsNamespacePath) : Ordering :=
  (compare left.node.record right.node.record).then <|
  (compare left.node.sequence right.node.sequence).then <|
  (List.compareLex compare left.parentPath right.parentPath).then <|
  (compare left.name right.name).then (compare left.namespaceId right.namespaceId)

def directoryNodes (entries : RecordMap ParsedEntry) : List NtfsDirectoryNode :=
  (entries.toList.filterMap fun (record, entry) =>
    if entry.isDirectory then some ⟨⟨record, entry.sequence⟩, entry.inUse⟩ else none).insertionSort
    fun a b => a.node.record ≤ b.node.record

/-- Builds the namespace; the second component is the budget warning, if any. -/
def buildNamespace (entries : RecordMap ParsedEntry) (scanComplete : Bool) :
    NtfsNamespace × List NtfsWarning :=
  let records := entries.keys.insertionSort (· ≤ ·)
  let d := addRecords entries records { complete := scanComplete }
  ({ paths := d.paths.insertionSort fun a b => (comparePaths a b).isLE
     directories := directoryNodes entries
     isComplete := d.complete },
   if d.budgetReached then [.namespaceBudget] else [])

/-! ## The displayed path -/

def orphanPath (recordNo : Nat) : List String := [s!"Orphaned items/MFT record {recordNo}"]

/-- The parent chain walked so far by `reconstruct_path`; `parts` is root-first. -/
structure PathWalk where
  visited : List Nat
  parentNo : Nat
  parentSeq : Nat
  parts : List String
  confidence : MetadataConfidence
  warnings : List NtfsWarning
deriving DecidableEq, Repr

/-- One iteration of the loop of `reconstruct_path`: the next walk, or the result. -/
def PathWalk.step (entries : RecordMap ParsedEntry) (selfRecord : Nat) (w : PathWalk) :
    PathWalk ⊕ (List String × MetadataConfidence × List NtfsWarning) :=
  let orphan (warning : NtfsWarning) : PathWalk ⊕ (List String × MetadataConfidence × _) :=
    .inr (orphanPath selfRecord, .low, w.warnings ++ [warning])
  if w.parentNo = rootRecord then
    match entries.get? rootRecord with
    | none => orphan .rootNotFound
    | some root =>
      if !root.inUse || !root.isDirectory then orphan .rootNotActiveDirectory
      else if root.sequence ≠ w.parentSeq then orphan (.rootReused w.parentSeq root.sequence)
      else .inr (w.parts, w.confidence, w.warnings)
  else if w.parentNo ∈ w.visited then orphan .pathCycle
  else match entries.get? w.parentNo with
    | none => orphan (.parentNotFound w.parentNo)
    | some parent =>
      if !generationMatches parent w.parentSeq then
        orphan (.parentReused w.parentNo w.parentSeq parent.sequence)
      else if !parent.isDirectory then orphan (.parentNotDirectory w.parentNo)
      else
        let demoted := !parent.inUse && w.confidence = .high
        let warnings := if demoted then w.warnings ++ [.ancestorDeleted w.parentNo] else w.warnings
        match parent.bestName with
        | none => .inr (orphanPath selfRecord, .low, warnings ++ [.parentNoName w.parentNo])
        | some parentName => .inl {
            visited := w.parentNo :: w.visited
            parentNo := parentName.parentRecord
            parentSeq := parentName.parentSequence
            parts := parentName.name :: w.parts
            confidence := if demoted then .medium else w.confidence
            warnings }

def walkPath (entries : RecordMap ParsedEntry) (selfRecord : Nat) :
    Nat → PathWalk → List String × MetadataConfidence × List NtfsWarning
  | 0, w => (orphanPath selfRecord, .low, w.warnings ++ [.pathTooDeep])
  | left + 1, w =>
    match w.step entries selfRecord with
    | .inl w => walkPath entries selfRecord left w
    | .inr result => result

/-- Walks parent references to rebuild the original path. -/
def reconstructPath (entries : RecordMap ParsedEntry) (nameAttr : FileNameAttr)
    (selfRecord : Nat) : List String × MetadataConfidence × List NtfsWarning :=
  walkPath entries selfRecord maxPathDepth
    ⟨[selfRecord], nameAttr.parentRecord, nameAttr.parentSequence, [], .high, []⟩

end Undelete.Ntfs
