import Mathlib.Algebra.GroupWithZero.Nat
import Mathlib.Data.List.Sort
import Undelete.Native.Fat.Table
import Undelete.Native.Fat.Dir

/-!
# The FAT scan

Model of `crates/fs-fat/src/scan.rs`.
-/

namespace Undelete.Fat

def maxDirs : Nat := 10000
def maxDirDepth : Nat := 256
def maxDirBytes : Nat := 8 * 1024 * 1024
def maxFatReadBytes : Nat := 64 * 1024 * 1024

structure ScanCtx where
  reader : SourceReader
  boot : FatBoot
  fat : FatTable
  candidates : List Candidate
  warnings : List String
  visitedDirClusters : List Nat
  dirsProcessed : Nat
  nextId : Nat
  isComplete : Bool

def ScanCtx.markIncomplete (ctx : ScanCtx) (warning : String) : ScanCtx :=
  { ctx with
    isComplete := false
    warnings := if warning ∈ ctx.warnings then ctx.warnings else ctx.warnings ++ [warning] }

def directoryChainLimit (boot : FatBoot) : Nat :=
  min (max (maxDirBytes / boot.clusterSize) 1) boot.clusterCount

/-- The loop of `read_clusters`. -/
def readClustersFrom : List Nat → ScanCtx → Bytes → Except ScanError (ScanCtx × Bytes)
  | [], ctx, out => .ok (ctx, out)
  | c :: clusters, ctx, out =>
    if out.length + ctx.boot.clusterSize > maxDirBytes then
      .ok (ctx.markIncomplete s!"directory stream exceeded the {maxDirBytes}-byte scan bound", out)
    else match ctx.boot.clusterOffset c with
      | none =>
        let ctx := ctx.markIncomplete
          s!"directory cluster {c} lies outside the FAT volume; skipped"
        readClustersFrom clusters ctx out
      | some off =>
        match ctx.reader.readVecAt off ctx.boot.clusterSize with
        | .error e => .error (.read e)
        | .ok bytes => readClustersFrom clusters ctx (out ++ bytes)

def readClusters (ctx : ScanCtx) (clusters : List Nat) : Except ScanError (ScanCtx × Bytes) :=
  readClustersFrom clusters ctx []

/-! ## Extents -/

/-- The clusters `build_file_extents` follows and whether contiguity was assumed;
    `none` when the start cluster is unusable. -/
def fileClusters (boot : FatBoot) (fat : FatTable) (entry : DirEntry) :
    Option (List Nat × Bool × List String) :=
  let clustersNeeded := (entry.size + boot.clusterSize - 1) / boot.clusterSize
  match fat.entry entry.firstCluster with
  | some (.next _) | some .endOfChain =>
    let (chain, complete) := fat.chain entry.firstCluster (clustersNeeded + 1)
    let warning :=
      if !complete && chain.length < clustersNeeded then
        "retained FAT chain is shorter than the file size"
      else "FAT chain still present; following it"
    some (chain, false, [warning])
  | some .free =>
    let chain := ((List.range clustersNeeded).map (entry.firstCluster + ·)).takeWhile
      fun c => c < boot.clusterCount + 2
    some (chain, true, [])
  | _ => none

/-- Appends one cluster's bytes to the extents, joining it to the last extent when
    that one is physically adjacent and equally available. -/
def pushCluster (extents : List ExtentRun) (logical phys take : Nat)
    (availability : ExtentAvailability) : List ExtentRun :=
  match extents.getLast? with
  | some last =>
    if last.availability = availability ∧ last.physicalOffset.map (· + last.len) = some phys then
      extents.dropLast ++ [{ last with len := last.len + take }]
    else extents ++ [⟨logical, some phys, take, availability⟩]
  | none => extents ++ [⟨logical, some phys, take, availability⟩]

/-- The cluster loop of `build_file_extents`. -/
def clusterExtents (boot : FatBoot) (fat : FatTable) (size : Nat) (inferred : Bool) :
    List Nat → Nat → List ExtentRun → List ExtentRun
  | [], _, extents => extents
  | c :: clusters, logical, extents =>
    if logical ≥ size then extents
    else
      let take := min boot.clusterSize (size - logical)
      let free := (fat.isFree c).getD false
      let availability :=
        if free || !inferred then ExtentAvailability.freeInSnapshot else .currentlyAllocated
      let extents := match boot.clusterOffset c with
        | some phys => pushCluster extents logical phys take availability
        | none => extents
      clusterExtents boot fat size inferred clusters (logical + take) extents

/-- Builds extents for a deleted file: the extents, whether the chain was inferred,
    and the findings for its warnings. -/
def buildFileExtents (boot : FatBoot) (fat : FatTable) (entry : DirEntry) :
    List ExtentRun × Bool × List String :=
  if entry.size = 0 ∨ entry.firstCluster < 2 then ([], false, [])
  else match fileClusters boot fat entry with
    | none => ([], false, [])
    | some (clusters, inferred, warnings) =>
      (clusterExtents boot fat entry.size inferred clusters 0 [], inferred, warnings)

def fileState (size : Nat) (extents : List ExtentRun) : CandidateState :=
  if size = 0 then .completeUnvalidated
  else if extents.isEmpty then .metadataOnly
  else if extents.any fun e => e.availability = .currentlyAllocated then .conflicted
  else if (extents.map (·.len)).sum < size then .partialContent
  else .completeUnvalidated

/-- The candidate of a deleted file. -/
def fileCandidate (boot : FatBoot) (fat : FatTable) (id : Nat) (entry : DirEntry)
    (path : List String) (parentActive : Bool) : Candidate :=
  let (extents, chainInferred, warnings) := buildFileExtents boot fat entry
  { id
    kind := .file
    method := .fatMetadata
    state := fileState entry.size extents
    name := entry.name
    nameCertain := entry.nameCertain
    parentPath := path
    metadataConfidence :=
      if parentActive && entry.nameCertain then .high
      else if !entry.nameCertain && !parentActive then .low
      else .medium
    size := entry.size
    timestamps := { createdMs := entry.createdMs, modifiedMs := entry.modifiedMs }
    extents
    recordRef := entry.entryOffset
    sequence := none
    warnings := warnings ++
      if chainInferred then ["cluster chain cleared on delete; contiguous layout assumed"] else [] }

/-- The candidate of a deleted directory. -/
def directoryCandidate (id : Nat) (entry : DirEntry) (path : List String) (parentActive : Bool) :
    Candidate where
  id := id
  kind := .directory
  method := .fatMetadata
  state := .exactEvidence
  name := entry.name
  nameCertain := entry.nameCertain
  parentPath := path
  metadataConfidence := if parentActive && entry.nameCertain then .high else .medium
  size := 0
  timestamps := { createdMs := entry.createdMs, modifiedMs := entry.modifiedMs }
  extents := []
  recordRef := entry.entryOffset
  sequence := none
  warnings := []

def ScanCtx.emit (ctx : ScanCtx) (candidate : Nat → Candidate) : ScanCtx :=
  { ctx with candidates := ctx.candidates ++ [candidate ctx.nextId], nextId := ctx.nextId + 1 }

/-! ## The directory walk -/

/-- Follows the chain of a directory; an incomplete chain is reported as `broken`, or
    as `bounded` when it reached the scan bound. -/
def directoryChain (ctx : ScanCtx) (firstCluster : Nat) (bounded broken : String) :
    ScanCtx × List Nat :=
  let chainLimit := directoryChainLimit ctx.boot
  let (chain, complete) := ctx.fat.chain firstCluster chainLimit
  if complete then (ctx, chain)
  else (ctx.markIncomplete (if chain.length ≥ chainLimit then bounded else broken), chain)

/-- The clusters of a subdirectory, or `none` when it is skipped. -/
def directoryClusters (ctx : ScanCtx) (entry : DirEntry) : ScanCtx × Option (List Nat) :=
  if !entry.isDeleted then
    let (ctx, chain) := directoryChain ctx entry.firstCluster
      s!"directory '{entry.name}' chain reached the scan bound"
      s!"directory '{entry.name}' has a broken cluster chain"
    (ctx, some chain)
  else match ctx.fat.entry entry.firstCluster with
    | some .free =>
      (ctx.markIncomplete (s!"deleted directory '{entry.name}' has a cleared FAT chain; " ++
        "scanning only its first cluster"), some [entry.firstCluster])
    | some (.next _) | some .endOfChain =>
      let (ctx, chain) := directoryChain ctx entry.firstCluster
        s!"directory '{entry.name}' retained chain reached the scan bound"
        s!"directory '{entry.name}' has a broken retained cluster chain"
      (ctx, some chain)
    | _ =>
      (ctx.markIncomplete s!"directory '{entry.name}' starts at an unusable cluster; skipped", none)

/-- `handle_directory`, given the walk of a subdirectory stream. -/
def handleDirectory (walk : ScanCtx → Bytes → List String → Bool → ScanCtx) (ctx : ScanCtx)
    (entry : DirEntry) (path : List String) (parentActive : Bool) : ScanCtx :=
  let ctx :=
    if entry.isDeleted then ctx.emit fun id => directoryCandidate id entry path parentActive
    else ctx
  if entry.firstCluster < 2 then
    ctx.markIncomplete s!"directory '{entry.name}' has no usable start cluster; skipped"
  else if entry.firstCluster ∈ ctx.visitedDirClusters then
    ctx.markIncomplete s!"directory cycle at cluster {entry.firstCluster}; skipped"
  else match directoryClusters ctx entry with
    | (ctx, none) => ctx
    | (ctx, some clusters) =>
      let ctx := { ctx with visitedDirClusters := clusters ++ ctx.visitedDirClusters }
      match readClusters ctx clusters with
      | .ok (ctx, data) => walk ctx data (path ++ [entry.name]) (parentActive && !entry.isDeleted)
      | .error _ => ctx.markIncomplete s!"directory '{entry.name}' unreadable"

/-- Walks a directory stream, emitting candidates for deleted entries and descending
    into both active and deleted subdirectories. The first argument counts down from
    `maxDirDepth` as the path grows. -/
def walkDirectory : Nat → ScanCtx → Bytes → List String → Bool → ScanCtx
  | 0, ctx, _, _, _ =>
    ctx.markIncomplete s!"directory traversal stopped at the {maxDirDepth}-level depth bound"
  | depthLeft + 1, ctx, data, path, parentActive =>
    if ctx.dirsProcessed ≥ maxDirs then
      ctx.markIncomplete s!"directory traversal stopped at the {maxDirs}-directory scan bound"
    else
      (parseDirectory data 0).foldl (fun ctx entry =>
        if entry.isVolumeLabel then ctx
        else if entry.isDirectory then
          handleDirectory (walkDirectory depthLeft) ctx entry path parentActive
        else if entry.isDeleted then
          ctx.emit fun id => fileCandidate ctx.boot ctx.fat id entry path parentActive
        else ctx) { ctx with dirsProcessed := ctx.dirsProcessed + 1 }

def readRootDir (ctx : ScanCtx) : Except ScanError (ScanCtx × Bytes) :=
  match ctx.boot.variant with
  | .fat12 | .fat16 =>
    (ctx.reader.readVecAt ctx.boot.rootDirOffset ctx.boot.rootDirBytes).mapError ScanError.read
      |>.map fun data => (ctx, data)
  | .fat32 =>
    let (ctx, clusters) := directoryChain ctx ctx.boot.rootCluster
      "FAT32 root directory chain reached the scan bound" "FAT32 root directory chain incomplete"
    readClusters ctx clusters

/-- Compares the declared FAT copies with the first one. -/
def compareFatCopies (reader : SourceReader) (fatOffset fatBytes : Nat) (rawFat : Bytes) :
    List Nat → Bool → List String → Except ScanError (Bool × List String)
  | [], complete, warnings => .ok (complete, warnings)
  | copyIndex :: rest, complete, warnings => do
    let copyOffset ← okOr ((U64.checkedMul fatBytes copyIndex).bind (U64.checkedAdd fatOffset ·))
      (.corrupt "FAT copy offset overflow")
    match reader.readVecAt copyOffset fatBytes with
    | .ok copy =>
      if rawFat ≠ copy then
        let warning := "FAT copies disagree; using the first copy"
        compareFatCopies reader fatOffset fatBytes rawFat rest false
          (if warning ∈ warnings then warnings else warnings ++ [warning])
      else compareFatCopies reader fatOffset fatBytes rawFat rest complete warnings
    | .error _ =>
      compareFatCopies reader fatOffset fatBytes rawFat rest false
        (warnings ++ [s!"FAT copy {copyIndex + 1} unreadable; using the first copy"])

structure FatScanOutput where
  boot : FatBoot
  candidates : List Candidate
  warnings : List String
  isComplete : Bool
deriving DecidableEq, Repr

/-- Scans a FAT12/16/32 volume region for deleted candidates. -/
def scanFat (reader : SourceReader) : Except ScanError FatScanOutput := do
  let sector0 ← (reader.readVecAt 0 512).mapError .read
  let boot ← FatBoot.parse sector0 reader.len
  let fatBytes := boot.fatSizeSectors * boot.bytesPerSector
  if fatBytes > maxFatReadBytes then
    throw (.corrupt s!"FAT table exceeds the {maxFatReadBytes}-byte scan bound")
  let rawFat ← (reader.readVecAt boot.fatOffset fatBytes).mapError .read
  let (isComplete, warnings) ← compareFatCopies reader boot.fatOffset fatBytes rawFat
    (List.range' 1 (boot.numFats - 1)) true []
  let ctx : ScanCtx := {
    reader, boot, fat := .fromBoot boot rawFat
    candidates := [], warnings, visitedDirClusters := [], dirsProcessed := 0, nextId := 1
    isComplete }
  let (ctx, rootData) ← readRootDir ctx
  let ctx := walkDirectory maxDirDepth ctx rootData [] true
  return {
    boot := ctx.boot
    candidates := ctx.candidates.insertionSort fun a b => a.recordRef ≤ b.recordRef
    warnings := ctx.warnings
    isComplete := ctx.isComplete }

end Undelete.Fat
