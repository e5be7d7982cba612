import Undelete.Native.Ntfs.Mft

/-!
# Extents of a deleted file

Model of `build_extents` and its helpers in `crates/fs-ntfs/src/scan.rs`. The
arithmetic the source leaves unchecked wraps modulo `2 ^ 64`.
-/

namespace Undelete.Ntfs

open U64 (wrappingAdd wrappingMul)

def availabilityOf : Option Bool → ExtentAvailability
  | some true => .currentlyAllocated
  | some false => .freeInSnapshot
  | none => .unknown

/-- The extent of the clusters `groupStart ≤ k < stop` of a physical run. -/
def groupExtent (logicalStart lcn byteLen clusterSize groupStart stop : Nat)
    (status : Option Bool) : ExtentRun :=
  let startByte := wrappingMul groupStart clusterSize
  let endByte := min (wrappingMul stop clusterSize) byteLen
  { logicalOffset := wrappingAdd logicalStart startByte
    physicalOffset := some (wrappingMul (wrappingAdd lcn groupStart) clusterSize)
    len := endByte - startByte
    availability := availabilityOf status }

/-- The group loop of `split_by_allocation`: cluster `i` of the run is next, and the
    clusters from `groupStart` on have status `groupStatus`. `left` counts the
    clusters up to and including the flush of the last group. -/
def splitGroups (map : AllocationMap) (logicalStart lcn byteLen clusterSize clusterCount : Nat) :
    Nat → Nat → Nat → Option Bool → List ExtentRun
  | 0, _, _, _ => []
  | left + 1, i, groupStart, groupStatus =>
    let status := if i < clusterCount then map.isAllocated (wrappingAdd lcn i) else none
    if i = clusterCount ∨ status ≠ groupStatus then
      groupExtent logicalStart lcn byteLen clusterSize groupStart i groupStatus ::
      splitGroups map logicalStart lcn byteLen clusterSize clusterCount left (i + 1) i status
    else
      splitGroups map logicalStart lcn byteLen clusterSize clusterCount left (i + 1) groupStart
        groupStatus

/-- Splits a physical run into extents grouped by cluster-allocation status. -/
def splitByAllocation (logicalStart lcn byteLen clusterSize : Nat)
    (allocation : Option AllocationMap) : List ExtentRun :=
  match allocation with
  | none => [⟨logicalStart, some (wrappingMul lcn clusterSize), byteLen, .unknown⟩]
  | some map =>
    let clusterCount := (byteLen + clusterSize - 1) / clusterSize
    splitGroups map logicalStart lcn byteLen clusterSize clusterCount clusterCount 1 0
      (map.isAllocated lcn)

/-- The run loop of `build_extents`. -/
def runExtents (clusterSize dataSize : Nat) (allocation : Option AllocationMap) :
    List RunElement → Nat → List ExtentRun
  | [], _ => []
  | run :: runs, logical =>
    if logical ≥ dataSize then []
    else
      let runBytes := wrappingMul run.clusterCount clusterSize
      let take := min runBytes (dataSize - logical)
      let extents := match run.lcn with
        | none => [⟨logical, none, take, .sparse⟩]
        | some lcn => splitByAllocation logical lcn take clusterSize allocation
      extents ++ runExtents clusterSize dataSize allocation runs (wrappingAdd logical take)

/-- The pieces of one extent below and above the initialized boundary. -/
def splitExtentAtInitialized (initializedEnd dataSize : Nat) (extent : ExtentRun) :
    List ExtentRun :=
  let start := extent.logicalOffset
  let stop := min (U64.saturatingAdd start extent.len) dataSize
  if start ≥ stop then []
  else
    let initializedExtentEnd := min stop initializedEnd
    let tailStart := max start initializedEnd
    (if start < initializedExtentEnd then [{ extent with len := initializedExtentEnd - start }]
     else []) ++
    (if tailStart < stop then [⟨tailStart, none, stop - tailStart, .sparse⟩] else [])

/-- Clips extents to the logical data size and represents every byte after the
    initialized boundary as a logical sparse range. -/
def splitAtInitializedSize (extents : List ExtentRun) (initializedSize dataSize : Nat) :
    List ExtentRun :=
  extents.flatMap (splitExtentAtInitialized (min initializedSize dataSize) dataSize)

/-- The unnamed stream `build_extents` recovers. -/
def mainStream (entry : ParsedEntry) : Option DataStream :=
  entry.streams.find? fun s => s.name.isNone

/-- The size and extents of the main stream. -/
def streamExtents (main : DataStream) (recordPhysOffset : Nat) (boot : NtfsBoot)
    (allocation : Option AllocationMap) : Nat × List ExtentRun :=
  if main.flags &&& attrFlagCompressed ≠ 0 then
    match main.kind with
    | .nonResident dataSize _ _ => (dataSize, [])
    | .resident _ len => (len, [])
  else match main.kind with
    | .resident valueOffsetInRecord len =>
      (len, [⟨0, some (wrappingAdd recordPhysOffset valueOffsetInRecord), len, .resident⟩])
    | .nonResident dataSize initializedSize runs =>
      (dataSize, splitAtInitializedSize (runExtents boot.clusterSize dataSize allocation runs 0)
        initializedSize dataSize)

/-- The findings `build_extents` appends to the candidate's warnings. -/
def extentWarnings (entry : ParsedEntry) : List NtfsWarning :=
  let adsCount := (entry.streams.filter fun s => s.name.isSome).length
  (if adsCount > 0 then [.alternateDataStreams adsCount] else []) ++
  match mainStream entry with
  | none => []
  | some main =>
    (if main.flags &&& attrFlagEncrypted ≠ 0 then [.encryptedContent] else []) ++
    (if main.flags &&& attrFlagCompressed ≠ 0 then [.compressedContent] else [])

/-- Builds availability-classified extents for the unnamed data stream. -/
def buildExtents (entry : ParsedEntry) (boot : NtfsBoot) (allocation : Option AllocationMap)
    (warnings : List NtfsWarning) : (Nat × List ExtentRun) × List NtfsWarning :=
  (match mainStream entry with
    | none => (0, [])
    | some main => streamExtents main entry.recordPhysOffset boot allocation,
   warnings ++ extentWarnings entry)

def deriveState (kind : CandidateKind) (size : Nat) (extents : List ExtentRun) : CandidateState :=
  if kind = .directory then .exactEvidence
  else if size = 0 then .completeUnvalidated
  else if extents.isEmpty then .metadataOnly
  else
    let covered := (extents.map (·.len)).foldl wrappingAdd 0
    let anyConflict := extents.any fun e => e.availability = .currentlyAllocated
    let anyReadError := extents.any fun e => e.availability = .readFailed
    if anyReadError then .readErrorState
    else if anyConflict then .conflicted
    else if covered < size then .partialContent
    else .completeUnvalidated

end Undelete.Ntfs
