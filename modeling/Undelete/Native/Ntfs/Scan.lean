import Undelete.Native.Ntfs.Extents
import Undelete.Native.Ntfs.Namespace

/-!
# The NTFS scan

Model of `scan_ntfs` in `crates/fs-ntfs/src/scan.rs`: the bootstrap from record 0, the
allocation bitmap, the two MFT passes, the namespace and the candidates.
-/

namespace Undelete.Ntfs

def mftBatchBytes : Nat := 1024 * 1024

/-- The unnamed non-resident `$DATA` of record 0, which locates the MFT. -/
structure MftStream where
  runs : List RunElement
  dataSize : Nat
  initializedSize : Nat
deriving DecidableEq, Repr

/-- Reads the boot sector and record 0. -/
def bootstrap (reader : SourceReader) :
    Except ScanError (NtfsBoot × MftStream × List NtfsWarning) := do
  let sector0 ← (reader.readVecAt 0 512).mapError .read
  let boot ← NtfsBoot.parse sector0 reader.len
  let mftStart ← okOr (U64.checkedMul boot.mftLcn boot.clusterSize)
    (.corrupt "MFT byte offset overflow")
  let rec0Raw ← (reader.readVecAt mftStart boot.fileRecordSize).mapError .read
  let rec0 ← (parseFileRecord rec0Raw boot.bytesPerSector).mapError fun e =>
    .corrupt ("MFT record 0 unusable: " ++ e.debugText)
  let (attrs0, attrs0Complete) := iterAttributes rec0
  if !attrs0Complete then throw (.corrupt "MFT record 0 has malformed attributes")
  let (streams0, warnings) := extractDataStreams boot.totalClusters attrs0
  match (streams0.find? fun s => s.name.isNone).map DataStream.kind with
  | some (.nonResident dataSize initializedSize runs) =>
    if dataSize % boot.fileRecordSize ≠ 0 then
      throw (.corrupt (s!"$MFT data size {dataSize} is not aligned to the " ++
        s!"{boot.fileRecordSize}-byte file record size"))
    let minimumMftSize ← okOr (U64.checkedMul firstUserRecord boot.fileRecordSize)
      (.corrupt "minimum $MFT size overflow")
    if dataSize < minimumMftSize then
      throw (.corrupt (s!"$MFT data size {dataSize} does not cover the " ++
        s!"{firstUserRecord} reserved file records"))
    return (boot, ⟨runs, dataSize, initializedSize⟩, warnings)
  | _ => throw (.corrupt "MFT record 0 has no usable non-resident $DATA")

/-- The warning about an MFT whose trusted prefix is shorter than declared. -/
def mftPrefixWarnings (trusted : TrustedStreamPrefix) (dataSize : Nat) : List NtfsWarning :=
  if trusted.stoppedAtSparseRun then [.mftStoppedAtSparseRun trusted.len]
  else if trusted.stoppedAtUntrustedRun then [.mftStoppedAtUntrustedRun trusted.len]
  else if trusted.len < dataSize then [.mftBoundedToInitialized trusted.len dataSize]
  else []

/-! ## The allocation bitmap -/

def allocationMapFromBytes (bits : Bytes) (expectedBytes totalClusters : Nat)
    (warnings : List NtfsWarning) : AllocationMap × List NtfsWarning :=
  (AllocationMap.fromRaw bits totalClusters,
   if bits.length < expectedBytes then warnings ++ [.bitmapTruncated expectedBytes bits.length]
   else warnings)

/-- The attribute carries the name `$Bitmap` under the root directory. -/
def hasBitmapName (a : Attribute) : Bool :=
  a.typeId = attrFileName && match a.body with
    | .resident value _ => (parseFileName value).any fun name =>
      name.name = "$Bitmap" && name.parentRecord = rootRecord
    | .nonResident .. => false

/-- The `$DATA` attribute is neither compressed, encrypted nor sparse, and its sizes
    are coherent from the first cluster on. -/
def trustedDataAttribute (a : Attribute) : Bool :=
  a.flags &&& (attrFlagCompressed ||| attrFlagEncrypted ||| attrFlagSparse) = 0 &&
    match a.body with
    | .resident .. => true
    | .nonResident startingVcn dataSize initializedSize allocatedSize _ =>
      startingVcn = 0 && initializedSize ≤ dataSize && dataSize ≤ allocatedSize

/-- The single trusted unnamed `$DATA` attribute of record 6, if its record and
    stream semantics are trustworthy. -/
def trustedBitmapData (record : FileRecord) (attrs : List Attribute) : Option Attribute :=
  match attrs.filter fun a => a.typeId = attrData && a.name.isNone with
  | [data] =>
    if record.inUse && !record.isDirectory && record.baseRecord = 0 &&
        attrs.any hasBitmapName && !(attrs.any fun a => a.typeId = attrAttributeList) &&
        trustedDataAttribute data then some data
    else none
  | _ => none

/-- Reads record 6 and returns its parsed form, or the warning that says why not. -/
def readBitmapRecord (reader : SourceReader) (boot : NtfsBoot) (mftRuns : List RunElement)
    (trustedMftPrefixLen : Nat) : Except NtfsWarning (Nat × FileRecord) := do
  let recordEnd ← okOr (U64.checkedMul (bitmapRecord + 1) boot.fileRecordSize) .bitmapBeyondPrefix
  if recordEnd > trustedMftPrefixLen then throw .bitmapBeyondPrefix
  let logical ← okOr (U64.checkedMul bitmapRecord boot.fileRecordSize) .bitmapOffsetOverflow
  let raw ← (readStreamRange reader mftRuns boot.clusterSize logical boot.fileRecordSize).mapError
    fun _ => .bitmapRecordUnreadable
  let record ← (parseFileRecord raw boot.bytesPerSector).mapError fun _ => .bitmapRecordUnusable
  return (logical, record)

/-- The bits of a non-resident `$Bitmap` stream. -/
def loadNonResidentBitmap (reader : SourceReader) (boot : NtfsBoot) (dataSize initializedSize : Nat)
    (runlist : Bytes) : Option AllocationMap × List NtfsWarning :=
  let expected := (boot.totalClusters + 7) / 8
  match decodeRunlist runlist boot.totalClusters with
  | .error _ => (none, [.bitmapBoundsInvalid])
  | .ok runs =>
    match trustedPhysicalStreamPrefixLen runs boot.clusterSize reader.len dataSize
        initializedSize with
    | .error _ => (none, [.bitmapBoundsInvalid])
    | .ok trusted =>
      if trusted.len = 0 && expected > 0 then (none, [.bitmapNoTrustedData])
      else
        let warnings :=
          if trusted.stoppedAtSparseRun then [.bitmapStoppedAtSparseRun trusted.len]
          else if trusted.stoppedAtUntrustedRun then [.bitmapStoppedAtUntrustedRun trusted.len]
          else []
        let (take, warnings) := boundedBitmapReadLen expected trusted.len warnings
        match readStreamRange reader runs boot.clusterSize 0 take with
        | .ok bits =>
          let (map, warnings) := allocationMapFromBytes bits expected boot.totalClusters warnings
          (some map, warnings)
        | .error _ => (none, warnings ++ [.bitmapDataUnreadable])

/-- The bits of a resident `$Bitmap` value, re-read from the source by address. -/
def loadResidentBitmap (reader : SourceReader) (boot : NtfsBoot) (mftRuns : List RunElement)
    (logical : Nat) (value : Bytes) (valueOffsetInRecord : Nat) :
    Option AllocationMap × List NtfsWarning :=
  let expected := (boot.totalClusters + 7) / 8
  match (streamPhysOffset mftRuns boot.clusterSize logical).bind
      (U64.checkedAdd · valueOffsetInRecord) with
  | none => (none, [])
  | some phys =>
    let (take, warnings) := boundedBitmapReadLen expected value.length []
    match reader.readVecAt phys take with
    | .ok bits =>
      let (map, warnings) := allocationMapFromBytes bits expected boot.totalClusters warnings
      (some map, warnings)
    | .error _ => (none, warnings)

def loadAllocationMap (reader : SourceReader) (boot : NtfsBoot) (mftRuns : List RunElement)
    (trustedMftPrefixLen : Nat) : Option AllocationMap × List NtfsWarning :=
  match readBitmapRecord reader boot mftRuns trustedMftPrefixLen with
  | .error warning => (none, [warning])
  | .ok (logical, record) =>
    let (attrs, attrsComplete) := iterAttributes record
    if !attrsComplete then (none, [.bitmapMalformedAttributes])
    else match trustedBitmapData record attrs with
      | none => (none, [.bitmapUntrusted])
      | some data =>
        match data.body with
        | .nonResident _ dataSize initializedSize _ runlist =>
          loadNonResidentBitmap reader boot dataSize initializedSize runlist
        | .resident value valueOffsetInRecord =>
          loadResidentBitmap reader boot mftRuns logical value valueOffsetInRecord

/-! ## Candidates -/

/-- The candidate of one deleted user record that has a name. -/
def buildCandidate (entries : RecordMap ParsedEntry) (boot : NtfsBoot)
    (allocation : Option AllocationMap) (recordNo : Nat) (entry : ParsedEntry)
    (nameAttr : FileNameAttr) : Candidate :=
  let (parentPath, confidence, pathWarnings) := reconstructPath entries nameAttr recordNo
  let candWarnings := pathWarnings ++ entry.warnings
  let kind := if entry.isDirectory then CandidateKind.directory else .file
  let ((size, extents), candWarnings) :=
    if entry.isDirectory then ((0, []), candWarnings)
    else buildExtents entry boot allocation candWarnings
  { id := recordNo
    kind
    method := .ntfsMetadata
    state := deriveState kind size extents
    name := nameAttr.name
    nameCertain := true
    parentPath
    metadataConfidence := confidence
    size
    timestamps :=
      { createdMs := entry.stdInfo.createdMs
        modifiedMs := entry.stdInfo.modifiedMs
        accessedMs := entry.stdInfo.accessedMs }
    extents
    recordRef := recordNo
    sequence := some entry.sequence
    warnings := candWarnings.map NtfsWarning.text }

/-- The candidates built from the retained records marked free, by id. -/
def buildCandidates (entries : RecordMap ParsedEntry) (boot : NtfsBoot)
    (allocation : Option AllocationMap) : List Candidate :=
  (entries.toList.filterMap fun (recordNo, entry) =>
    if entry.inUse || recordNo < firstUserRecord then none
    else entry.bestName.map (buildCandidate entries boot allocation recordNo entry)).insertionSort
    fun a b => a.id ≤ b.id

structure NtfsScanCoverage where
  recordsDeclared : Nat
  recordsAvailable : Nat
  recordsExamined : Nat
  bytesDeclared : Nat
  bytesAvailable : Nat
  bytesExamined : Nat
deriving DecidableEq, Repr

structure NtfsScanOutput where
  boot : NtfsBoot
  candidates : List Candidate
  ns : NtfsNamespace
  coverage : NtfsScanCoverage
  allocation : Option AllocationMap
  warnings : List NtfsWarning
  isComplete : Bool

/-- What the scan knows before the MFT passes. -/
structure ScanPlan where
  boot : NtfsBoot
  mft : MftStream
  trustedLen : Nat
  recordCount : Nat
  isComplete : Bool
  allocation : Option AllocationMap
  coverage : NtfsScanCoverage
  warnings : List NtfsWarning

/-- The part of the scan up to the MFT passes. -/
def planScan (reader : SourceReader) : Except ScanError ScanPlan := do
  let (boot, mft, warnings) ← bootstrap reader
  let recordSize := boot.fileRecordSize
  let trusted ← trustedPhysicalStreamPrefixLen mft.runs boot.clusterSize reader.len mft.dataSize
    mft.initializedSize
  let warnings := warnings ++ mftPrefixWarnings trusted mft.dataSize
  let (recordCount, warnings) ← boundedMftRecordCount trusted.len recordSize warnings
  let isComplete := trusted.len ≥ mft.dataSize && !(recordCount < trusted.len / recordSize)
  let (allocation, bitmapWarnings) := loadAllocationMap reader boot mft.runs trusted.len
  let recordsAvailable := trusted.len / recordSize
  let bytesAvailable ← okOr (U64.checkedMul recordsAvailable recordSize)
    (.corrupt "available MFT byte count overflow")
  let bytesExamined ← okOr (U64.checkedMul recordCount recordSize)
    (.corrupt "examined MFT byte count overflow")
  return {
    boot, mft, trustedLen := trusted.len, recordCount, isComplete, allocation
    coverage := {
      recordsDeclared := mft.dataSize / recordSize
      recordsAvailable
      recordsExamined := recordCount
      bytesDeclared := mft.dataSize
      bytesAvailable, bytesExamined }
    warnings := warnings ++ bitmapWarnings }

/-- The state the first pass starts from. -/
def initialMftState (plan : ScanPlan) : MftState where
  entries := .empty
  extensionData := .empty
  ledger := ⟨{}, plan.isComplete, plan.warnings⟩
  warningBudget := {}

/-- `MFT_BATCH_BYTES / record_size`, at least one. -/
def recordsPerBatch (recordSize : Nat) : Nat := max (mftBatchBytes / recordSize) 1

/-- The state after both MFT passes. -/
def scanRecords (reader : SourceReader) (plan : ScanPlan) : Except ScanError MftState :=
  (mergePass reader plan.boot plan.mft.runs ·) <$>
    mftPass reader plan.boot plan.mft.runs plan.recordCount
      (recordsPerBatch plan.boot.fileRecordSize) (initialMftState plan)

/-- Scans an NTFS volume region for deleted (and orphaned) candidates. -/
def scanNtfs (reader : SourceReader) : Except ScanError NtfsScanOutput := do
  let plan ← planScan reader
  let st ← scanRecords reader plan
  let warnings := st.warningBudget.finish st.ledger.warnings
  let (ns, namespaceWarnings) := buildNamespace st.entries st.ledger.isComplete
  return {
    boot := plan.boot
    candidates := buildCandidates st.entries plan.boot plan.allocation
    ns
    coverage := plan.coverage
    allocation := plan.allocation
    warnings := warnings ++ namespaceWarnings
    isComplete := ns.isComplete }

end Undelete.Ntfs
