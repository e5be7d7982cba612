import Undelete.Native.Ntfs.Warning

/-!
# Reading through a run list

Model of the stream helpers of `crates/fs-ntfs/src/scan.rs`: mapping a logical
range of a non-resident stream to the source, and the prefix of a stream that is
physically present.
-/

namespace Undelete.Ntfs

/-- `take` bytes of a run, `within` bytes into it; sparse bytes are the buffer's zeros. -/
def readRunPiece (reader : SourceReader) (clusterSize : Nat) (run : RunElement)
    (within take : Nat) : Except ScanError Bytes :=
  match run.lcn with
  | some lcn => do
    let phys ← okOr ((U64.checkedMul lcn clusterSize).bind (U64.checkedAdd · within))
      (.corrupt "stream offset overflow")
    (reader.readExactAt phys take).mapError .read
  | none => .ok (List.replicate take 0)

/-- The run loop of `read_stream_range`. `out` is the filled part of the buffer, so
    its length is `filled` of the source. -/
def readRuns (reader : SourceReader) (clusterSize logicalOffset len : Nat) :
    List RunElement → Nat → Bytes → Except ScanError Bytes
  | [], _, out => .ok out
  | run :: runs, streamPos, out => do
    let runLen ← okOr (U64.checkedMul run.clusterCount clusterSize)
      (.corrupt "stream run length overflow")
    let runEnd ← okOr (U64.checkedAdd streamPos runLen) (.corrupt "stream logical range overflow")
    let wantStart ← okOr (U64.checkedAdd logicalOffset out.length)
      (.corrupt "stream requested range overflow")
    if wantStart ≥ runEnd ∨ out.length ≥ len then
      readRuns reader clusterSize logicalOffset len runs runEnd out
    else if wantStart < streamPos then throw (.corrupt "non-contiguous stream mapping")
    else
      let within := wantStart - streamPos
      let take := min (runLen - within) (len - out.length)
      let piece ← readRunPiece reader clusterSize run within take
      if (out ++ piece).length ≥ len then return out ++ piece
      readRuns reader clusterSize logicalOffset len runs runEnd (out ++ piece)

/-- Reads a logical byte range of a non-resident stream by mapping through runs. -/
def readStreamRange (reader : SourceReader) (runs : List RunElement)
    (clusterSize logicalOffset len : Nat) : Except ScanError Bytes := do
  let out ← readRuns reader clusterSize logicalOffset len runs 0 []
  if out.length < len then
    throw (.corrupt s!"stream ended early: wanted {len}, got {out.length}")
  return out

/-- The loop of `stream_phys_offset`. -/
def physOffsetFrom (clusterSize logicalOffset : Nat) : List RunElement → Nat → Option Nat
  | [], _ => none
  | run :: runs, streamPos => do
    let runLen ← U64.checkedMul run.clusterCount clusterSize
    let runEnd ← U64.checkedAdd streamPos runLen
    if logicalOffset < runEnd then
      let lcn ← run.lcn
      U64.checkedAdd (← U64.checkedMul lcn clusterSize) (logicalOffset - streamPos)
    else physOffsetFrom clusterSize logicalOffset runs runEnd

/-- Maps a logical stream offset to a physical offset (for record addressing). -/
def streamPhysOffset (runs : List RunElement) (clusterSize logicalOffset : Nat) : Option Nat :=
  physOffsetFrom clusterSize logicalOffset runs 0

structure TrustedStreamPrefix where
  len : Nat
  stoppedAtUntrustedRun : Bool
  stoppedAtSparseRun : Bool
deriving DecidableEq, Repr

/-- The run loop of `trusted_physical_stream_prefix_len`. -/
def trustedPrefixFrom (clusterSize sourceLen logicalLimit : Nat) :
    List RunElement → Nat → Except ScanError TrustedStreamPrefix
  | [], trustedLen => .ok ⟨trustedLen, trustedLen < logicalLimit, false⟩
  | run :: runs, trustedLen => do
    if trustedLen ≥ logicalLimit then return ⟨trustedLen, trustedLen < logicalLimit, false⟩
    let runLen ← okOr (U64.checkedMul run.clusterCount clusterSize)
      (.corrupt "stream run coverage overflow")
    let take := min runLen (logicalLimit - trustedLen)
    match run.lcn with
    | none => return ⟨trustedLen, true, true⟩
    | some lcn =>
      let physicalStart ← okOr (U64.checkedMul lcn clusterSize)
        (.corrupt "stream physical offset overflow")
      let physicalEnd ← okOr (U64.checkedAdd physicalStart take)
        (.corrupt "stream physical range overflow")
      if physicalEnd > sourceLen then return ⟨trustedLen, true, false⟩
      let trustedLen ← okOr (U64.checkedAdd trustedLen take)
        (.corrupt "trusted stream prefix overflow")
      trustedPrefixFrom clusterSize sourceLen logicalLimit runs trustedLen

def trustedPhysicalStreamPrefixLen (runs : List RunElement)
    (clusterSize sourceLen dataSize initializedSize : Nat) :
    Except ScanError TrustedStreamPrefix := do
  if clusterSize = 0 then throw (.corrupt "zero stream cluster size")
  trustedPrefixFrom clusterSize sourceLen (min dataSize initializedSize) runs 0

def boundedMftRecordCount (initializedStreamLen recordSize : Nat) (warnings : List NtfsWarning) :
    Except ScanError (Nat × List NtfsWarning) := do
  if recordSize = 0 then throw (.corrupt "zero MFT record size")
  let availableRecords := initializedStreamLen / recordSize
  let bounded := min availableRecords maxMftRecords
  if bounded < availableRecords then
    return (bounded, warnings ++ [.mftWorkBudget bounded availableRecords])
  return (bounded, warnings)

def boundedBitmapReadLen (expectedBytes trustedBytes : Nat) (warnings : List NtfsWarning) :
    Nat × List NtfsWarning :=
  let available := min expectedBytes trustedBytes
  let bounded := min available maxBitmapReadBytes
  if bounded < available then (bounded, warnings ++ [.bitmapReadBudget expectedBytes])
  else (bounded, warnings)

end Undelete.Ntfs
