import Undelete.Native.Carve.Scan

/-!
# Master boot records

Model of `crates/partition/src/mbr.rs` and of `check_overlaps` in `lib.rs`: the four entries
of the first sector, and the linked list of extended boot records behind each extended one.
A warning is one constructor; `MbrWarning.text` is the string the source pushes.
-/

namespace Undelete.Partition

def mbrSignatureOffset : Nat := 510
def entryTableOffset : Nat := 446
def entrySize : Nat := 16
def maxEbrChain : Nat := 128

def mbrTypeDescription (t : Nat) : String :=
  if t = 0x01 then "FAT12"
  else if t = 0x04 ∨ t = 0x06 ∨ t = 0x0E then "FAT16"
  else if t = 0x05 ∨ t = 0x0F then "Extended"
  else if t = 0x07 then "NTFS/exFAT (IFS)"
  else if t = 0x0B ∨ t = 0x0C then "FAT32"
  else if t = 0x82 then "Linux swap"
  else if t = 0x83 then "Linux"
  else if t = 0xEE then "GPT protective"
  else if t = 0xEF then "EFI system"
  else "Unknown"

structure RawEntry where
  partType : Nat
  lbaStart : Nat
  sectors : Nat
deriving DecidableEq, Repr

/-- An entry of type 5 or 15 leads to a chain. -/
def RawEntry.isExtended (e : RawEntry) : Bool := e.partType = 0x05 ∨ e.partType = 0x0F

/-- One round of the loop of `parse_entries`. -/
def parseEntry (sectorBuf : Bytes) (i : Nat) : Option RawEntry := do
  let base := entryTableOffset + i * entrySize
  let partType ← Le.u8At sectorBuf (base + 4)
  let lbaStart ← Le.u32At sectorBuf (base + 8)
  let sectors ← Le.u32At sectorBuf (base + 12)
  return { partType, lbaStart, sectors }

def parseEntries (sectorBuf : Bytes) : Option (Vector RawEntry 4) := do
  let signature ← Le.u16At sectorBuf mbrSignatureOffset
  if signature ≠ 0xAA55 then none
  else
    let e0 ← parseEntry sectorBuf 0
    let e1 ← parseEntry sectorBuf 1
    let e2 ← parseEntry sectorBuf 2
    let e3 ← parseEntry sectorBuf 3
    return #v[e0, e1, e2, e3]

def boundedSectorOffset (lba sector readLen sourceLen : Nat) : Option Nat := do
  let offset ← U64.checkedMul lba sector
  let stop ← U64.checkedAdd offset readLen
  if stop ≤ sourceLen then some offset else none

/-! ## Partition tables -/

/-- `Region::new`. -/
def newRegion (offset len : Nat) : Option Region :=
  if h : offset + len < 2 ^ 64 then some ⟨offset, len, h⟩ else none

/-- Whether `Region::intersect` is not `None`. -/
def Intersects (a b : Region) : Prop := max a.offset b.offset < min a.stop b.stop

instance (a b : Region) : Decidable (Intersects a b) :=
  inferInstanceAs (Decidable (max a.offset b.offset < min a.stop b.stop))

structure PartitionEntry where
  index : Nat
  region : Region
  mbrType : Option Nat
  typeGuid : Option String
  name : Option String
  typeDescription : String
deriving DecidableEq, Repr

inductive MbrWarning where
  | lbaOverflows (lba : Nat)
  | sizeOverflows (lba : Nat)
  | exceedsSource (lba sectors : Nat)
  | ebrLoop
  | ebrOutside
  | ebrUnreadable
  | ebrNoSignature
  | overlap (first second : Nat)
deriving DecidableEq, Repr

def MbrWarning.text : MbrWarning → String
  | .lbaOverflows lba => s!"partition LBA {lba} overflows"
  | .sizeOverflows lba => s!"partition size at LBA {lba} overflows"
  | .exceedsSource lba sectors =>
    s!"partition at LBA {lba} ({sectors} sectors) exceeds source bounds; ignored"
  | .ebrLoop => "EBR chain loop detected; chain truncated"
  | .ebrOutside => "EBR outside source bounds; chain truncated"
  | .ebrUnreadable => "EBR unreadable; chain truncated"
  | .ebrNoSignature => "EBR missing signature; chain truncated"
  | .overlap first second => s!"partitions {first} and {second} overlap"

inductive PartitionTableKind where
  | mbr
  | gpt
deriving DecidableEq, Repr

structure PartitionTable where
  kind : PartitionTableKind
  partitions : List PartitionEntry
  warnings : List MbrWarning
deriving DecidableEq, Repr

/-- `check_overlaps`: the warnings of all pairs, in the order of the two loops. -/
def checkOverlaps : List PartitionEntry → List MbrWarning
  | [] => []
  | a :: parts =>
    (parts.filter fun b => Intersects a.region b.region).map (fun b => .overlap a.index b.index) ++
      checkOverlaps parts

/-! ## The parser -/

/-- The variables of `parse_mbr` that its loops change. -/
structure MbrState where
  partitions : List PartitionEntry
  warnings : List MbrWarning
  index : Nat
deriving DecidableEq, Repr

def MbrState.warn (st : MbrState) (warning : MbrWarning) : MbrState :=
  { st with warnings := st.warnings ++ [warning] }

/-- The `push_partition` closure. -/
def pushPartition (sector sourceLen lba sectors partType : Nat) (st : MbrState) : MbrState :=
  match U64.checkedMul lba sector with
  | none => st.warn (.lbaOverflows lba)
  | some offset =>
    match U64.checkedMul sectors sector with
    | none => st.warn (.sizeOverflows lba)
    | some len =>
      match newRegion offset len with
      | some r =>
        -- an index is used up only by a partition that is kept
        if r.stop ≤ sourceLen ∧ r.len ≠ 0 then
          { st with
            partitions := st.partitions ++ [{
              index := st.index
              region := r
              mbrType := some partType
              typeGuid := none
              name := none
              typeDescription := mbrTypeDescription partType }]
            index := st.index + 1 }
        else st.warn (.exceedsSource lba sectors)
      | none => st.warn (.exceedsSource lba sectors)

/-- The loop over the primary entries: the state, and the bases of the extended chains. -/
def pushPrimaries (sector sourceLen : Nat) :
    List RawEntry → MbrState → List Nat → MbrState × List Nat
  | [], st, extendedChains => (st, extendedChains)
  | e :: entries, st, extendedChains =>
    if e.partType = 0 ∨ e.sectors = 0 then pushPrimaries sector sourceLen entries st extendedChains
    else if e.isExtended then
      pushPrimaries sector sourceLen entries st (extendedChains ++ [e.lbaStart])
    else
      pushPrimaries sector sourceLen entries
        (pushPartition sector sourceLen e.lbaStart e.sectors e.partType st) extendedChains

/-- The first entry of the boot record at `current`. -/
def pushLogical (sector sourceLen current : Nat) (e0 : RawEntry) (st : MbrState) : MbrState :=
  if e0.partType ≠ 0 ∧ e0.sectors ≠ 0 then
    match U64.checkedAdd current e0.lbaStart with
    | some lba => pushPartition sector sourceLen lba e0.sectors e0.partType st
    | none => st
  else st

/-- The boot record that the second entry links to. -/
def nextEbr (extBase : Nat) (e1 : RawEntry) : Option Nat :=
  if e1.isExtended ∧ e1.sectors ≠ 0 then U64.checkedAdd extBase e1.lbaStart else none

/-- The inner loop of `parse_mbr`, `rounds` rounds of it. -/
def followChain (reader : SourceReader) (sector extBase : Nat) :
    Nat → List Nat → Nat → MbrState → MbrState
  | 0, _, _, st => st
  | rounds + 1, visited, current, st =>
    if current ∈ visited then st.warn .ebrLoop
    else
      match boundedSectorOffset current sector 512 reader.len with
      | none => st.warn .ebrOutside
      | some ebrOff =>
        match reader.readVecAt ebrOff 512 with
        | .error _ => st.warn .ebrUnreadable
        | .ok ebr =>
          match parseEntries ebr with
          | none => st.warn .ebrNoSignature
          | some ebrEntries =>
            let st := pushLogical sector reader.len current ebrEntries[0] st
            match nextEbr extBase ebrEntries[1] with
            | some next => followChain reader sector extBase rounds (current :: visited) next st
            | none => st

def followChains (reader : SourceReader) (sector : Nat) (extendedChains : List Nat)
    (st : MbrState) : MbrState :=
  extendedChains.foldl (fun st extBase =>
    followChain reader sector extBase maxEbrChain [] extBase st) st

/-- `sector` is the logical sector size of the reader's layout. -/
def parseMbr (reader : SourceReader) (sector : Nat) : Except ScanError PartitionTable := do
  let buf ← (reader.readVecAt 0 (max sector 512)).mapError ScanError.read
  let entries ← okOr (parseEntries buf) (.notRecognized "no MBR signature")
  if entries.toList.any fun entry => entry.partType = 0xEE then
    throw (.corrupt "protective MBR present without a usable GPT copy")
  let (st, extendedChains) := pushPrimaries sector reader.len entries.toList ⟨[], [], 0⟩ []
  let st := followChains reader sector extendedChains st
  if st.partitions.isEmpty then
    throw (.notRecognized "MBR signature present but no usable partitions")
  return ⟨.mbr, st.partitions, st.warnings ++ checkOverlaps st.partitions⟩

end Undelete.Partition
