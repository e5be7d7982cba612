import Undelete.Native.Core

/-!
# FAT boot sector and file allocation table

Model of `crates/fs-fat/src/boot.rs` and `crates/fs-fat/src/fat.rs`.
-/

namespace Undelete.Fat

inductive FatVariant where
  | fat12 | fat16 | fat32
deriving DecidableEq, Repr

/-- Validated BPB parameters and derived layout. -/
structure FatBoot where
  variant : FatVariant
  bytesPerSector : Nat
  sectorsPerCluster : Nat
  clusterSize : Nat
  reservedSectors : Nat
  numFats : Nat
  fatSizeSectors : Nat
  totalSectors : Nat
  rootEntries : Nat
  rootCluster : Nat
  fatOffset : Nat
  rootDirOffset : Nat
  rootDirBytes : Nat
  dataOffset : Nat
  clusterCount : Nat
deriving DecidableEq, Repr

/-- `u32::is_power_of_two`. -/
def isPowerOfTwo (n : Nat) : Bool := n != 0 && n &&& (n - 1) == 0

def FatBoot.parse (sector0 : Bytes) (volumeLen : Nat) : Except ScanError FatBoot := do
  if sector0.length < 512 then throw (.notRecognized "boot sector too small")
  if Le.u16At sector0 510 ≠ some 0xAA55 then throw (.notRecognized "missing boot signature")
  let bytesPerSector := (Le.u16At sector0 11).getD 0
  if !isPowerOfTwo bytesPerSector || !(512 ≤ bytesPerSector && bytesPerSector ≤ 4096) then
    throw (.notRecognized s!"implausible bytes per sector {bytesPerSector}")
  let sectorsPerCluster := (Le.u8At sector0 13).getD 0
  if !isPowerOfTwo sectorsPerCluster || sectorsPerCluster > 128 then
    throw (.notRecognized "implausible sectors per cluster")
  let reservedSectors := (Le.u16At sector0 14).getD 0
  let numFats := (Le.u8At sector0 16).getD 0
  if reservedSectors = 0 ∨ numFats = 0 ∨ numFats > 4 then
    throw (.notRecognized "implausible reserved/FAT count")
  let rootEntries := (Le.u16At sector0 17).getD 0
  let total16 := (Le.u16At sector0 19).getD 0
  let fatSize16 := (Le.u16At sector0 22).getD 0
  let total32 := (Le.u32At sector0 32).getD 0
  let totalSectors := if total16 ≠ 0 then total16 else total32
  if totalSectors = 0 then throw (.notRecognized "zero total sectors")
  let fsBytes ← okOr (U64.checkedMul totalSectors bytesPerSector) (.corrupt "size overflow")
  if fsBytes > volumeLen then
    throw (.corrupt s!"BPB claims {fsBytes} bytes but region has {volumeLen}")
  let fatSize32 := (Le.u32At sector0 36).getD 0
  let fatSizeSectors := if fatSize16 ≠ 0 then fatSize16 else fatSize32
  if fatSizeSectors = 0 then throw (.notRecognized "zero FAT size")
  let fatOffset := reservedSectors * bytesPerSector
  let fatsBytes := numFats * fatSizeSectors * bytesPerSector
  let rootDirOffset := fatOffset + fatsBytes
  let rootDirBytes := (rootEntries * 32 + bytesPerSector - 1) / bytesPerSector * bytesPerSector
  let dataOffset := rootDirOffset + rootDirBytes
  if dataOffset ≥ fsBytes then throw (.corrupt "data region starts past volume end")
  let clusterSize := bytesPerSector * sectorsPerCluster
  let clusterCount := (fsBytes - dataOffset) / clusterSize
  if clusterCount = 0 then throw (.corrupt "no data clusters")
  let variant :=
    if clusterCount < 4085 then FatVariant.fat12
    else if clusterCount < 65525 then .fat16
    else .fat32
  let rootCluster := (Le.u32At sector0 44).getD 0
  if variant = .fat32 then
    if rootEntries ≠ 0 ∨ fatSize16 ≠ 0 then
      throw (.corrupt "FAT32 volume with FAT12/16-style root directory fields")
    if rootCluster < 2 ∨ rootCluster ≥ clusterCount + 2 then
      throw (.corrupt "FAT32 root cluster out of range")
  else if rootEntries = 0 then throw (.corrupt "FAT12/16 volume without root entries")
  return { variant, bytesPerSector, sectorsPerCluster, clusterSize, reservedSectors, numFats,
           fatSizeSectors, totalSectors, rootEntries, rootCluster, fatOffset, rootDirOffset,
           rootDirBytes, dataOffset, clusterCount }

/-- Byte offset of a data cluster (numbered from 2). -/
def FatBoot.clusterOffset (boot : FatBoot) (cluster : Nat) : Option Nat :=
  if cluster < 2 ∨ cluster ≥ boot.clusterCount + 2 then none
  else some (boot.dataOffset + (cluster - 2) * boot.clusterSize)

/-- An in-memory copy of the file allocation table. -/
structure FatTable where
  variant : FatVariant
  raw : Bytes
  clusterCount : Nat
deriving DecidableEq, Repr

inductive FatEntry where
  | free | next (cluster : Nat) | endOfChain | bad | reserved
deriving DecidableEq, Repr

namespace FatTable

def fromBoot (boot : FatBoot) (raw : Bytes) : FatTable := ⟨boot.variant, raw, boot.clusterCount⟩

/-- Raw entry value for a cluster, `none` when out of table bounds. -/
def rawEntry (t : FatTable) (c : Nat) : Option Nat :=
  match t.variant with
  | .fat12 => do
    let off := c + c / 2
    let lo ← Le.u8At t.raw off
    let hi ← Le.u8At t.raw (off + 1)
    let v := lo ||| (hi <<< 8)
    return if c % 2 = 0 then v &&& 0x0FFF else v >>> 4
  | .fat16 => do
    let lo ← Le.u8At t.raw (c * 2)
    let hi ← Le.u8At t.raw (c * 2 + 1)
    return lo ||| (hi <<< 8)
  | .fat32 => (Le.u32At t.raw (c * 4)).map (· &&& 0x0FFFFFFF)

def badValue : FatVariant → Nat
  | .fat12 => 0x0FF7
  | .fat16 => 0xFFF7
  | .fat32 => 0x0FFFFFF7

def eocMin : FatVariant → Nat
  | .fat12 => 0x0FF8
  | .fat16 => 0xFFF8
  | .fat32 => 0x0FFFFFF8

def entry (t : FatTable) (cluster : Nat) : Option FatEntry :=
  if cluster ≥ t.clusterCount + 2 then none
  else (t.rawEntry cluster).map fun v =>
    if v = 0 then .free
    else if v = badValue t.variant then .bad
    else if v ≥ eocMin t.variant then .endOfChain
    else if v = 1 then .reserved
    else .next v

def isFree (t : FatTable) (cluster : Nat) : Option Bool :=
  (t.entry cluster).map fun e => decide (e = .free)

/-- The loop of `chain`; the first argument is the number of iterations left and
    `visited` holds the clusters already in the chain. -/
def chainFrom (t : FatTable) : Nat → Nat → List Nat → List Nat × Bool
  | 0, _, _ => ([], false)
  | left + 1, current, visited =>
    if current < 2 ∨ current ≥ t.clusterCount + 2 then ([], false)
    else if current ∈ visited then ([], false)
    else match t.entry current with
      | some (.next n) =>
        let (rest, complete) := chainFrom t left n (current :: visited)
        (current :: rest, complete)
      | some .endOfChain => ([current], true)
      | _ => ([current], false)

/-- Follows a cluster chain with loop protection. The flag is false when the chain
    hit a loop, a bad or free entry or the volume bounds before end-of-chain. -/
def chain (t : FatTable) (start maxClusters : Nat) : List Nat × Bool :=
  t.chainFrom (min maxClusters t.clusterCount) start []

end FatTable

end Undelete.Fat
