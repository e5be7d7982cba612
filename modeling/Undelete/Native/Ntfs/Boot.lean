import Undelete.Native.Core

/-!
# NTFS boot sector

Model of `crates/fs-ntfs/src/boot.rs`.
-/

namespace Undelete.Ntfs

/-- Validated NTFS boot sector parameters. -/
structure NtfsBoot where
  bytesPerSector : Nat
  sectorsPerCluster : Nat
  clusterSize : Nat
  totalSectors : Nat
  totalClusters : Nat
  mftLcn : Nat
  mftmirrLcn : Nat
  fileRecordSize : Nat
  indexRecordSize : Nat
  volumeSerial : Nat
deriving DecidableEq, Repr

/-- `u32::is_power_of_two`. -/
def isPowerOfTwo (n : Nat) : Bool := n != 0 && n &&& (n - 1) == 0

def sizeFromClustersField (raw : Int) (clusterSize : Nat) : Option Nat :=
  if raw > 0 then U64.checkedMul raw.toNat clusterSize
  else if raw < 0 then
    -- `checked_neg` fails on `i8::MIN` only
    if raw = -128 then none
    else
      let exp := (-raw).toNat
      if exp > 31 then none else some (1 <<< exp)
  else none

/-- The bound both record sizes are filtered by. -/
def plausibleRecordSize (s : Nat) : Bool := 256 ≤ s && s ≤ 65536 && isPowerOfTwo s

/-- Sectors per cluster; a raw value above `0x80` encodes a power of two. -/
def sectorsPerClusterField (spcRaw : Nat) : Except ScanError Nat :=
  if spcRaw = 0 then .error (.corrupt "zero sectors per cluster")
  else if spcRaw ≤ 0x80 then .ok spcRaw
  else
    let exp := 256 - spcRaw
    if exp > 16 then .error (.corrupt "implausible cluster exponent") else .ok (1 <<< exp)

/-- `"NTFS    "`. -/
def ntfsOemId : Bytes := [0x4E, 0x54, 0x46, 0x53, 0x20, 0x20, 0x20, 0x20]

/-- Parses and cross-validates an NTFS boot sector. -/
def NtfsBoot.parse (sector0 : Bytes) (volumeLen : Nat) : Except ScanError NtfsBoot := do
  if sector0.length < 512 then throw (.notRecognized "boot sector too small")
  if sector0.slice 3 11 ≠ ntfsOemId then throw (.notRecognized "missing NTFS OEM ID")
  if Le.u16At sector0 510 ≠ some 0xAA55 then throw (.notRecognized "missing boot signature")
  let bytesPerSector := (Le.u16At sector0 11).getD 0
  if !isPowerOfTwo bytesPerSector || !(256 ≤ bytesPerSector && bytesPerSector ≤ 4096) then
    throw (.corrupt s!"implausible bytes per sector: {bytesPerSector}")
  let sectorsPerCluster ← sectorsPerClusterField ((Le.u8At sector0 13).getD 0)
  if !isPowerOfTwo sectorsPerCluster then
    throw (.corrupt s!"sectors per cluster not a power of two: {sectorsPerCluster}")
  let clusterSize := bytesPerSector * sectorsPerCluster
  let totalSectors := (Le.u64At sector0 40).getD 0
  if totalSectors = 0 then throw (.corrupt "zero total sectors")
  let fsBytes ← okOr (U64.checkedMul totalSectors bytesPerSector) (.corrupt "total size overflow")
  if fsBytes > volumeLen then
    throw (.corrupt s!"boot sector claims {fsBytes} bytes but volume region has {volumeLen}")
  let totalClusters := totalSectors / sectorsPerCluster
  let mftLcn := (Le.u64At sector0 48).getD 0
  let mftmirrLcn := (Le.u64At sector0 56).getD 0
  if mftLcn = 0 ∨ mftLcn ≥ totalClusters then
    throw (.corrupt s!"MFT LCN {mftLcn} outside volume ({totalClusters} clusters)")
  let fileRecordSize ← okOr
    ((sizeFromClustersField ((Le.i8At sector0 64).getD 0) clusterSize).filter plausibleRecordSize)
    (.corrupt "implausible file record size")
  let indexRecordSize :=
    ((sizeFromClustersField ((Le.i8At sector0 68).getD 0) clusterSize).filter
      plausibleRecordSize).getD 4096
  let volumeSerial := (Le.u64At sector0 72).getD 0
  return { bytesPerSector, sectorsPerCluster, clusterSize, totalSectors, totalClusters, mftLcn,
           mftmirrLcn, fileRecordSize, indexRecordSize, volumeSerial }

end Undelete.Ntfs
