import Undelete.Native.Core

/-!
# MFT file records

Model of `crates/fs-ntfs/src/record.rs`: the update-sequence-array fixups and the
FILE record header.
-/

namespace Undelete.Ntfs

/-- A FILE record header with the record bytes after fixups. -/
structure FileRecord where
  data : Bytes
  sequence : Nat
  hardLinkCount : Nat
  attrsOffset : Nat
  inUse : Bool
  isDirectory : Bool
  bytesUsed : Nat
  baseRecord : Nat
deriving DecidableEq, Repr

inductive RecordParseError where
  /-- Not a FILE record at all. -/
  | notAFileRecord
  /-- FILE signature present but structure is broken. -/
  | corrupt (message : String)
  /-- The record was partially overwritten sector-wise. -/
  | fixupMismatch
deriving DecidableEq, Repr

/-- The derived `Debug` text of the error. -/
def RecordParseError.debugText : RecordParseError → String
  | .notAFileRecord => "NotAFileRecord"
  | .corrupt message => "Corrupt(\"" ++ message ++ "\")"
  | .fixupMismatch => "FixupMismatch"

/-- `"FILE"`. -/
def fileSignature : Bytes := [0x46, 0x49, 0x4C, 0x45]

/-- One step of the fixup loop: block `i` must end with the update sequence
    number, which is replaced by the `i`-th entry of the array in `raw`. -/
def applyFixup (raw : Bytes) (sector usaOffset : Nat) (data : Bytes) (i : Nat) :
    Except RecordParseError Bytes :=
  let sectorEnd := i * sector
  if sectorEnd > data.length then .error (.corrupt "USA covers more than record")
  else if data.slice (sectorEnd - 2) sectorEnd ≠ raw.slice usaOffset (usaOffset + 2) then
    .error .fixupMismatch
  else
    let fixupPos := usaOffset + i * 2
    .ok ((data.set (sectorEnd - 2) (raw.getD fixupPos 0)).set (sectorEnd - 1)
      (raw.getD (fixupPos + 1) 0))

/-- The fixup loop over the blocks `1 .. usaCount`. -/
def applyFixups (raw : Bytes) (sector usaOffset usaCount : Nat) : Except RecordParseError Bytes :=
  (List.range' 1 (usaCount - 1)).foldlM (applyFixup raw sector usaOffset) raw

def usaOffsetOf (raw : Bytes) : Nat := (Le.u16At raw 4).getD 0
def usaCountOf (raw : Bytes) : Nat := (Le.u16At raw 6).getD 0

/-- Parses one MFT record, applying the update-sequence-array fixups. -/
def parseFileRecord (raw : Bytes) (bytesPerSector : Nat) : Except RecordParseError FileRecord := do
  if raw.length < 42 ∨ raw.slice 0 4 ≠ fileSignature then throw .notAFileRecord
  let usaOffset := usaOffsetOf raw
  let usaCount := usaCountOf raw
  let expectedCount := raw.length / bytesPerSector + 1
  if usaCount = 0 ∨ usaCount > expectedCount then
    throw (.corrupt s!"implausible USA count {usaCount}")
  if usaOffset + usaCount * 2 > raw.length then throw (.corrupt "USA outside record")
  let data ← applyFixups raw bytesPerSector usaOffset usaCount
  let sequence := (Le.u16At data 16).getD 0
  let hardLinkCount := (Le.u16At data 18).getD 0
  let attrsOffset := (Le.u16At data 20).getD 0
  let flags := (Le.u16At data 22).getD 0
  let bytesUsed := (Le.u32At data 24).getD 0
  let baseRecord := (Le.u64At data 32).getD 0 &&& 0x0000FFFFFFFFFFFF
  if attrsOffset ≥ data.length ∨ bytesUsed > data.length then
    throw (.corrupt "header offsets out of bounds")
  return { data, sequence, hardLinkCount, attrsOffset, inUse := flags &&& 0x0001 != 0,
           isDirectory := flags &&& 0x0002 != 0, bytesUsed, baseRecord }

end Undelete.Ntfs
