import Undelete.Native.Ntfs.Record
import Undelete.Native.Ntfs.Runs
import Undelete.Native.Ntfs.Warning

/-!
# NTFS attributes

Model of `crates/fs-ntfs/src/attr.rs`.
-/

namespace Undelete.Ntfs

def attrStandardInformation : Nat := 0x10
def attrAttributeList : Nat := 0x20
def attrFileName : Nat := 0x30
def attrData : Nat := 0x80
def attrEnd : Nat := 0xFFFFFFFF

def attrFlagCompressed : Nat := 0x0001
def attrFlagEncrypted : Nat := 0x4000
def attrFlagSparse : Nat := 0x8000

inductive AttrBody where
  | resident (value : Bytes) (valueOffsetInRecord : Nat)
  | nonResident (startingVcn dataSize initializedSize allocatedSize : Nat) (runlist : Bytes)
deriving DecidableEq, Repr

/-- One attribute located inside a fixed-up record. -/
structure Attribute where
  typeId : Nat
  name : Option String
  flags : Nat
  body : AttrBody
deriving DecidableEq, Repr

/-- The attribute name and whether its bounds were in order. -/
def attributeName (attr : Bytes) : Option String × Bool :=
  let nameLen := (Le.u8At attr 9).getD 0
  let nameOff := (Le.u16At attr 10).getD 0
  if nameLen > 0 then
    let nameEnd := nameOff + nameLen * 2
    if nameEnd ≤ attr.length then
      (some (String.ofList (fromUtf16Lossy (utf16Units (attr.slice nameOff nameEnd)))), true)
    else (none, false)
  else (none, true)

/-- The body of the attribute `attr`, which starts at `pos` in its record; `none`
    when its header or bounds are malformed. -/
def attributeBody (attr : Bytes) (pos : Nat) : Option AttrBody :=
  if (Le.u8At attr 8).getD 0 ≠ 0 then
    if attr.length < 64 then none
    else
      let startingVcn := (Le.u64At attr 16).getD 0
      let runOff := (Le.u16At attr 32).getD 0
      let allocatedSize := (Le.u64At attr 40).getD 0
      let dataSize := (Le.u64At attr 48).getD 0
      let initializedSize := (Le.u64At attr 56).getD dataSize
      if ¬(64 ≤ runOff ∧ runOff < attr.length) ∨ initializedSize > dataSize then none
      else some (.nonResident startingVcn dataSize initializedSize allocatedSize
        (attr.slice runOff attr.length))
  else
    let valueLen := (Le.u32At attr 16).getD 0
    let valueOff := (Le.u16At attr 20).getD 0
    let valueEnd := valueOff + valueLen
    if valueOff < 24 ∨ valueEnd > attr.length then none
    else some (.resident (attr.slice valueOff valueEnd) (pos + valueOff))

/-- The attribute loop: `pos` is the cursor in the record, `complete` is cleared
    by a malformed name or body. -/
def attributesFrom (data : Bytes) : Nat → Nat → Bool → List Attribute × Bool
  | 0, _, _ => ([], false)
  | fuel + 1, pos, complete =>
    match Le.u32At data pos with
    | none => ([], false)
    | some typeId =>
      if typeId = attrEnd then ([], complete)
      else match Le.u32At data (pos + 4) with
        | none => ([], false)
        | some attrLen =>
          let attrStop := pos + attrLen
          if attrLen < 24 ∨ attrStop > data.length then ([], false)
          else
            let attr := data.slice pos attrStop
            let flags := (Le.u16At attr 12).getD 0
            let name := attributeName attr
            match attributeBody attr pos with
            | none => attributesFrom data fuel attrStop false
            | some body =>
              let rest := attributesFrom data fuel attrStop (complete && name.2)
              (⟨typeId, name.1, flags, body⟩ :: rest.1, rest.2)

/-- Parses the attributes of a fixed-up record. The flag is true only when the end
    marker was reached without skipping anything malformed. A record is scanned for
    at most 256 attributes. -/
def iterAttributes (record : FileRecord) : List Attribute × Bool :=
  attributesFrom record.data 256 record.attrsOffset true

structure StandardInformation where
  createdMs : Option Int := none
  modifiedMs : Option Int := none
  accessedMs : Option Int := none
  dosAttributes : Nat := 0
deriving DecidableEq, Repr

def parseStandardInformation (value : Bytes) : Option StandardInformation := do
  if value.length < 48 then none
  return {
    createdMs := filetimeToUnixMs (← Le.u64At value 0)
    modifiedMs := filetimeToUnixMs (← Le.u64At value 8)
    accessedMs := filetimeToUnixMs (← Le.u64At value 24)
    dosAttributes := ← Le.u32At value 32 }

/-- The `$FILE_NAME` namespace of short DOS names. -/
def nsDos : Nat := 2

/-- Parsed `$FILE_NAME` attribute value. -/
structure FileNameAttr where
  parentRecord : Nat
  parentSequence : Nat
  namespaceId : Nat
  name : String
  logicalSize : Nat
  allocatedSize : Nat
deriving DecidableEq, Repr

def parseFileName (value : Bytes) : Option FileNameAttr := do
  if value.length < 66 then none
  let parentRef ← Le.u64At value 0
  let allocatedSize ← Le.u64At value 40
  let logicalSize ← Le.u64At value 48
  let nameLen ← Le.u8At value 64
  let namespaceId ← Le.u8At value 65
  let nameBytes ← value.getRange? 66 (66 + nameLen * 2)
  return {
    parentRecord := parentRef &&& 0x0000FFFFFFFFFFFF
    parentSequence := parentRef >>> 48
    namespaceId
    name := String.ofList (fromUtf16Lossy (utf16Units nameBytes))
    logicalSize, allocatedSize }

inductive DataStreamKind where
  | resident (valueOffsetInRecord len : Nat)
  | nonResident (dataSize initializedSize : Nat) (runs : List RunElement)
deriving DecidableEq, Repr

/-- A `$DATA` stream extracted from a record; the unnamed stream has name `none`. -/
structure DataStream where
  name : Option String
  flags : Nat
  kind : DataStreamKind
deriving DecidableEq, Repr

/-- The stream of one `$DATA` attribute, or the reason why its run list is unusable. -/
def dataStreamOf (a : Attribute) (totalClusters : Nat) : Except RunlistError DataStream :=
  match a.body with
  | .resident value valueOffsetInRecord =>
    .ok ⟨a.name, a.flags, .resident valueOffsetInRecord value.length⟩
  | .nonResident _ dataSize initializedSize _ runlist =>
    (decodeRunlist runlist totalClusters).map fun runs =>
      ⟨a.name, a.flags, .nonResident dataSize initializedSize runs⟩

/-- Extracts all `$DATA` streams from a record's attributes, with one warning for
    each stream that is dropped. -/
def extractDataStreams (totalClusters : Nat) : List Attribute → List DataStream × List NtfsWarning
  | [] => ([], [])
  | a :: attrs =>
    let rest := extractDataStreams totalClusters attrs
    if a.typeId ≠ attrData then rest
    else match dataStreamOf a totalClusters with
      | .ok stream => (stream :: rest.1, rest.2)
      | .error e => (rest.1, .malformedRunlist e :: rest.2)

end Undelete.Ntfs
