import Undelete.Native.Core

/-!
# FAT directory entries

Model of `crates/fs-fat/src/dir.rs` and of `dos_datetime_to_unix_ms`.
-/

namespace Undelete.Fat

def attrVolumeId : Nat := 0x08
def attrDirectory : Nat := 0x10
def attrLfn : Nat := 0x0F

/-- Converts DOS date and time to unix milliseconds; `none` for invalid encodings. -/
def dosDatetimeToUnixMs (date time : Nat) : Option Int :=
  let year : Int := 1980 + ((date >>> 9) &&& 0x7F : Nat)
  let month : Int := ((date >>> 5) &&& 0x0F : Nat)
  let day : Int := (date &&& 0x1F : Nat)
  let hour : Int := ((time >>> 11) &&& 0x1F : Nat)
  let min : Int := ((time >>> 5) &&& 0x3F : Nat)
  let sec : Int := ((time &&& 0x1F) * 2 : Nat)
  if ¬(1 ≤ month ∧ month ≤ 12) ∨ ¬(1 ≤ day ∧ day ≤ 31) ∨ hour > 23 ∨ min > 59 ∨ sec > 59 then none
  else
    let y := if month ≤ 2 then year - 1 else year
    let era := y / 400
    let yoe := y - era * 400
    let mp := (month + 9) % 12
    let doy := (153 * mp + 2) / 5 + day - 1
    let doe := yoe * 365 + yoe / 4 - yoe / 100 + doy
    let days := era * 146097 + doe - 719468
    some ((days * 86400 + hour * 3600 + min * 60 + sec) * 1000)

/-- The number of continuation bytes a UTF-8 lead byte asks for and the range of the
    first of them; `none` for a byte that cannot lead. -/
def utf8Lead (b : Nat) : Option (Nat × Nat × Nat) :=
  if b < 0x80 then some (0, 0, 0)
  else if b < 0xC2 then none
  else if b < 0xE0 then some (1, 0x80, 0xBF)
  else if b = 0xE0 then some (2, 0xA0, 0xBF)
  else if b = 0xED then some (2, 0x80, 0x9F)
  else if b < 0xF0 then some (2, 0x80, 0xBF)
  else if b = 0xF0 then some (3, 0x90, 0xBF)
  else if b < 0xF4 then some (3, 0x80, 0xBF)
  else if b = 0xF4 then some (3, 0x80, 0x8F)
  else none

/-- Reads `n` continuation bytes, the first one in `lo ..= hi`, onto the code point
    `acc`; a mismatch leaves the rest of the input for the next character. -/
def utf8Continue : Nat → Nat → Nat → Nat → Bytes → Option Nat × Bytes
  | 0, _, _, acc, rest => (some acc, rest)
  | n + 1, lo, hi, acc, b :: rest =>
    if lo ≤ b.toNat ∧ b.toNat ≤ hi then
      utf8Continue n 0x80 0xBF (acc * 64 + b.toNat % 64) rest
    else (none, b :: rest)
  | _ + 1, _, _, _, [] => (none, [])

/-- `String::from_utf8_lossy`: each maximal invalid prefix becomes U+FFFD. The length
    of the input is enough fuel. -/
def fromUtf8LossyFrom : Nat → Bytes → List Char
  | 0, _ => []
  | _, [] => []
  | fuel + 1, b :: rest =>
    match utf8Lead b.toNat with
    | none => Char.ofNat 0xFFFD :: fromUtf8LossyFrom fuel rest
    | some (n, lo, hi) =>
      let lead := if n = 0 then b.toNat else b.toNat % 2 ^ (6 - n)
      match utf8Continue n lo hi lead rest with
      | (some c, rest) => Char.ofNat c :: fromUtf8LossyFrom fuel rest
      | (none, rest) => Char.ofNat 0xFFFD :: fromUtf8LossyFrom fuel rest

def fromUtf8Lossy (b : Bytes) : String := String.ofList (fromUtf8LossyFrom b.length b)

/-- One parsed 8.3 directory entry (possibly deleted). -/
structure DirEntry where
  name : String
  nameCertain : Bool
  isDeleted : Bool
  isDirectory : Bool
  isVolumeLabel : Bool
  firstCluster : Nat
  size : Nat
  createdMs : Option Int
  modifiedMs : Option Int
  entryOffset : Nat
deriving DecidableEq, Repr

/-- Checksum used to tie LFN entries to their 8.3 entry. -/
def lfnChecksum (shortName : Bytes) : Nat :=
  shortName.foldl (fun sum b => (sum / 2 + sum % 2 * 128 + b.toNat) % 256) 0

/-- Drops trailing bytes while `p` holds. -/
def dropTrailing {α : Type} (p : α → Bool) (l : List α) : List α := (l.reverse.dropWhile p).reverse

def decodeShortName (raw : Bytes) (deleted : Bool) : String × Bool :=
  let base := dropTrailing (· == 0x20) (raw.take 8)
  let ext := ((raw.drop 8).take 3).takeWhile (· != 0x20)
  let base :=
    if deleted then base.set 0 0x5F
    else if base.head? = some 0x05 then base.set 0 0xE5
    else base
  let name := fromUtf8Lossy base
  (if ext.isEmpty then name else name ++ "." ++ fromUtf8Lossy ext, !deleted)

/-- The 13 UTF-16 code units carried by one LFN entry. -/
def lfnUnits (entry : Bytes) : List Nat :=
  utf16Units (entry.slice 1 11) ++ utf16Units (entry.slice 14 26) ++
    utf16Units (entry.slice 28 32)

/-- Pending LFN fragments in on-disk order. -/
structure PendingLfn where
  parts : List (List Nat) := []
  checksum : Option Nat := none
  deleted : Bool := false
deriving DecidableEq, Repr

def PendingLfn.add (p : PendingLfn) (entry : Bytes) (deleted : Bool) : PendingLfn :=
  let checksum := (Le.u8At entry 13).getD 0
  let keep :=
    if deleted then p.deleted else !(p.checksum.isSome && p.checksum ≠ some checksum)
  { parts := (if keep then p.parts else []) ++ [lfnUnits entry]
    checksum := some checksum
    deleted }

/-- The name and its certainty once a pending long name has been considered. -/
def attachLfn (p : PendingLfn) (rawName : Bytes) (deleted : Bool) (short : String × Bool) :
    String × Bool :=
  let checksumOk := if deleted then p.deleted else p.checksum = some (lfnChecksum rawName)
  let units := dropTrailing (fun u => u = 0x0000 || u = 0xFFFF) p.parts.reverse.flatten
  if !p.parts.isEmpty && checksumOk && !units.isEmpty then
    (String.ofList (fromUtf16Lossy units), !deleted)
  else short

/-- The 8.3 entry at index `idx` of the stream. -/
def shortEntry (baseOffset idx : Nat) (entry : Bytes) (p : PendingLfn) : DirEntry :=
  let attrs := (Le.u8At entry 11).getD 0
  let deleted := (Le.u8At entry 0).getD 0 = 0xE5
  let rawName := entry.slice 0 11
  let (name, nameCertain) := attachLfn p rawName deleted (decodeShortName rawName deleted)
  { name, nameCertain
    isDeleted := deleted
    isDirectory := attrs &&& attrDirectory ≠ 0
    isVolumeLabel := attrs &&& attrVolumeId ≠ 0
    firstCluster := ((Le.u16At entry 20).getD 0) <<< 16 ||| (Le.u16At entry 26).getD 0
    size := (Le.u32At entry 28).getD 0
    createdMs := dosDatetimeToUnixMs ((Le.u16At entry 16).getD 0) ((Le.u16At entry 14).getD 0)
    modifiedMs := dosDatetimeToUnixMs ((Le.u16At entry 24).getD 0) ((Le.u16At entry 22).getD 0)
    entryOffset := baseOffset + idx * 32 }

/-- The entry loop of `parse_directory`; the fuel is the length of the stream. -/
def parseEntries (baseOffset : Nat) : Nat → Bytes → Nat → PendingLfn → List DirEntry
  | 0, _, _, _ => []
  | fuel + 1, data, idx, p =>
    if data.length < 32 then []
    else
      let entry := data.take 32
      let rest := data.drop 32
      let first := (Le.u8At entry 0).getD 0
      if first = 0x00 then []
      else if (Le.u8At entry 11).getD 0 = attrLfn then
        parseEntries baseOffset fuel rest (idx + 1) (p.add entry (first = 0xE5))
      else
        let e := shortEntry baseOffset idx entry p
        let tail := parseEntries baseOffset fuel rest (idx + 1) {}
        if e.isVolumeLabel && !e.isDeleted then tail
        else if e.name = "." || e.name = ".." then tail
        else e :: tail

/-- Parses a directory stream (concatenated 32-byte entries), reconstructing long names. -/
def parseDirectory (data : Bytes) (baseOffset : Nat) : List DirEntry :=
  parseEntries baseOffset data.length data 0 {}

end Undelete.Fat
