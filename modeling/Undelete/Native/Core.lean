import Undelete.ForStd.U64
import Undelete.ForStd.Bytes

/-!
# Domain types and the read-only source

Model of `crates/core`: candidates, extents, read errors and the `SourceReader`
trait, together with the shared helpers of `crates/fs-common` (bounded
little-endian reads, FILETIME conversion, the cluster-allocation bitmap).

Lengths, offsets and sizes are natural numbers; `usize` is taken to be 64 bits
wide, so the `usize::try_from` conversions of the source always succeed, and
allocations are taken to succeed.
-/

namespace Undelete

/-! ## `um_core::candidate` -/

inductive DiscoveryMethod where
  | ntfsMetadata | fatMetadata | exfatMetadata | carving | recycleBin
deriving DecidableEq, Repr

inductive CandidateKind where
  | file | directory
deriving DecidableEq, Repr

inductive CandidateState where
  | exactEvidence | likelyComplete | completeUnvalidated | structurallyValid | partialContent
  | conflicted | readErrorState | zeroedOrTrimmed | overwritten | metadataOnly | unknown
deriving DecidableEq, Repr

/-- Availability classification of an extent at scan time. -/
inductive ExtentAvailability where
  | freeInSnapshot | currentlyAllocated | outOfVolume | readFailed | zeroed | resident | sparse
  | unknown
deriving DecidableEq, Repr

/-- One physical run of a candidate's content. `physicalOffset` is `none` for
    data without a physical location of its own. -/
structure ExtentRun where
  logicalOffset : Nat
  physicalOffset : Option Nat
  len : Nat
  availability : ExtentAvailability
deriving DecidableEq, Repr

structure Timestamps where
  createdMs : Option Int := none
  modifiedMs : Option Int := none
  accessedMs : Option Int := none
  deletedMs : Option Int := none
deriving DecidableEq, Repr

inductive MetadataConfidence where
  | high | medium | low
deriving DecidableEq, Repr

/-- A potentially recoverable item found during a scan. -/
structure Candidate where
  id : Nat
  kind : CandidateKind
  method : DiscoveryMethod
  state : CandidateState
  name : String
  nameCertain : Bool
  parentPath : List String
  metadataConfidence : MetadataConfidence
  size : Nat
  timestamps : Timestamps
  extents : List ExtentRun
  recordRef : Nat
  sequence : Option Nat
  warnings : List String
deriving DecidableEq, Repr

/-! ## `um_core::read` and `um_core::source` -/

inductive ReadError where
  | outOfBounds (offset len sourceLen : Nat)
  | io (offset : Nat) (message : String)
  | sourceGone
deriving DecidableEq, Repr

structure ReadOutcome where
  bytesValid : Nat
  badRanges : List (Nat × Nat)
deriving DecidableEq, Repr

/-- Read-only access to a scan source. An exact read is given an offset and a length
    and returns the bytes read; a best-effort read is given the buffer's contents and
    returns them as it leaves them. The fields after the operations say what the Rust
    types enforce. -/
structure SourceReader where
  len : Nat
  readExactAt : Nat → Nat → Except ReadError Bytes
  readBestEffortAt : Nat → Bytes → Bytes × ReadOutcome
  len_lt : len < 2 ^ 64
  length_readExactAt : ∀ {offset len bytes}, readExactAt offset len = .ok bytes → bytes.length = len
  length_readBestEffortAt : ∀ offset buffer,
    (readBestEffortAt offset buffer).1.length = buffer.length

/-- `read_vec_at`: allocate and read exactly `len` bytes. -/
def SourceReader.readVecAt (reader : SourceReader) (offset len : Nat) : Except ReadError Bytes :=
  reader.readExactAt offset len

/-! ## `um_fs_common` -/

inductive ScanError where
  | read (error : ReadError)
  | corrupt (message : String)
  | notRecognized (message : String)
deriving DecidableEq, Repr

/-- `Option::ok_or`. -/
def okOr {ε α : Type} (x : Option α) (e : ε) : Except ε α :=
  match x with
  | some a => .ok a
  | none => .error e

theorem okOr_eq_ok {ε α : Type} {x : Option α} {e : ε} {a : α} : okOr x e = .ok a ↔ x = some a := by
  cases x <;> simp [okOr]

theorem okOr_eq_error {ε α : Type} {x : Option α} {e e' : ε} :
    okOr x e = .error e' ↔ x = none ∧ e = e' := by
  cases x <;> simp [okOr]

namespace Le

def u16At (buf : Bytes) (off : Nat) : Option Nat := (buf.getRange? off (off + 2)).map Bytes.leValue
def u32At (buf : Bytes) (off : Nat) : Option Nat := (buf.getRange? off (off + 4)).map Bytes.leValue
def u64At (buf : Bytes) (off : Nat) : Option Nat := (buf.getRange? off (off + 8)).map Bytes.leValue
def u8At (buf : Bytes) (off : Nat) : Option Nat := buf[off]?.map UInt8.toNat

theorem u32At_lt (buf : Bytes) (off : Nat) : (u32At buf off).getD 0 < 2 ^ 32 := by
  cases hrange : buf.getRange? off (off + 4) with
  | none => simp [u32At, hrange]
  | some s => simpa [u32At, hrange] using Bytes.leValue_getRange?_lt hrange

/-- The byte at `off`, read as two's complement. -/
def i8At (buf : Bytes) (off : Nat) : Option Int :=
  (u8At buf off).map fun b => if b < 128 then (b : Int) else (b : Int) - 256

end Le

/-- Converts a FILETIME to unix milliseconds; `none` for zero or implausible values. -/
def filetimeToUnixMs (filetime : Nat) : Option Int :=
  if filetime = 0 then none
  else
    let ms := ((filetime : Int) - 116444736000000000).tdiv 10000
    if 0 ≤ ms ∧ ms ≤ 64060588800000 then some ms else none

/-- `String::from_utf16_lossy`: unpaired surrogates decode to U+FFFD. -/
def fromUtf16Lossy : List Nat → List Char
  | [] => []
  | u :: rest =>
    if u < 0xD800 ∨ 0xDFFF < u then Char.ofNat u :: fromUtf16Lossy rest
    else match rest with
      | v :: rest' =>
        if u ≤ 0xDBFF ∧ 0xDC00 ≤ v ∧ v ≤ 0xDFFF then
          Char.ofNat (0x10000 + (u - 0xD800) * 0x400 + (v - 0xDC00)) :: fromUtf16Lossy rest'
        else Char.ofNat 0xFFFD :: fromUtf16Lossy (v :: rest')
      | [] => [Char.ofNat 0xFFFD]

/-- The little-endian 16-bit units of a byte string (`chunks_exact(2)`). -/
def utf16Units : Bytes → List Nat
  | a :: b :: rest => (a.toNat + 256 * b.toNat) :: utf16Units rest
  | _ => []

/-- A cluster-allocation bitmap: bit set means allocated. -/
structure AllocationMap where
  bits : Bytes
  clusterCount : Nat
deriving DecidableEq, Repr

namespace AllocationMap

def fromRaw (bits : Bytes) (clusterCount : Nat) : AllocationMap := ⟨bits, clusterCount⟩

/-- `none` when the cluster is outside the map or its byte was not retained. -/
def isAllocated (map : AllocationMap) (cluster : Nat) : Option Bool :=
  if cluster ≥ map.clusterCount then none
  else map.bits[cluster / 8]?.map fun byte => byte.toNat.testBit (cluster % 8)

end AllocationMap

end Undelete
