import Undelete.Native.Core

/-!
# NTFS run lists

Model of `crates/fs-ntfs/src/runs.rs`.
-/

namespace Undelete.Ntfs

/-- One element of a decoded run list; `lcn` is `none` for sparse runs. -/
structure RunElement where
  clusterCount : Nat
  lcn : Option Nat
deriving DecidableEq, Repr

def maxRuns : Nat := 100000

/-- The rejections of `decodeRunlist`; `text` is the message of the source. -/
inductive RunlistError where
  | noTerminator | invalidHeader (header : Nat) | lengthOutOfBounds | zeroLength | totalOverflow
  | longerThanVolume | offsetOutOfBounds | lcnOutsideVolume (lcn : Int) | pastVolumeEnd | tooMany
deriving DecidableEq, Repr

private def hexDigit (n : Nat) : Char := if n < 10 then Char.ofNat (48 + n) else Char.ofNat (55 + n)

def RunlistError.text : RunlistError → String
  | .noTerminator => "runlist ended without terminator"
  | .invalidHeader h =>
    "invalid runlist header 0x" ++ String.ofList [hexDigit (h / 16), hexDigit (h % 16)]
  | .lengthOutOfBounds => "runlist length field out of bounds"
  | .zeroLength => "zero-length run"
  | .totalOverflow => "runlist total length overflow"
  | .longerThanVolume => "runlist longer than volume"
  | .offsetOutOfBounds => "runlist offset field out of bounds"
  | .lcnOutsideVolume lcn => s!"run LCN {lcn} outside volume"
  | .pastVolumeEnd => "run extends past volume end"
  | .tooMany => "too many runs"

/-- The two's-complement value of a little-endian field. -/
def signedValue (field : Bytes) : Int :=
  let v := field.leValue
  if v < 2 ^ (8 * field.length - 1) then v else (v : Int) - 2 ^ (8 * field.length)

/-- `z as u64`. -/
def asU64 (z : Int) : Nat := (z % 2 ^ 64).toNat

/-- What the decoder carries from one element to the next. -/
structure RunlistState where
  currentLcn : Int
  totalLen : Nat
  runs : List RunElement
deriving DecidableEq, Repr

/-- The running total after a run of `clusterCount` clusters. -/
def admitLength (totalClusters totalLen clusterCount : Nat) : Except RunlistError Nat := do
  if clusterCount = 0 then throw .zeroLength
  let totalLen ← okOr (U64.checkedAdd totalLen clusterCount) .totalOverflow
  if totalLen > totalClusters then throw .longerThanVolume
  return totalLen

/-- The LCN after applying a relative offset field to `currentLcn`. -/
def relocate (totalClusters : Nat) (currentLcn : Int) (clusterCount : Nat) (field : Bytes) :
    Except RunlistError Int := do
  let currentLcn := currentLcn + signedValue field
  if currentLcn < 0 ∨ asU64 currentLcn ≥ totalClusters then throw (.lcnOutsideVolume currentLcn)
  match U64.checkedAdd (asU64 currentLcn) clusterCount with
  | some runEnd => if runEnd > totalClusters then throw .pastVolumeEnd else return currentLcn
  | none => throw .pastVolumeEnd

/-- The LCN of an element with `rest` after its header; no offset field means a sparse
    run, which leaves the current LCN alone. -/
def elementLcn (totalClusters : Nat) (rest : Bytes) (lenSize offSize : Nat) (currentLcn : Int)
    (clusterCount : Nat) : Except RunlistError (Int × Option Nat) :=
  if offSize = 0 then .ok (currentLcn, none)
  else do
    let field ← okOr (Bytes.getRange? rest lenSize (lenSize + offSize)) .offsetOutOfBounds
    let currentLcn ← relocate totalClusters currentLcn clusterCount field
    return (currentLcn, some (asU64 currentLcn))

/-- The decoding loop on the rest of the buffer. Every element takes at least two
    bytes, so the length of the buffer is enough fuel. -/
def decodeElements (totalClusters : Nat) :
    Nat → Bytes → RunlistState → Except RunlistError (List RunElement)
  | 0, _, _ => .error .noTerminator
  | _, [], _ => .error .noTerminator
  | fuel + 1, header :: rest, st =>
    if header = 0 then .ok st.runs
    else do
      let lenSize := header.toNat &&& 0x0F
      let offSize := (header.toNat >>> 4) &&& 0x0F
      if lenSize = 0 ∨ lenSize > 8 ∨ offSize > 8 then throw (.invalidHeader header.toNat)
      let lenBytes ← okOr (Bytes.getRange? rest 0 lenSize) .lengthOutOfBounds
      let clusterCount := lenBytes.leValue
      let totalLen ← admitLength totalClusters st.totalLen clusterCount
      let (currentLcn, lcn) ←
        elementLcn totalClusters rest lenSize offSize st.currentLcn clusterCount
      let runs := st.runs ++ [⟨clusterCount, lcn⟩]
      if runs.length > maxRuns then throw .tooMany
      decodeElements totalClusters fuel (rest.drop (lenSize + offSize)) ⟨currentLcn, totalLen, runs⟩

/-- Decodes an NTFS run list with checked arithmetic and hard bounds. -/
def decodeRunlist (buf : Bytes) (totalClusters : Nat) : Except RunlistError (List RunElement) :=
  decodeElements totalClusters (buf.length + 1) buf ⟨0, 0, []⟩

end Undelete.Ntfs
