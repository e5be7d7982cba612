import Undelete.Native.Broker.Client

/-!
# Raw volume reads

Model of the reads of `crates/io-windows`: `plan_aligned_read` of `model.rs`, which rounds a
request to whole sectors, and `RawVolumeInner::read_exact_at` of `windows.rs`, which reads the
sectors through the handle of the volume and copies the request out of them. The handle is any
state machine; its lock is taken to be free, and `usize` to be 64 bits wide, so that the
`usize::try_from` conversions succeed.

Where the source has an unchecked subtraction or a slice, the model says `panic` when it does
not fit.
-/

namespace Undelete.Windows

open Broker (SectorLayout)

def maxRawReadBytes : Nat := 4 * 1024 * 1024

inductive ReadPlanError where
  | overflow | outOfBounds | invalidSectorSize | lengthTooLarge
deriving DecidableEq, Repr

/-- `StorageError`, as far as a read or the geometry check fails with it. -/
inductive StorageError where
  | windowsApi (operation : String) (code : UInt32)
  | readPlan (error : ReadPlanError)
  | shortRead
  | invalidGeometry
deriving DecidableEq, Repr

inductive ReadFault where
  | error (error : StorageError)
  | panic
deriving DecidableEq, Repr

def planFault (error : ReadPlanError) : ReadFault := .error (.readPlan error)

/-- An unchecked subtraction. -/
def sub (a b : Nat) : Except ReadFault Nat := if b ≤ a then .ok (a - b) else .error .panic

/-- `checked_sub` -/
def checkedSub (a b : Nat) : Option Nat := if b ≤ a then some (a - b) else none

/-! ## The plan -/

structure AlignedReadPlan where
  alignedOffset : Nat
  alignedLength : Nat
  copyOffset : Nat
  copyLength : Nat
deriving DecidableEq, Repr

def planAlignedRead (offset requestedLength sourceLength sectorSize : Nat) :
    Except ReadFault AlignedReadPlan := do
  if sectorSize = 0 then
    throw (planFault .invalidSectorSize)
  if requestedLength > maxRawReadBytes then
    throw (planFault .lengthTooLarge)
  let requestedEnd ← okOr (U64.checkedAdd offset requestedLength) (planFault .overflow)
  if requestedEnd > sourceLength then
    throw (planFault .outOfBounds)
  if requestedLength = 0 then
    return { alignedOffset := offset, alignedLength := 0, copyOffset := 0, copyLength := 0 }
  let alignedOffset ← sub offset (offset % sectorSize)
  let roundUp ← sub sectorSize 1
  let roundedEnd ← okOr (U64.checkedAdd requestedEnd roundUp) (planFault .overflow)
  let alignedEnd ← sub roundedEnd (roundedEnd % sectorSize)
  if alignedEnd > sourceLength then
    throw (planFault .outOfBounds)
  let alignedLength ← okOr (checkedSub alignedEnd alignedOffset) (planFault .overflow)
  let copyOffset ← okOr (checkedSub offset alignedOffset) (planFault .overflow)
  let copyEnd ← okOr (U64.checkedAdd copyOffset requestedLength) (planFault .overflow)
  if copyEnd > alignedLength then
    throw (planFault .outOfBounds)
  return { alignedOffset, alignedLength, copyOffset, copyLength := requestedLength }

/-! ## The volume -/

/-- The handle of a volume, and the two calls that a read makes on it: each answers with the
    code of an error, or with the bytes it put at the destination. -/
structure RawDevice (σ : Type) where
  setFilePointerEx : σ → Nat → Except UInt32 Unit × σ
  readFile : σ → Nat → Except UInt32 Bytes × σ
  length_readFile : ∀ {s chunk bytes s'}, readFile s chunk = (.ok bytes, s') → bytes.length ≤ chunk

/-- An open volume. The fields after the layout say what `open_raw_volume` checks of it. -/
structure RawVolumeInner where
  length : Nat
  layout : SectorLayout
  length_lt : length < 2 ^ 63
  sector_pos : 0 < layout.logical.toNat
  wholeSectors : length % layout.logical.toNat = 0

theorem sector_pos_of_new {logical physical : UInt32} {layout : SectorLayout}
    (h : SectorLayout.new logical physical = some layout) : 0 < layout.logical.toNat := by
  unfold SectorLayout.new at h
  split at h
  · cases h
  · next hsizes =>
    cases h
    exact Nat.pos_of_ne_zero fun hzero => hsizes (.inl (UInt32.toNat_inj.mp hzero))

/-- The geometry check of `open_raw_volume`. -/
def checkGeometry (length : Nat) (logical physical : UInt32) :
    Except StorageError RawVolumeInner :=
  match hlayout : SectorLayout.new logical physical with
  | none => .error .invalidGeometry
  | some layout =>
    if h : length ≠ 0 ∧ length < 2 ^ 63 ∧ length % layout.logical.toNat = 0 then
      .ok { length, layout, length_lt := h.2.1, sector_pos := sector_pos_of_new hlayout,
            wholeSectors := h.2.2 }
    else .error .invalidGeometry

/-- The bytes of a buffer after a call put `bytes` at `completed`. -/
def putAt (aligned : Bytes) (completed : Nat) (bytes : Bytes) : Bytes :=
  aligned.take completed ++ bytes ++ aligned.drop (completed + bytes.length)

theorem length_putAt {aligned bytes : Bytes} {completed : Nat}
    (h : completed + bytes.length ≤ aligned.length) :
    (putAt aligned completed bytes).length = aligned.length := by
  unfold putAt
  simp only [List.length_append, List.length_take, List.length_drop]
  omega

variable {σ : Type} (device : RawDevice σ)

/-- A call that put some bytes leaves fewer to be read. -/
theorem RawDevice.remaining_lt {s s' : σ} {aligned bytes : Bytes} {completed next : Nat}
    (hread : device.readFile s (min (aligned.length - completed) (2 ^ 32 - 1)) = (.ok bytes, s'))
    (hsome : bytes.length ≠ 0) (hnext : U64.checkedAdd completed bytes.length = some next) :
    (putAt aligned completed bytes).length - next < aligned.length - completed := by
  have hle := device.length_readFile hread
  obtain ⟨-, rfl⟩ := U64.checkedAdd_eq_some.mp hnext
  rw [length_putAt (by omega)]
  omega

/-- The loop of `read_exact_at`. -/
def readAligned (s : σ) (aligned : Bytes) (completed : Nat) : Except ReadFault Bytes × σ :=
  if completed < aligned.length then
    match _ : device.readFile s (min (aligned.length - completed) (2 ^ 32 - 1)) with
    | (.error code, s') => (.error (.error (.windowsApi "ReadFile" code)), s')
    | (.ok bytes, s') =>
      if _ : bytes.length = 0 then (.error (.error .shortRead), s')
      else
        match _ : U64.checkedAdd completed bytes.length with
        | none => (.error (planFault .overflow), s')
        | some next => readAligned s' (putAt aligned completed bytes) next
  else (.ok aligned, s)
termination_by aligned.length - completed
decreasing_by exact device.remaining_lt ‹_› ‹_› ‹_›

/-- The copy out of the sectors, into a buffer of `length` bytes. -/
def copyOut (plan : AlignedReadPlan) (aligned : Bytes) (length : Nat) : Except ReadFault Bytes := do
  let copyEnd ← okOr (U64.checkedAdd plan.copyOffset plan.copyLength) (planFault .overflow)
  if plan.copyOffset ≤ copyEnd ∧ copyEnd ≤ aligned.length ∧ copyEnd - plan.copyOffset = length then
    return aligned.slice plan.copyOffset copyEnd
  else throw .panic

/-- `read_exact_at` with a buffer of `length` bytes: what it fills it with. An empty buffer
    stays as it is. -/
def RawVolumeInner.readExactAt (volume : RawVolumeInner) (s : σ) (offset length : Nat) :
    Except ReadFault Bytes × σ :=
  match planAlignedRead offset length volume.length volume.layout.logical.toNat with
  | .error fault => (.error fault, s)
  | .ok plan =>
    if plan.copyLength = 0 then (.ok [], s)
    else if plan.alignedOffset ≥ 2 ^ 63 then (.error (.error .invalidGeometry), s)
    else
      match device.setFilePointerEx s plan.alignedOffset with
      | (.error code, s) => (.error (.error (.windowsApi "SetFilePointerEx" code)), s)
      | (.ok (), s) =>
        match readAligned device s (List.replicate plan.alignedLength 0) 0 with
        | (.error fault, s) => (.error fault, s)
        | (.ok aligned, s) => (copyOut plan aligned length, s)

end Undelete.Windows
