import Undelete.ForStd.U64
import Undelete.ForStd.Bytes

/-!
# The incremental JPEG validator

Model of `crates/carving/src/jpeg.rs`: a byte-at-a-time recogniser of the JPEG
marker structure. The validator is fed slices of a candidate's bytes, and keeps
only the first six bytes of the segment it is in.
-/

namespace Undelete.Carve

inductive JpegStatus where
  | needMore | valid | invalid
deriving DecidableEq, Repr

structure JpegFeedResult where
  consumed : Nat
  status : JpegStatus
deriving DecidableEq, Repr

/-- The segment being skipped. `captured` is the part of the six-byte buffer that has
    been filled. -/
structure SegmentState where
  marker : UInt8
  declaredLen : Nat
  remaining : Nat
  captured : Bytes
deriving DecidableEq, Repr

inductive ValidatorState where
  | soiPrefix | soiCode | markerPrefix | markerCode
  | lengthHigh (marker : UInt8)
  | lengthLow (marker high : UInt8)
  | segment (s : SegmentState)
  | entropy | entropyMarker | finished | rejected
deriving DecidableEq, Repr

inductive Step where
  | continue | valid | invalid
deriving DecidableEq, Repr

structure JpegValidator where
  state : ValidatorState
  sawSof : Bool
  sawSos : Bool
  processedBytes : Nat
deriving DecidableEq, Repr

def JpegValidator.new : JpegValidator := ⟨.soiPrefix, false, false, 0⟩

/-- `u16::from_be_bytes`. -/
def beU16 (high low : UInt8) : Nat := high.toNat * 256 + low.toNat

/-- `base.checked_add(components.saturating_mul(each))` on `u16`. -/
def expectedLen (base each : Nat) (components : UInt8) : Option Nat :=
  let len := base + min (components.toNat * each) 65535
  if len < 65536 then some len else none

def isSof (marker : UInt8) : Bool :=
  marker ∈ [0xC0, 0xC1, 0xC2, 0xC3, 0xC5, 0xC6, 0xC7, 0xC9, 0xCA, 0xCB, 0xCD, 0xCE, 0xCF]

def validSof (s : SegmentState) : Bool :=
  match s.captured with
  | _ :: h₁ :: h₀ :: w₁ :: w₀ :: components :: _ =>
    let height := beU16 h₁ h₀
    let width := beU16 w₁ w₀
    decide (0 < components.toNat) && decide (0 < height) && decide (0 < width) &&
      expectedLen 8 3 components == some s.declaredLen
  | _ => false

def validSos (s : SegmentState) : Bool :=
  match s.captured with
  | components :: _ =>
    decide (0 < components.toNat) && expectedLen 6 2 components == some s.declaredLen
  | [] => false

namespace JpegValidator

def handleMarker (v : JpegValidator) (marker : UInt8) : Step × JpegValidator :=
  -- TEM is the only legal standalone marker below C0.
  if marker = 0x01 then (.continue, { v with state := .markerPrefix })
  else if marker = 0xD8 ∨ (0xD0 ≤ marker ∧ marker ≤ 0xD7) ∨ marker = 0x00 ∨
      (0x02 ≤ marker ∧ marker ≤ 0xBF) then (.invalid, v)
  else if marker = 0xD9 then
    if v.sawSof && v.sawSos then (.valid, v) else (.invalid, v)
  else if 0xC0 ≤ marker ∧ marker ≤ 0xFE then (.continue, { v with state := .lengthHigh marker })
  else (.invalid, v)

def finishSegment (v : JpegValidator) (s : SegmentState) : Step × JpegValidator :=
  if isSof s.marker then
    if !validSof s then (.invalid, v)
    else (.continue, { v with sawSof := true, state := .markerPrefix })
  else if s.marker = 0xDA then
    if !v.sawSof || !validSos s then (.invalid, v)
    else (.continue, { v with sawSos := true, state := .entropy })
  else (.continue, { v with state := .markerPrefix })

/-- A segment with payload bytes to come is entered, one without is finished. -/
def enterSegment (v : JpegValidator) (s : SegmentState) : Step × JpegValidator :=
  if s.remaining = 0 then v.finishSegment s else (.continue, { v with state := .segment s })

def consume (v : JpegValidator) (byte : UInt8) : Step × JpegValidator :=
  match v.state with
  | .soiPrefix =>
    if byte ≠ 0xFF then (.invalid, v) else (.continue, { v with state := .soiCode })
  | .soiCode =>
    if byte ≠ 0xD8 then (.invalid, v) else (.continue, { v with state := .markerPrefix })
  | .markerPrefix =>
    if byte ≠ 0xFF then (.invalid, v) else (.continue, { v with state := .markerCode })
  | .markerCode => if byte = 0xFF then (.continue, v) else v.handleMarker byte
  | .lengthHigh marker => (.continue, { v with state := .lengthLow marker byte })
  | .lengthLow marker high =>
    let declaredLen := beU16 high byte
    if declaredLen < 2 then (.invalid, v)
    else v.enterSegment ⟨marker, declaredLen, declaredLen - 2, []⟩
  | .segment s =>
    let captured := if s.captured.length < 6 then s.captured ++ [byte] else s.captured
    v.enterSegment { s with captured, remaining := s.remaining - 1 }
  | .entropy => (.continue, if byte = 0xFF then { v with state := .entropyMarker } else v)
  | .entropyMarker =>
    if byte = 0xFF then (.continue, v)
    else if byte = 0x00 ∨ (0xD0 ≤ byte ∧ byte ≤ 0xD7) then
      (.continue, { v with state := .entropy })
    else v.handleMarker byte
  | .finished => (.valid, v)
  | .rejected => (.invalid, v)

/-- The loop of `feed`; `index` bytes of the slice have been consumed. -/
def feedFrom (v : JpegValidator) (index : Nat) : Bytes → JpegFeedResult × JpegValidator
  | [] => (⟨index, .needMore⟩, v)
  | byte :: rest =>
    let (step, v) := v.consume byte
    match U64.checkedAdd v.processedBytes 1 with
    | none => (⟨index + 1, .invalid⟩, { v with state := .rejected })
    | some processed =>
      let v := { v with processedBytes := processed }
      match step with
      | .continue => v.feedFrom (index + 1) rest
      | .valid => (⟨index + 1, .valid⟩, { v with state := .finished })
      | .invalid => (⟨index + 1, .invalid⟩, { v with state := .rejected })

def feed (v : JpegValidator) (bytes : Bytes) : JpegFeedResult × JpegValidator :=
  match v.state with
  | .finished => (⟨0, .valid⟩, v)
  | .rejected => (⟨0, .invalid⟩, v)
  | _ => v.feedFrom 0 bytes

end JpegValidator

/-- A smallest image: one component, and one byte of entropy-coded data. -/
example :
    let image : Bytes := [0xFF, 0xD8, 0xFF, 0xC0, 0, 11, 8, 0, 1, 0, 1, 1, 1, 0x11, 0,
      0xFF, 0xDA, 0, 8, 1, 1, 0, 0, 63, 0, 0x42, 0xFF, 0xD9]
    (JpegValidator.new.feed (image ++ [0x00])).1 = ⟨28, .valid⟩ := by
  decide

end Undelete.Carve
