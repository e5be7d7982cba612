import Undelete.Spec.JpegGrammar

/-!
# The JPEG validator recognises the marker grammar

One byte at a time, the validator's state says where in the grammar the bytes read
so far end (`At`), and every beginning that the grammar allows leaves the validator
alive. From the two follow when `feed` reports Valid and when it reports Invalid, for
every way of cutting the bytes into slices.

## Key results

- `at_consume`: what one byte does to the position in the grammar.
- `Parsed.advance`: the validator reads every beginning that ends with a complete item.
- `feedAll_eq_feed`: feeding slices is feeding their concatenation.
-/

namespace Undelete.Carve

/-! ## Markers -/

theorem segmentCode_of_judged {code : UInt8} (h : JudgedCode code) : SegmentCode code := by
  rcases h with h | rfl
  · simp only [isSof, List.mem_cons, List.not_mem_nil, or_false, decide_eq_true_eq] at h
    rcases h with rfl | rfl | rfl | rfl | rfl | rfl | rfl | rfl | rfl | rfl | rfl | rfl | rfl <;>
      decide
  · decide

theorem SegmentCode.ne {code : UInt8} (h : SegmentCode code) :
    code ≠ 0xFF ∧ code ≠ 0x01 ∧ code ≠ 0xD9 ∧ ¬EntropyCode code := by
  simp only [SegmentCode, EntropyCode, UInt8.le_iff_toNat_le, ← UInt8.toNat_inj, ne_eq,
    UInt8.reduceToNat] at *
  omega

theorem EntropyCode.ne_fill {code : UInt8} (h : EntropyCode code) : code ≠ 0xFF := by
  rintro rfl
  exact absurd h (by decide)

/-- What a marker code does: it is TEM, EOI, the start of a segment, or wrong. -/
theorem handleMarker_cases (v : JpegValidator) {code : UInt8} (hne : code ≠ 0xFF) :
    (code = 0x01 ∧ v.handleMarker code = (.continue, { v with state := .markerPrefix })) ∨
    (code = 0xD9 ∧ v.handleMarker code = (if v.sawSof && v.sawSos then .valid else .invalid, v)) ∨
    (SegmentCode code ∧ v.handleMarker code = (.continue, { v with state := .lengthHigh code })) ∨
    (¬SegmentCode code ∧ code ≠ 0x01 ∧ code ≠ 0xD9 ∧ v.handleMarker code = (.invalid, v)) := by
  unfold JpegValidator.handleMarker
  by_cases htem : code = 0x01
  · exact Or.inl ⟨htem, if_pos htem⟩
  rw [if_neg htem]
  by_cases heoi : code = 0xD9
  · subst heoi
    refine Or.inr (Or.inl ⟨rfl, ?_⟩)
    rw [if_neg (by decide), if_pos rfl]
    cases v.sawSof && v.sawSos <;> rfl
  by_cases hseg : SegmentCode code
  · refine Or.inr (Or.inr (Or.inl ⟨hseg, ?_⟩))
    simp only [SegmentCode, UInt8.le_iff_toNat_le, ← UInt8.toNat_inj, UInt8.reduceToNat] at *
    rw [if_neg (by omega), if_neg (by omega), if_pos (by omega)]
  · refine Or.inr (Or.inr (Or.inr ⟨hseg, htem, heoi, ?_⟩))
    simp only [SegmentCode, UInt8.le_iff_toNat_le, ← UInt8.toNat_inj, UInt8.reduceToNat] at *
    split
    · rfl
    · rw [if_neg (by omega)]

/-! ## Segments -/

theorem expectedLen_eq (base each : Nat) (components : UInt8)
    (h : base + 255 * each < 65536) :
    expectedLen base each components = some (base + components.toNat * each) := by
  have hle : components.toNat * each ≤ 255 * each :=
    Nat.mul_le_mul_right each (by have := components.toNat_lt; omega)
  simp only [expectedLen]
  rw [Nat.min_eq_left (by omega), if_pos (by omega)]

theorem validSof_iff {code : UInt8} {payload : Bytes} :
    validSof ⟨code, payload.length + 2, 0, payload.take 6⟩ = true ↔ FrameHeader payload := by
  rcases payload with _ | ⟨precision, _ | ⟨h₁, _ | ⟨h₀, _ | ⟨w₁, _ | ⟨w₀, _ |
    ⟨components, specs⟩⟩⟩⟩⟩⟩
  case cons.cons.cons.cons.cons.cons =>
    simp only [validSof, FrameHeader, List.take_succ_cons, Bool.and_eq_true, decide_eq_true_eq,
      beq_iff_eq, expectedLen_eq 8 3 components (by decide), Option.some.injEq, List.cons.injEq]
    constructor
    · rintro ⟨⟨⟨hc, hh⟩, hw⟩, hlen⟩
      exact ⟨_, _, _, _, _, _, _, ⟨rfl, rfl, rfl, rfl, rfl, rfl, rfl⟩, hh, hw, hc, by omega⟩
    · rintro ⟨_, _, _, _, _, _, _, ⟨rfl, rfl, rfl, rfl, rfl, rfl, rfl⟩, hh, hw, hc, hlen⟩
      exact ⟨⟨⟨hc, hh⟩, hw⟩, by omega⟩
  -- a payload of fewer than six bytes is no frame header
  all_goals simp [validSof, FrameHeader]

theorem validSos_iff {code : UInt8} {payload : Bytes} :
    validSos ⟨code, payload.length + 2, 0, payload.take 6⟩ = true ↔ ScanHeader payload := by
  cases payload with
  | nil => simp [validSos, ScanHeader]
  | cons components specs =>
    simp only [validSos, ScanHeader, List.take_succ_cons, Bool.and_eq_true, decide_eq_true_eq,
      beq_iff_eq, expectedLen_eq 6 2 components (by decide), Option.some.injEq, List.cons.injEq]
    constructor
    · rintro ⟨hc, hlen⟩
      exact ⟨_, _, ⟨rfl, rfl⟩, hc, by omega⟩
    · rintro ⟨_, _, ⟨rfl, rfl⟩, hc, hlen⟩
      exact ⟨hc, by omega⟩

/-- The state the validator is in between two items. -/
def boundary (entropy : Bool) : ValidatorState := if entropy then .entropy else .markerPrefix

/-- The state after the fill bytes of a marker. -/
def opened (entropy : Bool) : ValidatorState := if entropy then .entropyMarker else .markerCode

/-- A finished segment extends the beginning by one item, or is rejected. -/
theorem finishSegment_cases {entropy : Bool} {v : JpegValidator} {u payload : Bytes} (fill : Nat)
    {code high low : UInt8} (hu : Parsed entropy v.sawSof v.sawSos u) (hcode : SegmentCode code)
    (hlen : beU16 high low = payload.length + 2) :
    (∃ entropy' sof sos, Parsed entropy' sof sos (u ++ segmentBytes fill code high low payload) ∧
      v.finishSegment ⟨code, payload.length + 2, 0, payload.take 6⟩ =
        (.continue, ⟨boundary entropy', sof, sos, v.processedBytes⟩)) ∨
    v.finishSegment ⟨code, payload.length + 2, 0, payload.take 6⟩ = (.invalid, v) := by
  simp only [JpegValidator.finishSegment]
  -- a frame header is judged
  by_cases hsof : isSof code = true
  · rw [if_pos hsof]
    by_cases hvalid : validSof ⟨code, payload.length + 2, 0, payload.take 6⟩ = true
    · rw [if_neg (by simp [hvalid])]
      exact Or.inl ⟨false, true, v.sawSos, hu.frame fill hsof hlen (validSof_iff.mp hvalid), rfl⟩
    · rw [if_pos (by simp [hvalid])]
      exact Or.inr rfl
  rw [if_neg hsof]
  -- and so is a scan header, which needs a frame before it; every other segment is skipped
  by_cases hsos : code = 0xDA
  · rw [if_pos hsos]
    subst hsos
    by_cases hinvalid :
        (!v.sawSof || !validSos ⟨0xDA, payload.length + 2, 0, payload.take 6⟩) = true
    · rw [if_pos hinvalid]
      exact Or.inr rfl
    · rw [if_neg hinvalid]
      simp only [Bool.or_eq_true, Bool.not_eq_true', not_or, Bool.not_eq_false] at hinvalid
      rw [hinvalid.1] at hu ⊢
      exact Or.inl ⟨true, true, true, hu.scan fill hlen (validSos_iff.mp hinvalid.2), rfl⟩
  · rw [if_neg hsos]
    have hplain : ¬JudgedCode code := not_or.mpr ⟨hsof, hsos⟩
    exact Or.inl ⟨false, v.sawSof, v.sawSos, hu.segment fill hcode hplain hlen, rfl⟩

/-! ## Where in the grammar a state is -/

/-- The bytes `w` read so far, as the state of the validator describes them. -/
def At (v : JpegValidator) (w : Bytes) : Prop :=
  match v.state with
  | .soiPrefix => v.sawSof = false ∧ v.sawSos = false ∧ w = []
  | .soiCode => v.sawSof = false ∧ v.sawSos = false ∧ w = [0xFF]
  | .markerPrefix => Parsed false v.sawSof v.sawSos w
  | .markerCode => ∃ u fill, Parsed false v.sawSof v.sawSos u ∧
      w = u ++ List.replicate (fill + 1) 0xFF
  | .lengthHigh code => ∃ entropy u fill, Parsed entropy v.sawSof v.sawSos u ∧
      SegmentCode code ∧ w = u ++ markerBytes fill code
  | .lengthLow code high => ∃ entropy u fill, Parsed entropy v.sawSof v.sawSos u ∧
      SegmentCode code ∧ w = u ++ markerBytes fill code ++ [high]
  | .segment s => 0 < s.remaining ∧ ∃ entropy u fill high low p,
      Parsed entropy v.sawSof v.sawSos u ∧ SegmentCode s.marker ∧
      beU16 high low = s.declaredLen ∧ p.length + s.remaining + 2 = s.declaredLen ∧
      s.captured = p.take 6 ∧ w = u ++ segmentBytes fill s.marker high low p
  | .entropy => Parsed true v.sawSof v.sawSos w
  | .entropyMarker => ∃ u fill, Parsed true v.sawSof v.sawSos u ∧
      w = u ++ List.replicate (fill + 1) 0xFF
  | .finished | .rejected => False

theorem at_boundary {v : JpegValidator} {w : Bytes} {entropy : Bool}
    (hstate : v.state = boundary entropy) :
    At v w ↔ Parsed entropy v.sawSof v.sawSos w := by
  cases entropy <;> simp only [At, hstate, boundary, if_true, Bool.false_eq_true, if_false]

/-- Entering a segment whose first bytes are `p`. -/
theorem at_enterSegment {entropy : Bool} {v v' : JpegValidator} {u p : Bytes} {fill : Nat}
    {code high low : UInt8} {declaredLen remaining : Nat}
    (hu : Parsed entropy v.sawSof v.sawSos u) (hcode : SegmentCode code)
    (hlen : beU16 high low = declaredLen) (hp : p.length + remaining + 2 = declaredLen)
    (h : v.enterSegment ⟨code, declaredLen, remaining, p.take 6⟩ = (.continue, v')) :
    At v' (u ++ segmentBytes fill code high low p) := by
  unfold JpegValidator.enterSegment at h
  by_cases hremaining : remaining = 0
  · subst hremaining
    rw [if_pos rfl, ← hp, Nat.add_zero] at h
    have hpayload : beU16 high low = p.length + 2 := hlen.trans hp.symm
    rcases finishSegment_cases fill hu hcode hpayload with
      ⟨entropy', sof, sos, hparsed, heq⟩ | heq
    · rw [heq, Prod.mk.injEq] at h
      rw [← h.2]
      exact (at_boundary rfl).mpr hparsed
    · rw [heq, Prod.mk.injEq] at h
      exact absurd h.1 (by decide)
  · rw [if_neg hremaining, Prod.mk.injEq] at h
    rw [← h.2]
    exact ⟨Nat.pos_of_ne_zero hremaining, entropy, u, fill, high, low, p, hu, hcode, hlen, hp,
      rfl, rfl⟩

theorem enterSegment_ne_valid (v : JpegValidator) (s : SegmentState) :
    (v.enterSegment s).1 ≠ .valid := by
  simp only [JpegValidator.enterSegment, JpegValidator.finishSegment]
  repeat' split
  all_goals simp

/-- A marker code after fill bytes extends the beginning by TEM, starts a segment or
    completes the image. -/
theorem at_handleMarker {entropy : Bool} {v : JpegValidator} {u : Bytes} {fill : Nat}
    {code : UInt8} (hu : Parsed entropy v.sawSof v.sawSos u) (hne : code ≠ 0xFF) :
    (∀ v', v.handleMarker code = (.continue, v') → At v' (u ++ markerBytes fill code)) ∧
    ((v.handleMarker code).1 = .valid → IsImage (u ++ markerBytes fill code)) := by
  -- a marker without a segment, the end of the image, a segment, or nothing of the grammar
  rcases handleMarker_cases v hne with ⟨rfl, heq⟩ | ⟨rfl, heq⟩ | ⟨hseg, heq⟩ | ⟨-, -, -, heq⟩
  · rw [heq]
    refine ⟨?_, by simp⟩
    intro v' h
    rw [← (Prod.mk.inj h).2]
    exact hu.tem fill
  · rw [heq]
    by_cases hseen : (v.sawSof && v.sawSos) = true
    · rw [if_pos hseen]
      rw [Bool.and_eq_true] at hseen
      rw [hseen.1, hseen.2] at hu
      refine ⟨by simp, ?_⟩
      intro _
      exact ⟨entropy, u, fill, hu, rfl⟩
    · rw [if_neg hseen]
      simp
  · rw [heq]
    refine ⟨?_, by simp⟩
    intro v' h
    rw [← (Prod.mk.inj h).2]
    exact ⟨entropy, u, fill, hu, hseg, rfl⟩
  · rw [heq]
    simp

/-- What `at_consume` says of a step that goes on. -/
private theorem continues {x : Step × JpegValidator} {v : JpegValidator} {w : Bytes}
    (hx : x = (.continue, v)) (h : At v w) :
    (∀ v', x = (.continue, v') → At v' w) ∧ (x.1 = .valid → IsImage w) := by
  subst hx
  refine ⟨?_, by simp⟩
  intro v' hv'
  rwa [← (Prod.mk.inj hv').2]

/-- What `at_consume` says of a step that rejects its byte. -/
private theorem rejects {x : Step × JpegValidator} {v : JpegValidator} {w : Bytes}
    (hx : x = (.invalid, v)) :
    (∀ v', x = (.continue, v') → At v' w) ∧ (x.1 = .valid → IsImage w) := by
  subst hx
  simp

theorem append_fill_append (u : Bytes) (fill : Nat) (code : UInt8) :
    u ++ List.replicate (fill + 1) 0xFF ++ [code] = u ++ markerBytes fill code := by
  rw [markerBytes, List.append_assoc]

theorem append_fill_fill (u : Bytes) (fill : Nat) :
    u ++ List.replicate (fill + 1) 0xFF ++ [0xFF] = u ++ List.replicate (fill + 1 + 1) 0xFF := by
  rw [List.append_assoc, ← List.replicate_succ']

theorem append_segment_append (u : Bytes) (fill : Nat) (code high low byte : UInt8) (p : Bytes) :
    u ++ segmentBytes fill code high low p ++ [byte] =
      u ++ segmentBytes fill code high low (p ++ [byte]) := by
  simp [segmentBytes]

/-- The buffer keeps the first six bytes of the payload. -/
theorem captured_append (p : Bytes) (byte : UInt8) :
    (if (p.take 6).length < 6 then p.take 6 ++ [byte] else p.take 6) = (p ++ [byte]).take 6 := by
  rw [List.length_take]
  by_cases h : p.length < 6
  · rw [if_pos (by omega), List.take_of_length_le (by omega), List.take_of_length_le]
    rw [List.length_append, List.length_singleton]
    omega
  · rw [if_neg (by omega), List.take_append_of_le_length (by omega)]

/-- One byte moves the validator along the grammar, or completes an image. -/
theorem at_consume {v : JpegValidator} {w : Bytes} (hv : At v w) (byte : UInt8) :
    (∀ v', v.consume byte = (.continue, v') → At v' (w ++ [byte])) ∧
    ((v.consume byte).1 = .valid → IsImage (w ++ [byte])) := by
  obtain ⟨state, sof, sos, n⟩ := v
  -- each state of the validator stands for a place in the grammar
  cases state with
  | soiPrefix =>
    obtain ⟨hsof, hsos, rfl⟩ := hv
    by_cases hb : byte = 0xFF
    · subst hb
      exact continues rfl ⟨hsof, hsos, rfl⟩
    · exact rejects (if_pos hb)
  | soiCode =>
    obtain ⟨hsof, hsos, rfl⟩ := hv
    by_cases hb : byte = 0xD8
    · subst hb
      simp only at hsof hsos
      subst hsof hsos
      exact continues rfl Parsed.soi
    · exact rejects (if_pos hb)
  | markerPrefix =>
    by_cases hb : byte = 0xFF
    · subst hb
      exact continues rfl ⟨w, 0, hv, rfl⟩
    · exact rejects (if_pos hb)
  | markerCode =>
    obtain ⟨u, fill, hu, rfl⟩ := hv
    by_cases hb : byte = 0xFF
    · subst hb
      exact continues rfl ⟨u, fill + 1, hu, append_fill_fill u fill⟩
    · rw [append_fill_append]
      simp only [JpegValidator.consume, if_neg hb]
      exact at_handleMarker hu hb
  | lengthHigh code =>
    obtain ⟨entropy, u, fill, hu, hcode, rfl⟩ := hv
    exact continues rfl ⟨entropy, u, fill, hu, hcode, rfl⟩
  | lengthLow code high =>
    obtain ⟨entropy, u, fill, hu, hcode, rfl⟩ := hv
    have hw : u ++ markerBytes fill code ++ [high] ++ [byte] =
        u ++ segmentBytes fill code high byte [] := by
      simp [segmentBytes]
    rw [hw]
    simp only [JpegValidator.consume]
    by_cases hlen : beU16 high byte < 2
    · exact rejects (if_pos hlen)
    · rw [if_neg hlen]
      refine ⟨?_, fun h => absurd h (enterSegment_ne_valid _ _)⟩
      intro v' h
      exact at_enterSegment (p := []) hu hcode rfl (by simp only [List.length_nil]; omega) h
  | segment s =>
    obtain ⟨hremaining, entropy, u, fill, high, low, p, hu, hcode, hlen, hp, hcaptured, rfl⟩ := hv
    rw [append_segment_append]
    simp only [JpegValidator.consume, hcaptured, captured_append]
    refine ⟨?_, fun h => absurd h (enterSegment_ne_valid _ _)⟩
    intro v' h
    refine at_enterSegment hu hcode hlen ?_ h
    rw [List.length_append, List.length_singleton]
    omega
  | entropy =>
    by_cases hb : byte = 0xFF
    · subst hb
      exact continues rfl ⟨w, 0, hv, rfl⟩
    · refine continues ?_ (v := ⟨.entropy, sof, sos, n⟩) (Parsed.data hv hb)
      simp only [JpegValidator.consume, if_neg hb]
  | entropyMarker =>
    obtain ⟨u, fill, hu, rfl⟩ := hv
    by_cases hb : byte = 0xFF
    · subst hb
      exact continues rfl ⟨u, fill + 1, hu, append_fill_fill u fill⟩
    · rw [append_fill_append]
      simp only [JpegValidator.consume, if_neg hb]
      by_cases hescape : byte = 0x00 ∨ (0xD0 ≤ byte ∧ byte ≤ 0xD7)
      · exact continues (if_pos hescape) (hu.escape fill hescape)
      · rw [if_neg hescape]
        exact at_handleMarker hu hb
  | finished => exact hv.elim
  | rejected => exact hv.elim

/-- Whatever the validator has read without a verdict can still become an image, unless
    it stands inside a SOF or SOS segment. -/
theorem viable_of_at {v : JpegValidator} {w : Bytes} (hv : At v w) : Viable w := by
  obtain ⟨state, sof, sos, n⟩ := v
  -- every place can be completed to an image
  cases state with
  | soiPrefix =>
    obtain ⟨-, -, rfl⟩ := hv
    exact viable_of_append (p := [0xFF, 0xD8]) Parsed.soi.completable
  | soiCode =>
    obtain ⟨-, -, rfl⟩ := hv
    exact viable_of_append (p := [0xD8]) Parsed.soi.completable
  | markerPrefix => exact Parsed.viable hv
  | markerCode =>
    obtain ⟨u, fill, hu, rfl⟩ := hv
    exact hu.viable_fill fill
  | lengthHigh code =>
    obtain ⟨entropy, u, fill, hu, hcode, rfl⟩ := hv
    exact hu.viable_code fill hcode
  | lengthLow code high =>
    obtain ⟨entropy, u, fill, hu, hcode, rfl⟩ := hv
    exact hu.viable_high fill hcode high
  | segment s =>
    obtain ⟨hremaining, entropy, u, fill, high, low, p, hu, hcode, hlen, hp, -, rfl⟩ := hv
    have hlt : p.length + 2 < beU16 high low := by omega
    -- a segment is filled up to its length
    obtain ⟨pad, hpad, heq⟩ := exists_payload hlt
    rw [segmentBytes, ← List.append_assoc]
    exact hu.viable_segment fill (p := high :: low :: p) hcode heq rfl hpad
  | entropy => exact Parsed.viable hv
  | entropyMarker =>
    obtain ⟨u, fill, hu, rfl⟩ := hv
    exact hu.viable_entropy_fill fill
  | finished => exact hv.elim
  | rejected => exact hv.elim

/-! ## Reading several bytes -/

/-- `v` has consumed one more byte. -/
def JpegValidator.count (v : JpegValidator) : JpegValidator :=
  { v with processedBytes := v.processedBytes + 1 }

/-- The validator after reading `w`, if no byte of it settled the verdict. -/
def JpegValidator.advance (v : JpegValidator) : Bytes → Option JpegValidator
  | [] => some v
  | byte :: rest =>
    if (v.consume byte).1 = .continue then (v.consume byte).2.count.advance rest else none

theorem advance_cons_eq_some {v v' : JpegValidator} {byte : UInt8} {rest : Bytes} :
    v.advance (byte :: rest) = some v' ↔
      ∃ v₁, v.consume byte = (.continue, v₁) ∧ v₁.count.advance rest = some v' := by
  simp only [JpegValidator.advance]
  constructor
  · intro h
    split at h
    · next hstep => exact ⟨_, Prod.ext hstep rfl, h⟩
    · cases h
  · rintro ⟨v₁, hstep, h⟩
    rw [hstep, if_pos rfl]
    exact h

theorem advance_append (v : JpegValidator) (a b : Bytes) :
    v.advance (a ++ b) = (v.advance a).bind fun v' => v'.advance b := by
  induction a generalizing v with
  | nil => rfl
  | cons byte rest ih =>
    simp only [List.cons_append, JpegValidator.advance]
    split
    · exact ih _
    · rfl

theorem consume_processedBytes (v : JpegValidator) (byte : UInt8) :
    (v.consume byte).2.processedBytes = v.processedBytes := by
  simp only [JpegValidator.consume, JpegValidator.enterSegment, JpegValidator.finishSegment,
    JpegValidator.handleMarker]
  repeat' split
  all_goals rfl

theorem advance_processedBytes {v v' : JpegValidator} {w : Bytes} (h : v.advance w = some v') :
    v'.processedBytes = v.processedBytes + w.length := by
  induction w generalizing v with
  | nil =>
    cases h
    rfl
  | cons byte rest ih =>
    obtain ⟨v₁, hstep, h⟩ := advance_cons_eq_some.mp h
    have hsame : v₁.processedBytes = v.processedBytes := by
      have := consume_processedBytes v byte
      rwa [hstep] at this
    have hcount : v₁.count.processedBytes = v₁.processedBytes + 1 := rfl
    rw [ih h, hcount, hsame, List.length_cons]
    omega

theorem at_advance {v v' : JpegValidator} {u w : Bytes} (hv : At v u)
    (h : v.advance w = some v') : At v' (u ++ w) := by
  induction w generalizing v u with
  | nil =>
    cases h
    rwa [List.append_nil]
  | cons byte rest ih =>
    obtain ⟨v₁, hstep, h⟩ := advance_cons_eq_some.mp h
    have hv₁ : At v₁.count (u ++ [byte]) := (at_consume hv byte).1 v₁ hstep
    have := ih hv₁ h
    rwa [List.append_assoc] at this

theorem at_new : At .new [] := ⟨rfl, rfl, rfl⟩

/-! ## The validator reads what the grammar allows -/

/-- The fill bytes of a marker. -/
theorem advance_fill (entropy sof sos : Bool) (n fill : Nat) :
    JpegValidator.advance ⟨boundary entropy, sof, sos, n⟩ (List.replicate (fill + 1) 0xFF) =
      some ⟨opened entropy, sof, sos, n + (fill + 1)⟩ := by
  have hopened : ∀ m, JpegValidator.advance ⟨opened entropy, sof, sos, m⟩
      (List.replicate fill 0xFF) = some ⟨opened entropy, sof, sos, m + fill⟩ := by
    induction fill with
    | zero => exact fun m => rfl
    | succ fill ih =>
      intro m
      rw [List.replicate_succ, advance_cons_eq_some]
      refine ⟨⟨opened entropy, sof, sos, m⟩, by cases entropy <;> rfl, ?_⟩
      have := ih (m + 1)
      rw [show m + (fill + 1) = m + 1 + fill by omega]
      exact this
  rw [List.replicate_succ, advance_cons_eq_some]
  refine ⟨⟨opened entropy, sof, sos, n⟩, by cases entropy <;> rfl, ?_⟩
  rw [show n + (fill + 1) = n + 1 + fill by omega]
  exact hopened (n + 1)

/-- A marker code that is not an escape is handled the same way in and out of
    entropy-coded data. -/
theorem consume_opened {entropy sof sos : Bool} {n : Nat} {code : UInt8} (hne : code ≠ 0xFF)
    (hescape : ¬EntropyCode code) :
    JpegValidator.consume ⟨opened entropy, sof, sos, n⟩ code =
      JpegValidator.handleMarker ⟨opened entropy, sof, sos, n⟩ code := by
  cases entropy
  · exact if_neg hne
  · exact (if_neg hne).trans (if_neg hescape)

theorem advance_marker {entropy sof sos : Bool} {n fill : Nat} {code : UInt8}
    (state : ValidatorState)
    (hcode : JpegValidator.consume ⟨opened entropy, sof, sos, n + (fill + 1)⟩ code =
      (.continue, ⟨state, sof, sos, n + (fill + 1)⟩)) :
    JpegValidator.advance ⟨boundary entropy, sof, sos, n⟩ (markerBytes fill code) =
      some ⟨state, sof, sos, n + (markerBytes fill code).length⟩ := by
  rw [length_markerBytes, markerBytes, advance_append, advance_fill, Option.bind_some,
    advance_cons_eq_some]
  exact ⟨_, hcode, rfl⟩

theorem advance_segment_code {entropy sof sos : Bool} {n fill : Nat} {code : UInt8} {p : Bytes}
    (hcode : SegmentCode code) :
    JpegValidator.advance ⟨boundary entropy, sof, sos, n⟩ (markerBytes fill code ++ p) =
      JpegValidator.advance ⟨.lengthHigh code, sof, sos, n + (fill + 2)⟩ p := by
  obtain ⟨hff, htem, heoi, hescape⟩ := hcode.ne
  rw [advance_append, advance_marker (.lengthHigh code), Option.bind_some,
    length_markerBytes]
  rw [consume_opened hff hescape]
  rcases handleMarker_cases ⟨opened entropy, sof, sos, n + (fill + 1)⟩ hff with
    ⟨h, -⟩ | ⟨h, -⟩ | ⟨-, h⟩ | ⟨h, -⟩
  · exact absurd h htem
  · exact absurd h heoi
  · exact h
  · exact absurd hcode h

/-- The payload of a segment, up to a place before its end. -/
theorem advance_payload (code : UInt8) (declaredLen : Nat) (q p : Bytes) {remaining : Nat}
    (hremaining : 0 < remaining) (sof sos : Bool) (n : Nat) :
    JpegValidator.advance
        ⟨.segment ⟨code, declaredLen, p.length + remaining, q.take 6⟩, sof, sos, n⟩ p =
      some ⟨.segment ⟨code, declaredLen, remaining, (q ++ p).take 6⟩, sof, sos,
        n + p.length⟩ := by
  induction p generalizing q n with
  | nil => simp [JpegValidator.advance]
  | cons byte rest ih =>
    have hconsume : JpegValidator.consume
        ⟨.segment ⟨code, declaredLen, (byte :: rest).length + remaining, q.take 6⟩, sof, sos, n⟩
        byte = (.continue,
          ⟨.segment ⟨code, declaredLen, rest.length + remaining, (q ++ [byte]).take 6⟩, sof, sos,
            n⟩) := by
      simp only [JpegValidator.consume, captured_append, JpegValidator.enterSegment,
        List.length_cons]
      rw [show rest.length + 1 + remaining - 1 = rest.length + remaining by omega,
        if_neg (by omega)]
    rw [advance_cons_eq_some]
    refine ⟨_, hconsume, ?_⟩
    have := ih (q ++ [byte]) (n + 1)
    rw [List.append_assoc] at this
    rw [List.length_cons, show n + (rest.length + 1) = n + 1 + rest.length by omega]
    exact this

theorem consume_length {code high low : UInt8} {payload : Bytes}
    (hlen : beU16 high low = payload.length + 2) (sof sos : Bool) (n : Nat) :
    JpegValidator.consume ⟨.lengthLow code high, sof, sos, n⟩ low =
      JpegValidator.enterSegment ⟨.lengthLow code high, sof, sos, n⟩
        ⟨code, payload.length + 2, payload.length, []⟩ := by
  simp only [JpegValidator.consume, hlen]
  rw [if_neg (by omega), Nat.add_sub_cancel]

/-- The length field of a segment with a payload. -/
theorem advance_length {code high low : UInt8} {payload : Bytes} (hne : payload ≠ [])
    (hlen : beU16 high low = payload.length + 2) (sof sos : Bool) (n : Nat) (p : Bytes) :
    JpegValidator.advance ⟨.lengthHigh code, sof, sos, n⟩ (high :: low :: p) =
      JpegValidator.advance
        ⟨.segment ⟨code, payload.length + 2, payload.length, []⟩, sof, sos, n + 2⟩ p := by
  have hpos := List.length_pos_iff.mpr hne
  have henter : JpegValidator.consume ⟨.lengthLow code high, sof, sos, n + 1⟩ low = (.continue,
      ⟨.segment ⟨code, payload.length + 2, payload.length, []⟩, sof, sos, n + 1⟩) := by
    rw [consume_length hlen]
    exact if_neg (Nat.ne_of_gt hpos)
  show JpegValidator.advance ⟨.lengthLow code high, sof, sos, n + 1⟩ (low :: p) = _
  rw [JpegValidator.advance, henter, if_pos rfl]
  rfl

/-- A whole segment: what its end does decides. -/
theorem advance_segment {entropy sof sos sof' sos' : Bool} {n fill : Nat}
    {code high low : UInt8} {payload : Bytes} {state : ValidatorState}
    (hcode : SegmentCode code) (hlen : beU16 high low = payload.length + 2)
    (hfinish : ∀ v : JpegValidator, v.sawSof = sof → v.sawSos = sos →
      v.finishSegment ⟨code, payload.length + 2, 0, payload.take 6⟩ =
        (.continue, ⟨state, sof', sos', v.processedBytes⟩)) :
    JpegValidator.advance ⟨boundary entropy, sof, sos, n⟩
    (segmentBytes fill code high low payload) =
      some ⟨state, sof', sos', n + (segmentBytes fill code high low payload).length⟩ := by
  have htotal : n + (segmentBytes fill code high low payload).length =
      n + (fill + 2) + 2 + payload.length := by
    simp only [segmentBytes, markerBytes, List.length_append, List.length_replicate,
      List.length_cons, List.length_nil]
    omega
  rw [htotal, segmentBytes, advance_segment_code hcode]
  by_cases hne : payload = []
  · subst hne
    have hend := hfinish ⟨.lengthLow code high, sof, sos, n + (fill + 2) + 1⟩ rfl rfl
    show JpegValidator.advance ⟨.lengthLow code high, sof, sos, n + (fill + 2) + 1⟩ [low] = _
    rw [advance_cons_eq_some]
    refine ⟨⟨state, sof', sos', n + (fill + 2) + 1⟩, ?_, rfl⟩
    rw [consume_length hlen]
    exact hend
  · rw [advance_length hne hlen]
    -- the last byte of the payload finishes the segment
    obtain ⟨p, byte, rfl⟩ := List.eq_nil_or_concat payload |>.resolve_left hne
    rw [List.concat_eq_append] at hfinish ⊢
    rw [advance_append]
    have hread := advance_payload code ((p ++ [byte]).length + 2) [] p Nat.one_pos sof sos
      (n + (fill + 2) + 2)
    rw [show p.length + 1 = (p ++ [byte]).length by simp, List.take_nil, List.nil_append] at hread
    rw [hread, Option.bind_some, advance_cons_eq_some]
    have hend := hfinish ⟨.segment ⟨code, (p ++ [byte]).length + 2, 1, p.take 6⟩, sof, sos,
      n + (fill + 2) + 2 + p.length⟩ rfl rfl
    refine ⟨⟨state, sof', sos', n + (fill + 2) + 2 + p.length⟩, ?_, ?_⟩
    · simp only [JpegValidator.consume, captured_append, JpegValidator.enterSegment, Nat.sub_self,
        if_true]
      exact hend
    · simp only [JpegValidator.count, JpegValidator.advance, List.length_append,
        List.length_singleton, Nat.add_assoc]

/-- A beginning of a segment. -/
theorem advance_open_segment {code high low : UInt8} {payload p q : Bytes}
    (hlen : beU16 high low = payload.length + 2) (hp : p ++ q = high :: low :: payload)
    (hq : q ≠ []) (sof sos : Bool) (n : Nat) :
    (JpegValidator.advance ⟨.lengthHigh code, sof, sos, n⟩ p).isSome := by
  rcases p with _ | ⟨high', _ | ⟨low', p⟩⟩
  · rfl
  · rfl
  · simp only [List.cons_append, List.cons.injEq] at hp
    obtain ⟨rfl, rfl, rfl⟩ := hp
    have hne : p ++ q ≠ [] := List.append_ne_nil_of_right_ne_nil p hq
    rw [advance_length hne hlen]
    have := advance_payload code ((p ++ q).length + 2) [] p (List.length_pos_iff.mpr hq) sof sos
      (n + 2)
    rw [← List.length_append, List.take_nil] at this
    rw [this]
    rfl

theorem finishSegment_plain {v : JpegValidator} {s : SegmentState} (h : ¬JudgedCode s.marker) :
    v.finishSegment s = (.continue, ⟨.markerPrefix, v.sawSof, v.sawSos, v.processedBytes⟩) := by
  obtain ⟨hsof, hsos⟩ := not_or.mp h
  simp only [JpegValidator.finishSegment]
  rw [if_neg hsof, if_neg hsos]

theorem finishSegment_frame {v : JpegValidator} {s : SegmentState} (hsof : isSof s.marker = true)
    (hvalid : validSof s = true) :
    v.finishSegment s = (.continue, ⟨.markerPrefix, true, v.sawSos, v.processedBytes⟩) := by
  simp only [JpegValidator.finishSegment]
  rw [if_pos hsof, if_neg (by simp [hvalid])]

theorem finishSegment_scan {v : JpegValidator} {s : SegmentState} (hsos : s.marker = 0xDA)
    (hseen : v.sawSof = true) (hvalid : validSos s = true) :
    v.finishSegment s = (.continue, ⟨.entropy, true, true, v.processedBytes⟩) := by
  simp only [JpegValidator.finishSegment]
  rw [if_neg (by rw [hsos]; decide), if_pos hsos, if_neg (by simp [hseen, hvalid]), hseen]

/-- The validator reads every beginning that ends with a complete item. -/
theorem Parsed.advance {entropy sof sos : Bool} {w : Bytes} (h : Parsed entropy sof sos w) :
    JpegValidator.new.advance w = some ⟨boundary entropy, sof, sos, w.length⟩ := by
  -- each rule of the grammar is a run of the validator
  induction h with
  | soi => rfl
  | tem fill _ ih =>
    rw [advance_append, ih, Option.bind_some, List.length_append]
    apply advance_marker
    exact consume_opened (by decide) (by decide)
  | segment fill _ hcode hplain hlen ih =>
    rw [advance_append, ih, Option.bind_some, List.length_append]
    apply advance_segment hcode hlen
    rintro v rfl rfl
    exact finishSegment_plain hplain
  | frame fill _ hsof hlen hframe ih =>
    rw [advance_append, ih, Option.bind_some, List.length_append]
    apply advance_segment (segmentCode_of_judged (Or.inl hsof)) hlen
    rintro v rfl rfl
    exact finishSegment_frame hsof (validSof_iff.mpr hframe)
  | scan fill _ hlen hscan ih =>
    rw [advance_append, ih, Option.bind_some, List.length_append]
    apply advance_segment (segmentCode_of_judged (Or.inr rfl)) hlen
    intro v hseen _
    exact finishSegment_scan rfl hseen (validSos_iff.mpr hscan)
  | @data sof sos w byte _ hne ih =>
    rw [advance_append, ih, Option.bind_some, advance_cons_eq_some, List.length_append]
    exact ⟨⟨.entropy, sof, sos, w.length⟩, Prod.ext rfl (if_neg hne), rfl⟩
  | escape fill _ hcode ih =>
    rw [advance_append, ih, Option.bind_some, List.length_append]
    apply advance_marker
    exact (if_neg hcode.ne_fill).trans (if_pos hcode)

/-- The last byte of an image, and no earlier one, makes the validator accept. -/
theorem IsImage.consume {w : Bytes} (h : IsImage w) :
    ∃ u byte v, w = u ++ [byte] ∧ JpegValidator.new.advance u = some v ∧
      (v.consume byte).1 = .valid := by
  obtain ⟨entropy, u, fill, hu, rfl⟩ := h
  refine ⟨u ++ List.replicate (fill + 1) 0xFF, 0xD9, ⟨opened entropy, true, true,
    u.length + (fill + 1)⟩, ?_, ?_, ?_⟩
  · rw [markerBytes, List.append_assoc]
  · rw [advance_append, hu.advance, Option.bind_some]
    exact advance_fill entropy true true u.length fill
  · rw [consume_opened (by decide) (by decide)]
    rfl

theorem OpenSegment.advance {w : Bytes} (h : OpenSegment w) :
    (JpegValidator.new.advance w).isSome := by
  obtain ⟨entropy, sof, sos, u, fill, code, high, low, payload, p, hu, hcode, hlen, ⟨q, hq⟩, hne,
    rfl⟩ := h
  have hq' : q ≠ [] := by
    rintro rfl
    rw [List.append_nil] at hq
    exact hne hq
  rw [List.append_assoc, advance_append, hu.advance, Option.bind_some,
    advance_segment_code (segmentCode_of_judged hcode)]
  exact advance_open_segment hlen hq hq' _ _ _

/-! ## Verdicts on whole byte strings -/

/-- The validator has read `w` without a verdict. -/
def Alive (w : Bytes) : Prop := (JpegValidator.new.advance w).isSome

theorem alive_append {u w : Bytes} (h : Alive (u ++ w)) : Alive u := by
  unfold Alive at *
  rw [advance_append] at h
  cases hu : JpegValidator.new.advance u with
  | none =>
    rw [hu] at h
    exact h
  | some v => rfl

theorem alive_take {w : Bytes} (h : Alive w) (n : Nat) : Alive (w.take n) := by
  rw [← List.take_append_drop n w] at h
  exact alive_append h

theorem Alive.viable {w : Bytes} (h : Alive w) : Viable w := by
  obtain ⟨v, hv⟩ := Option.isSome_iff_exists.mp h
  exact viable_of_at (at_advance at_new hv)

theorem not_alive_of_consume {u : Bytes} {byte : UInt8} {v : JpegValidator}
    (hu : JpegValidator.new.advance u = some v) (h : (v.consume byte).1 ≠ .continue) :
    ¬Alive (u ++ [byte]) := by
  unfold Alive
  rw [advance_append, hu, Option.bind_some, JpegValidator.advance, if_neg h]
  exact Bool.false_ne_true

theorem IsImage.not_alive {w : Bytes} (h : IsImage w) : ¬Alive w := by
  obtain ⟨u, byte, v, rfl, hu, hvalid⟩ := h.consume
  exact not_alive_of_consume hu (by rw [hvalid]; decide)

/-- A byte the validator rejects leaves no continuation. -/
theorem not_viable_of_consume {u : Bytes} {byte : UInt8} {v : JpegValidator}
    (hu : JpegValidator.new.advance u = some v) (h : (v.consume byte).1 = .invalid) :
    ¬Viable (u ++ [byte]) := by
  have hdead : ¬Alive (u ++ [byte]) := not_alive_of_consume hu (by rw [h]; decide)
  rintro (⟨rest, hrest⟩ | hopen)
  · obtain ⟨u', byte', v', heq, hu', hvalid⟩ := hrest.consume
    rcases List.eq_nil_or_concat rest with rfl | ⟨rest', last, rfl⟩
    · -- the image would end with the rejected byte
      rw [List.append_nil] at heq
      obtain ⟨rfl, hbyte⟩ := List.append_inj' heq rfl
      simp only [List.cons.injEq, and_true] at hbyte
      rw [hu, Option.some.injEq] at hu'
      rw [← hbyte, ← hu', h] at hvalid
      exact absurd hvalid (by decide)
    · rw [List.concat_eq_append, ← List.append_assoc] at heq
      obtain ⟨rfl, -⟩ := List.append_inj' heq rfl
      exact hdead (alive_append (Option.isSome_iff_exists.mpr ⟨v', hu'⟩))
  · exact hdead hopen.advance

/-! ## Feeding slices -/

/-- The status a validator in this state answers every further slice with. -/
def JpegValidator.status (v : JpegValidator) : JpegStatus :=
  match v.state with
  | .finished => .valid
  | .rejected => .invalid
  | _ => .needMore

/-- The verdict a step settles. -/
def Step.status : Step → JpegStatus
  | .continue => .needMore
  | .valid => .valid
  | .invalid => .invalid

theorem status_eq_needMore {v : JpegValidator} :
    v.status = .needMore ↔ v.state ≠ .finished ∧ v.state ≠ .rejected := by
  unfold JpegValidator.status
  cases v.state <;> simp

theorem feed_of_needMore {v : JpegValidator} (h : v.status = .needMore) (bytes : Bytes) :
    v.feed bytes = v.feedFrom 0 bytes := by
  obtain ⟨hfinished, hrejected⟩ := status_eq_needMore.mp h
  unfold JpegValidator.feed
  split
  · next heq => exact absurd heq hfinished
  · next heq => exact absurd heq hrejected
  · rfl

theorem handleMarker_status {v : JpegValidator} (h : v.status = .needMore) (code : UInt8) :
    (v.handleMarker code).2.status = .needMore := by
  unfold JpegValidator.handleMarker
  repeat' split
  all_goals first | exact h | rfl

theorem enterSegment_status {v : JpegValidator} (h : v.status = .needMore) (s : SegmentState) :
    (v.enterSegment s).2.status = .needMore := by
  unfold JpegValidator.enterSegment JpegValidator.finishSegment
  repeat' split
  all_goals first | exact h | rfl

/-- A byte alone does not finish or reject: `feed` does. -/
theorem consume_status {v : JpegValidator} (h : v.status = .needMore) (byte : UInt8) :
    (v.consume byte).2.status = .needMore := by
  simp only [JpegValidator.consume]
  repeat' split
  all_goals first
    | exact h
    | rfl
    | exact handleMarker_status h byte
    | exact enterSegment_status h _

/-- The status that `feed` reports is that of the state it leaves. -/
theorem feedFrom_status {v : JpegValidator} (h : v.status = .needMore) (index : Nat)
    (bytes : Bytes) : (v.feedFrom index bytes).1.status = (v.feedFrom index bytes).2.status := by
  induction bytes generalizing v index with
  | nil => exact h.symm
  | cons byte rest ih =>
    simp only [JpegValidator.feedFrom]
    split
    · rfl
    · split
      · apply ih
        exact consume_status h byte
      · rfl
      · rfl

theorem feed_status (v : JpegValidator) (bytes : Bytes) :
    (v.feed bytes).1.status = (v.feed bytes).2.status := by
  by_cases h : v.status = .needMore
  · rw [feed_of_needMore h]
    exact feedFrom_status h 0 bytes
  · unfold JpegValidator.feed
    split
    · next heq => simp only [JpegValidator.status, heq]
    · next heq => simp only [JpegValidator.status, heq]
    · next hfinished hrejected =>
      exact absurd (status_eq_needMore.mpr ⟨hfinished, hrejected⟩) h

/-- A settled validator consumes nothing more. -/
theorem feed_of_settled {v : JpegValidator} (h : v.status ≠ .needMore) (bytes : Bytes) :
    (v.feed bytes).2 = v := by
  unfold JpegValidator.feed
  split
  · rfl
  · rfl
  · next hfinished hrejected =>
    exact absurd (status_eq_needMore.mpr ⟨hfinished, hrejected⟩) h

/-- Where in the slice the loop stands does not affect the state. -/
theorem feedFrom_index (v : JpegValidator) (bytes : Bytes) (i j : Nat) :
    (v.feedFrom i bytes).2 = (v.feedFrom j bytes).2 := by
  induction bytes generalizing v i j with
  | nil => rfl
  | cons byte rest ih =>
    simp only [JpegValidator.feedFrom]
    split
    · rfl
    · split
      · exact ih _ _ _
      · rfl
      · rfl

theorem feedFrom_append {v : JpegValidator} (h : v.status = .needMore) (index j : Nat)
    (a b : Bytes) :
    (v.feedFrom index (a ++ b)).2 = ((v.feedFrom j a).2.feed b).2 := by
  induction a generalizing v index j with
  | nil =>
    show (v.feedFrom index b).2 = (v.feed b).2
    rw [feed_of_needMore h]
    exact feedFrom_index v b index 0
  | cons byte rest ih =>
    simp only [List.cons_append, JpegValidator.feedFrom]
    split
    · exact (feed_of_settled (by simp [JpegValidator.status]) b).symm
    · split
      · apply ih
        exact consume_status h byte
      · exact (feed_of_settled (by simp [JpegValidator.status]) b).symm
      · exact (feed_of_settled (by simp [JpegValidator.status]) b).symm

theorem feed_append (v : JpegValidator) (a b : Bytes) :
    (v.feed (a ++ b)).2 = ((v.feed a).2.feed b).2 := by
  by_cases h : v.status = .needMore
  · rw [feed_of_needMore h, feed_of_needMore h]
    exact feedFrom_append h 0 0 a b
  · rw [feed_of_settled h, feed_of_settled h, feed_of_settled h]

theorem feed_nil (v : JpegValidator) : (v.feed []).2 = v := by
  by_cases h : v.status = .needMore
  · rw [feed_of_needMore h]
    rfl
  · exact feed_of_settled h []

/-- The validator fed the slices one after the other, with the status of the last call. -/
def JpegValidator.feedAll (v : JpegValidator) (slices : List Bytes) : JpegStatus × JpegValidator :=
  slices.foldl (fun acc slice => ((acc.2.feed slice).1.status, (acc.2.feed slice).2)) (v.status, v)

theorem feedAll_cons (v : JpegValidator) (slice : Bytes) (slices : List Bytes) :
    v.feedAll (slice :: slices) = (v.feed slice).2.feedAll slices := by
  simp only [JpegValidator.feedAll, List.foldl_cons, feed_status]

/-- Feeding slices is feeding their concatenation. -/
theorem feedAll_eq_feed (v : JpegValidator) (slices : List Bytes) :
    v.feedAll slices = ((v.feed slices.flatten).1.status, (v.feed slices.flatten).2) := by
  induction slices generalizing v with
  | nil => rw [List.flatten_nil, feed_status, feed_nil]; rfl
  | cons slice slices ih =>
    rw [feedAll_cons, ih, List.flatten_cons, feed_status, feed_status, feed_append]

/-- The loop of `feed`: it reads the slice without a verdict, or stops at the byte that
    settles it. -/
theorem feedFrom_cases (v : JpegValidator) (index : Nat) (w : Bytes)
    (hlen : v.processedBytes + w.length < 2 ^ 64) :
    (∃ v', v.advance w = some v' ∧ v.feedFrom index w = (⟨index + w.length, .needMore⟩, v')) ∨
    ∃ u byte rest v₁ v', w = u ++ byte :: rest ∧ v.advance u = some v₁ ∧
      (v₁.consume byte).1 ≠ .continue ∧ v'.processedBytes = v₁.processedBytes + 1 ∧
      v.feedFrom index w = (⟨index + (u.length + 1), (v₁.consume byte).1.status⟩, v') := by
  -- the first byte goes on, or settles the verdict
  induction w generalizing v index with
  | nil => exact Or.inl ⟨v, rfl, rfl⟩
  | cons byte rest ih =>
    rw [List.length_cons] at hlen
    have hcount : U64.checkedAdd (v.consume byte).2.processedBytes 1 =
        some ((v.consume byte).2.processedBytes + 1) := by
      apply U64.checkedAdd_of_lt
      rw [consume_processedBytes]
      omega
    simp only [JpegValidator.feedFrom, hcount]
    cases hstep : (v.consume byte).1 with
    | «continue» =>
      have hlen' : (v.consume byte).2.count.processedBytes + rest.length < 2 ^ 64 := by
        show (v.consume byte).2.processedBytes + 1 + rest.length < 2 ^ 64
        rw [consume_processedBytes]
        omega
      rcases ih (v.consume byte).2.count (index + 1) hlen' with
        ⟨v', hv', heq⟩ | ⟨u, byte', rest', v₁, v', rfl, hv₁, hsettled, hprocessed, heq⟩
      · refine Or.inl ⟨v', ?_, ?_⟩
        · rw [JpegValidator.advance, if_pos hstep, hv']
        · rw [List.length_cons, Nat.add_comm rest.length, ← Nat.add_assoc]
          exact heq
      · refine Or.inr ⟨byte :: u, byte', rest', v₁, v', rfl, ?_, hsettled, hprocessed, ?_⟩
        · rw [JpegValidator.advance, if_pos hstep, hv₁]
        · have hindex : index + ((byte :: u).length + 1) = index + 1 + (u.length + 1) := by
            rw [List.length_cons]
            omega
          rw [hindex]
          exact heq
    | valid =>
      refine Or.inr ⟨[], byte, rest, v, { (v.consume byte).2.count with state := .finished }, rfl,
        rfl, ?_, congrArg (· + 1) (consume_processedBytes v byte), ?_⟩
      · rw [hstep]
        decide
      · rw [hstep]
        rfl
    | invalid =>
      refine Or.inr ⟨[], byte, rest, v, { (v.consume byte).2.count with state := .rejected }, rfl,
        rfl, ?_, congrArg (· + 1) (consume_processedBytes v byte), ?_⟩
      · rw [hstep]
        decide
      · rw [hstep]
        rfl

/-- What feeding `w` to a new validator says about `w`: no verdict, or a verdict after
    the first byte that settles it. -/
theorem feed_new_cases {w : Bytes} (hlen : w.length < 2 ^ 64) :
    ((JpegValidator.new.feed w).1.status = .needMore ∧ Alive w) ∨
    ∃ u byte rest v, w = u ++ byte :: rest ∧ JpegValidator.new.advance u = some v ∧
      (v.consume byte).1 ≠ .continue ∧
      (JpegValidator.new.feed w).1 = ⟨u.length + 1, (v.consume byte).1.status⟩ ∧
      (JpegValidator.new.feed w).2.processedBytes = u.length + 1 := by
  rw [feed_of_needMore rfl]
  rcases feedFrom_cases .new 0 w (by rwa [show JpegValidator.new.processedBytes = 0 from rfl,
    Nat.zero_add]) with ⟨v', hv', heq⟩ | ⟨u, byte, rest, v, v', rfl, hv, hsettled, hcount, heq⟩
  · rw [heq]
    exact Or.inl ⟨rfl, Option.isSome_iff_exists.mpr ⟨v', hv'⟩⟩
  · have hu : v.processedBytes = u.length := by
      rw [advance_processedBytes hv]
      exact Nat.zero_add _
    rw [heq, hcount, hu, Nat.zero_add]
    exact Or.inr ⟨u, byte, rest, v, rfl, hv, hsettled, rfl, rfl⟩

/-- An image is accepted exactly when the validator, with no verdict before, accepts
    its last byte. -/
theorem isImage_concat_iff {u : Bytes} {byte : UInt8} {v : JpegValidator}
    (hu : JpegValidator.new.advance u = some v) :
    IsImage (u ++ [byte]) ↔ (v.consume byte).1 = .valid := by
  constructor
  · intro h
    obtain ⟨u', byte', v', heq, hu', hvalid⟩ := h.consume
    obtain ⟨rfl, hbyte⟩ := List.append_inj' heq rfl
    simp only [List.cons.injEq, and_true] at hbyte
    rw [hu, Option.some.injEq] at hu'
    rwa [hu', hbyte]
  · exact (at_consume (at_advance at_new hu) byte).2

/-- Up to the byte that settles the verdict, nothing is an image and everything can
    still become one. -/
theorem before_verdict {u : Bytes} {v : JpegValidator} (hu : JpegValidator.new.advance u = some v)
    {w : Bytes} {m : Nat} (hm : m < u.length + 1) :
    Viable ((u ++ w).take m) ∧ ¬IsImage ((u ++ w).take m) := by
  rw [List.take_append_of_le_length (by omega)]
  have halive : Alive (u.take m) := alive_take (Option.isSome_iff_exists.mpr ⟨v, hu⟩) m
  exact ⟨halive.viable, fun h => h.not_alive halive⟩

/-- The validator reports Valid after the first image, and Invalid after the first byte
    that no continuation allows or, inside a SOF or SOS segment, after its last byte. -/
theorem feedAll_verdict (slices : List Bytes) (hlen : slices.flatten.length < 2 ^ 64) :
    (JpegValidator.new.feedAll slices =
      ((JpegValidator.new.feed slices.flatten).1.status,
        (JpegValidator.new.feed slices.flatten).2)) ∧
    ∀ n,
      ((JpegValidator.new.feedAll slices).1 = .valid ∧
          (JpegValidator.new.feedAll slices).2.processedBytes = n ↔
        n ≤ slices.flatten.length ∧ IsImage (slices.flatten.take n) ∧
          ∀ m < n, ¬IsImage (slices.flatten.take m)) ∧
      ((JpegValidator.new.feedAll slices).1 = .invalid ∧
          (JpegValidator.new.feedAll slices).2.processedBytes = n ↔
        n ≤ slices.flatten.length ∧ ¬Viable (slices.flatten.take n) ∧
          ∀ m < n, Viable (slices.flatten.take m) ∧ ¬IsImage (slices.flatten.take m)) := by
  refine ⟨feedAll_eq_feed .new slices, ?_⟩
  intro n
  rw [feedAll_eq_feed]
  -- no byte settles a verdict, or exactly one does
  rcases feed_new_cases hlen with ⟨hstatus, halive⟩ |
    ⟨u, byte, rest, v, hw, hu, hsettled, hverdict, hcount⟩
  · rw [hstatus]
    constructor
    · constructor
      · rintro ⟨h, -⟩
        exact JpegStatus.noConfusion h
      · intro h
        exact absurd (alive_take halive n) h.2.1.not_alive
    · constructor
      · rintro ⟨h, -⟩
        exact JpegStatus.noConfusion h
      · intro h
        exact absurd (alive_take halive n).viable h.2.1
  · rw [hverdict, hcount]
    -- before that byte everything is viable and nothing is an image
    have hbefore : ∀ m, m < u.length + 1 →
        Viable (slices.flatten.take m) ∧ ¬IsImage (slices.flatten.take m) := by
      intro m hm
      rw [hw]
      exact before_verdict hu hm
    have htake : slices.flatten.take (u.length + 1) = u ++ [byte] := by
      rw [hw, List.take_length_add_append]
      rfl
    have hle : u.length + 1 ≤ slices.flatten.length := by
      rw [hw, List.length_append, List.length_cons]
      omega
    cases hstep : (v.consume byte).1 with
    | «continue» => exact absurd hstep hsettled
    | valid =>
      have himage : IsImage (slices.flatten.take (u.length + 1)) := by
        rw [htake]
        exact (isImage_concat_iff hu).mpr hstep
      constructor
      · constructor
        · rintro ⟨-, rfl⟩
          exact ⟨hle, himage, fun m hm => (hbefore m hm).2⟩
        · rintro ⟨-, hn, hleast⟩
          refine ⟨rfl, Nat.le_antisymm ?_ ?_⟩
          · exact Nat.le_of_not_lt fun h => (hbefore n h).2 hn
          · exact Nat.le_of_not_lt fun h => hleast _ h himage
      · constructor
        · rintro ⟨h, -⟩
          exact JpegStatus.noConfusion h
        · rintro ⟨-, hn, hleast⟩
          rcases Nat.lt_trichotomy n (u.length + 1) with h | h | h
          · exact absurd (hbefore n h).1 hn
          · rw [h] at hn
            exact absurd (Or.inl ⟨[], by rwa [List.append_nil]⟩) hn
          · exact absurd himage (hleast _ h).2
    | invalid =>
      have hdead : ¬Viable (slices.flatten.take (u.length + 1)) := by
        rw [htake]
        exact not_viable_of_consume hu hstep
      constructor
      · constructor
        · rintro ⟨h, -⟩
          exact JpegStatus.noConfusion h
        · rintro ⟨-, hn, -⟩
          by_cases h : n < u.length + 1
          · exact absurd hn (hbefore n h).2
          · rw [← Nat.add_sub_of_le (Nat.le_of_not_lt h), List.take_add] at hn
            exact absurd (Or.inl ⟨_, hn⟩) hdead
      · constructor
        · rintro ⟨-, rfl⟩
          exact ⟨hle, hdead, hbefore⟩
        · rintro ⟨-, hn, hleast⟩
          refine ⟨rfl, Nat.le_antisymm ?_ ?_⟩
          · exact Nat.le_of_not_lt fun h => hn (hbefore n h).1
          · exact Nat.le_of_not_lt fun h => hdead (hleast _ h).1

/-- A smallest image fed in two slices, cut inside a marker. -/
theorem feedAll_verdict_smallest :
    (JpegValidator.new.feedAll
      [[0xFF, 0xD8, 0xFF], [0xC0, 0, 11, 8, 0, 1, 0, 1, 1, 1, 0x11, 0, 0xFF, 0xDA, 0, 8, 1, 1, 0,
        0, 63, 0, 0x42, 0xFF, 0xD9]]).1 = .valid ∧
    IsImage [0xFF, 0xD8, 0xFF, 0xC0, 0, 11, 8, 0, 1, 0, 1, 1, 1, 0x11, 0, 0xFF, 0xDA, 0, 8, 1, 1,
      0, 0, 63, 0, 0x42, 0xFF, 0xD9] := by
  have h := (feedAll_verdict
    [[0xFF, 0xD8, 0xFF], [0xC0, 0, 11, 8, 0, 1, 0, 1, 1, 1, 0x11, 0, 0xFF, 0xDA, 0, 8, 1, 1, 0,
      0, 63, 0, 0x42, 0xFF, 0xD9]] (by decide)).2 28
  exact ⟨by decide, (h.1.mp (by decide)).2.1⟩

/-- A SOF segment of length three can only be malformed, but its length field is no
    reason for the validator to reject it. -/
theorem feed_short_frame :
    (JpegValidator.new.feed [0xFF, 0xD8, 0xFF, 0xC0, 0, 3]).1.status = .needMore ∧
    ∀ rest, ¬IsImage ([0xFF, 0xD8, 0xFF, 0xC0, 0, 3] ++ rest) := by
  have hread : JpegValidator.new.advance [0xFF, 0xD8, 0xFF, 0xC0, 0, 3] =
      some ⟨.segment ⟨0xC0, 3, 1, []⟩, false, false, 6⟩ := by
    decide
  refine ⟨by decide, ?_⟩
  intro rest h
  cases rest with
  | nil => exact h.not_alive (Option.isSome_iff_exists.mpr ⟨_, hread⟩)
  | cons byte rest =>
    have hdead : ¬Viable (_ ++ [byte]) := not_viable_of_consume hread rfl
    exact hdead (Or.inl ⟨rest, h⟩)

end Undelete.Carve
