import Undelete.Native.Carve.Jpeg

/-!
# The JPEG marker grammar

The byte strings the validator is meant to accept, as a grammar over whole
markers and segments: an image is SOI, then a sequence of TEM markers, segments
and scans with their entropy-coded data, then EOI. Every marker may be preceded
by fill bytes. A SOF has to come before the first SOS, and both before EOI.

## Key results

- `Parsed.completable`: whatever follows the grammar so far can be completed to an
  image.
- `Parsed.viable_code`, `Parsed.viable_segment`: so can an open marker or segment, unless
  it is a SOF or a SOS segment, which only its last byte decides.
-/

namespace Undelete.Carve

/-- A marker: `fill + 1` bytes FF and the code. -/
def markerBytes (fill : Nat) (code : UInt8) : Bytes := List.replicate (fill + 1) 0xFF ++ [code]

/-- A segment; `high` and `low` are its length field. -/
def segmentBytes (fill : Nat) (code high low : UInt8) (payload : Bytes) : Bytes :=
  markerBytes fill code ++ high :: low :: payload

/-- The codes that start a segment. -/
def SegmentCode (code : UInt8) : Prop :=
  0xC0 ≤ code ∧ code ≤ 0xFE ∧ ¬(0xD0 ≤ code ∧ code ≤ 0xD9)

/-- The codes of the segments whose content counts: SOF and SOS. -/
def JudgedCode (code : UInt8) : Prop := isSof code = true ∨ code = 0xDA

instance (code : UInt8) : Decidable (SegmentCode code) :=
  inferInstanceAs (Decidable (_ ∧ _ ∧ ¬_))

instance (code : UInt8) : Decidable (JudgedCode code) := inferInstanceAs (Decidable (_ ∨ _))

/-- FF 00 and the restart markers stay inside the entropy-coded data. -/
def EntropyCode (code : UInt8) : Prop := code = 0x00 ∨ (0xD0 ≤ code ∧ code ≤ 0xD7)

instance (code : UInt8) : Decidable (EntropyCode code) := inferInstanceAs (Decidable (_ ∨ _))

/-- The payload of a frame header, of length 8 + 3c with its length field. -/
def FrameHeader (payload : Bytes) : Prop :=
  ∃ precision h₁ h₀ w₁ w₀ components specs,
    payload = precision :: h₁ :: h₀ :: w₁ :: w₀ :: components :: specs ∧
    0 < beU16 h₁ h₀ ∧ 0 < beU16 w₁ w₀ ∧ 0 < components.toNat ∧
    payload.length + 2 = 8 + 3 * components.toNat

/-- The payload of a scan header, of length 6 + 2c with its length field. -/
def ScanHeader (payload : Bytes) : Prop :=
  ∃ components specs, payload = components :: specs ∧ 0 < components.toNat ∧
    payload.length + 2 = 6 + 2 * components.toNat

/-- The beginnings of an image that end with a complete item. `entropy` says whether
    entropy-coded data goes on, `sof` and `sos` whether such a segment has been seen. -/
inductive Parsed : (entropy sof sos : Bool) → Bytes → Prop where
  | soi : Parsed false false false [0xFF, 0xD8]
  | tem {entropy sof sos w} (fill : Nat) : Parsed entropy sof sos w →
      Parsed false sof sos (w ++ markerBytes fill 0x01)
  | segment {entropy sof sos w} (fill : Nat) {code high low : UInt8} {payload : Bytes} :
      Parsed entropy sof sos w → SegmentCode code → ¬JudgedCode code →
      beU16 high low = payload.length + 2 →
      Parsed false sof sos (w ++ segmentBytes fill code high low payload)
  | frame {entropy sof sos w} (fill : Nat) {code high low : UInt8} {payload : Bytes} :
      Parsed entropy sof sos w → isSof code = true →
      beU16 high low = payload.length + 2 → FrameHeader payload →
      Parsed false true sos (w ++ segmentBytes fill code high low payload)
  | scan {entropy sos w} (fill : Nat) {high low : UInt8} {payload : Bytes} :
      Parsed entropy true sos w → beU16 high low = payload.length + 2 → ScanHeader payload →
      Parsed true true true (w ++ segmentBytes fill 0xDA high low payload)
  | data {sof sos w} {byte : UInt8} : Parsed true sof sos w → byte ≠ 0xFF →
      Parsed true sof sos (w ++ [byte])
  | escape {sof sos w} (fill : Nat) {code : UInt8} : Parsed true sof sos w → EntropyCode code →
      Parsed true sof sos (w ++ markerBytes fill code)

/-- The byte strings that match the marker grammar. -/
def IsImage (w : Bytes) : Prop :=
  ∃ entropy u fill, Parsed entropy true true u ∧ w = u ++ markerBytes fill 0xD9

/-- The beginnings of an image inside a SOF or SOS segment. Its content is not looked
    at: the segment may turn out malformed. -/
def OpenSegment (w : Bytes) : Prop :=
  ∃ entropy sof sos u fill code high low payload p, Parsed entropy sof sos u ∧ JudgedCode code ∧
    beU16 high low = payload.length + 2 ∧ p <+: high :: low :: payload ∧
    p ≠ high :: low :: payload ∧ w = u ++ markerBytes fill code ++ p

/-- The beginnings that some continuation completes to an image, and those inside a
    SOF or SOS segment. -/
def Viable (w : Bytes) : Prop := (∃ rest, IsImage (w ++ rest)) ∨ OpenSegment w

@[simp] theorem length_markerBytes (fill : Nat) (code : UInt8) :
    (markerBytes fill code).length = fill + 2 := by
  simp [markerBytes]

/-! ## Completions -/

theorem entropyCode_zero : EntropyCode 0x00 := Or.inl rfl

private theorem frameHeader_smallest : FrameHeader [8, 0, 1, 0, 1, 1, 1, 0x11, 0] :=
  ⟨8, 0, 1, 0, 1, 1, [1, 0x11, 0], by decide⟩

private theorem scanHeader_smallest : ScanHeader [1, 1, 0, 0, 63, 0] :=
  ⟨1, [1, 0, 0, 63, 0], by decide⟩

/-- A frame, a scan and EOI complete any sequence of items. -/
theorem Parsed.completable {entropy sof sos : Bool} {w : Bytes} (h : Parsed entropy sof sos w) :
    ∃ rest, IsImage (w ++ rest) := by
  have hframe := h.frame 0 (show isSof 0xC0 = true by decide) (show beU16 0 11 = 9 + 2 by decide)
    frameHeader_smallest
  have hscan := hframe.scan 0 (show beU16 0 8 = 6 + 2 by decide) scanHeader_smallest
  exact ⟨_, true, _, 0, hscan, by rw [List.append_assoc w, List.append_assoc w]⟩

theorem Parsed.viable {entropy sof sos : Bool} {w : Bytes} (h : Parsed entropy sof sos w) :
    Viable w :=
  Or.inl h.completable

theorem viable_of_append {w p : Bytes} (h : ∃ rest, IsImage (w ++ p ++ rest)) : Viable w := by
  obtain ⟨rest, hrest⟩ := h
  exact Or.inl ⟨p ++ rest, by rwa [← List.append_assoc]⟩

/-- Fill bytes at a marker boundary: an application segment may follow. -/
theorem Parsed.viable_fill {entropy sof sos : Bool} {w : Bytes} (h : Parsed entropy sof sos w)
    (fill : Nat) : Viable (w ++ List.replicate (fill + 1) 0xFF) := by
  have happ := h.segment fill (show SegmentCode 0xE0 by decide) (by decide)
    (show beU16 0 2 = ([] : Bytes).length + 2 by decide)
  apply viable_of_append (p := [0xE0, 0, 2])
  have heq : w ++ List.replicate (fill + 1) 0xFF ++ [0xE0, 0, 2] =
      w ++ segmentBytes fill 0xE0 0 2 [] := by
    simp [segmentBytes, markerBytes]
  rw [heq]
  exact happ.completable

/-- Fill bytes in entropy-coded data, before a stuffed zero. -/
theorem Parsed.viable_entropy_fill {sof sos : Bool} {w : Bytes} (h : Parsed true sof sos w)
    (fill : Nat) : Viable (w ++ List.replicate (fill + 1) 0xFF) := by
  apply viable_of_append (p := [0x00])
  rw [List.append_assoc]
  exact (h.escape fill entropyCode_zero).completable

/-- Any length field of at least two is the length field of some payload. -/
theorem exists_payload {high low : UInt8} {p : Bytes} (h : p.length + 2 < beU16 high low) :
    ∃ pad : Bytes, pad ≠ [] ∧ beU16 high low = (p ++ pad).length + 2 := by
  refine ⟨List.replicate (beU16 high low - 2 - p.length) 0, ?_, ?_⟩
  · apply List.ne_nil_of_length_pos
    rw [List.length_replicate]
    omega
  · rw [List.length_append, List.length_replicate]
    omega

/-- A segment that is not complete yet. -/
theorem Parsed.viable_segment {entropy sof sos : Bool} {w : Bytes}
    (h : Parsed entropy sof sos w) (fill : Nat) {code high low : UInt8} {payload p q : Bytes}
    (hcode : SegmentCode code) (hlen : beU16 high low = payload.length + 2)
    (hp : p ++ q = high :: low :: payload) (hq : q ≠ []) :
    Viable (w ++ markerBytes fill code ++ p) := by
  by_cases hj : JudgedCode code
  · have hne : p ≠ high :: low :: payload := by
      intro heq
      rw [← hp, List.self_eq_append_right] at heq
      exact hq heq
    exact Or.inr ⟨entropy, sof, sos, w, fill, code, high, low, payload, p, h, hj, hlen,
      ⟨q, hp⟩, hne, rfl⟩
  · apply viable_of_append (p := q)
    have hseg := h.segment fill hcode hj hlen
    rw [List.append_assoc _ p q, hp, List.append_assoc]
    exact hseg.completable

/-- A segment whose code is all that has been read. -/
theorem Parsed.viable_code {entropy sof sos : Bool} {w : Bytes} (h : Parsed entropy sof sos w)
    (fill : Nat) {code : UInt8} (hcode : SegmentCode code) :
    Viable (w ++ markerBytes fill code) := by
  have := h.viable_segment fill (p := []) hcode
    (show beU16 0 2 = ([] : Bytes).length + 2 by decide) rfl (List.cons_ne_nil _ _)
  rwa [List.append_nil] at this

/-- A segment that has been read up to the first byte of its length field. -/
theorem Parsed.viable_high {entropy sof sos : Bool} {w : Bytes} (h : Parsed entropy sof sos w)
    (fill : Nat) {code : UInt8} (hcode : SegmentCode code) (high : UInt8) :
    Viable (w ++ markerBytes fill code ++ [high]) := by
  have hlen : 2 < beU16 high 3 := by
    have : (3 : UInt8).toNat = 3 := rfl
    unfold beU16
    omega
  obtain ⟨pad, -, hpad⟩ := exists_payload (p := []) hlen
  exact h.viable_segment fill hcode hpad rfl (List.cons_ne_nil _ _)

end Undelete.Carve
