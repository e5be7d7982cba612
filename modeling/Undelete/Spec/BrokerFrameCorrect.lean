import Undelete.Spec.BrokerPayloadCorrect

/-!
# Broker frames

A frame is a header of twenty bytes followed by the payload of its message. The
encoder and the decoder are inverse to each other on the frames whose sequence is
not zero and whose message passes `validate`, and `read_frame` depends on the bytes
a reader still has to deliver only, not on how it splits them.

## Key results

- `readExactBounded_streams`: what the read loop does with any well-behaved reader.
- `readFrame_streams`: every such reader reads as a cursor over its bytes does.
- `frame_roundtrip`: the codec is an exact inverse pair, for every fragmentation.
-/

namespace Undelete.Broker

open Except

variable {σ : Type}

/-! ## Readers -/

/-- The reader delivers the bytes `pending s`: every call returns a piece of what is left, an
    empty one at the end only, or reports an interruption. -/
structure Reader.Streams (reader : Reader σ) (pending : σ → Bytes) : Prop where
  ok : ∀ s len b s', 0 < len → reader.read s len = (.ok b, s') →
    b.length ≤ len ∧ pending s = b ++ pending s' ∧ (b = [] → pending s = [])
  error : ∀ s len e s', 0 < len → reader.read s len = (.error e, s') →
    e.kind = .interrupted ∧ pending s' = pending s

theorem Reader.cursor_streams : Reader.cursor.Streams id where
  ok s len b s' hlen h := by
    obtain ⟨rfl, rfl⟩ : s.take len = b ∧ s.drop len = s' := by
      simpa only [cursor, Prod.mk.injEq, ok.injEq] using h
    refine ⟨List.length_take_le len s, (List.take_append_drop len s).symm, fun hnil => ?_⟩
    rcases List.take_eq_nil_iff.mp hnil with hzero | hnil
    · omega
    · exact hnil
  error s len e s' _ h := by cases h

section ReadLoop

variable {reader : Reader σ} {part : FramePart} {expected : Nat} {s s' : σ} {remaining : Nat}
  {filled : Bytes} {actual : Nat}

theorem readExactBounded_go_eof (hpos : remaining ≠ 0)
    (h : reader.read s remaining = (.ok [], s')) :
    readExactBounded.go reader part expected s remaining filled actual =
      (.error (.truncated part expected actual), s') := by
  rw [readExactBounded.go, if_neg hpos]
  split
  all_goals rename_i heq; rw [h] at heq; cases heq
  rfl

theorem readExactBounded_go_data {byte : UInt8} {bytes : Bytes}
    (h : reader.read s remaining = (.ok (byte :: bytes), s')) (hle : bytes.length + 1 ≤ remaining)
    (hlt : actual + (bytes.length + 1) < 2 ^ 64) :
    readExactBounded.go reader part expected s remaining filled actual =
      readExactBounded.go reader part expected s' (remaining - (bytes.length + 1))
        (filled ++ byte :: bytes) (actual + (bytes.length + 1)) := by
  have hpos : remaining ≠ 0 := by omega
  rw [readExactBounded.go, if_neg hpos]
  split
  all_goals rename_i heq; rw [h] at heq; cases heq
  rw [dif_neg (Nat.not_lt.mpr hle), U64.checkedAdd_of_lt hlt]

theorem readExactBounded_go_interrupted {e : IoError} (hpos : remaining ≠ 0)
    (h : reader.read s remaining = (.error e, s')) (hkind : e.kind = .interrupted) :
    readExactBounded.go reader part expected s remaining filled actual =
      readExactBounded.go reader part expected s' remaining filled actual := by
  rw [readExactBounded.go, if_neg hpos]
  split
  all_goals rename_i heq; rw [h] at heq; cases heq
  rw [dif_pos hkind]

end ReadLoop

/-- What filling `remaining` more bytes from `bytes` leads to, with `filled` in place. -/
def filling (part : FramePart) (expected : Nat) (bytes : Bytes) (remaining : Nat) (filled : Bytes)
    (actual : Nat) : Except ProtocolError Bytes × Bytes :=
  if remaining ≤ bytes.length then
    (.ok (filled ++ bytes.take remaining), bytes.drop remaining)
  else (.error (.truncated part expected (actual + bytes.length)), [])

/-- A piece that is read moves from what is left to what is in place. -/
theorem filling_append (part : FramePart) (expected : Nat) {b rest : Bytes} {remaining : Nat}
    (filled : Bytes) (actual : Nat) (hle : b.length ≤ remaining) :
    filling part expected (b ++ rest) remaining filled actual =
      filling part expected rest (remaining - b.length) (filled ++ b) (actual + b.length) := by
  have hiff : remaining ≤ (b ++ rest).length ↔ remaining - b.length ≤ rest.length := by
    rw [List.length_append]; omega
  unfold filling
  by_cases h : remaining ≤ (b ++ rest).length
  · rw [if_pos h, if_pos (hiff.mp h), List.take_append, List.drop_append,
      List.take_of_length_le hle, List.drop_of_length_le hle, List.append_assoc, List.nil_append]
  · rw [if_neg h, if_neg (fun h' => h (hiff.mpr h')), List.length_append, Nat.add_assoc]

theorem readExactBounded_go_streams {reader : Reader σ} {pending : σ → Bytes}
    (hreader : reader.Streams pending) (part : FramePart) (expected : Nat) (s : σ)
    (remaining : Nat) (filled : Bytes) (actual : Nat) (hlt : actual + remaining < 2 ^ 64) :
    ((readExactBounded.go reader part expected s remaining filled actual).1,
      pending (readExactBounded.go reader part expected s remaining filled actual).2) =
      filling part expected (pending s) remaining filled actual := by
  induction s, remaining, filled, actual using readExactBounded.go.induct reader with
  | case1 s filled actual =>
    rw [readExactBounded.go, if_pos rfl, filling, if_pos (Nat.zero_le _), List.take_zero,
      List.append_nil, List.drop_zero]
  | case2 s remaining filled actual hpos s' hread =>
    obtain ⟨_, hsplit, hend⟩ := hreader.ok s remaining [] s' (Nat.pos_of_ne_zero hpos) hread
    have hs' : pending s' = [] := hsplit.symm.trans (hend rfl)
    rw [readExactBounded_go_eof hpos hread, hend rfl, hs', filling, if_neg (by simpa using hpos)]
    rfl
  | case3 s remaining filled actual hpos byte bytes s' hread hlong =>
    -- a well-behaved reader returns no more than requested
    have hle := (hreader.ok s remaining _ s' (Nat.pos_of_ne_zero hpos) hread).1
    simp only [List.length_cons] at hle
    omega
  | case4 s remaining filled actual hpos byte bytes s' hread hle hsum =>
    rw [U64.checkedAdd_of_lt (by omega)] at hsum
    cases hsum
  | case5 s remaining filled actual hpos byte bytes s' hread hle next hsum ih =>
    obtain ⟨_, rfl⟩ := U64.checkedAdd_eq_some.mp hsum
    obtain ⟨_, hsplit, _⟩ := hreader.ok s remaining _ s' (Nat.pos_of_ne_zero hpos) hread
    rw [readExactBounded_go_data hread (by omega) (by omega), ih (by omega), hsplit,
      filling_append part expected filled actual (by rw [List.length_cons]; omega),
      List.length_cons]
  | case6 s remaining filled actual hpos e s' hread hkind ih =>
    have hpending := (hreader.error s remaining e s' (Nat.pos_of_ne_zero hpos) hread).2
    rw [readExactBounded_go_interrupted hpos hread hkind, ih hlt, hpending]
  | case7 s remaining filled actual hpos e s' hread hkind =>
    exact absurd (hreader.error s remaining e s' (Nat.pos_of_ne_zero hpos) hread).1 hkind
  | case8 s remaining filled actual hpos e s' hread hkind =>
    exact absurd (hreader.error s remaining e s' (Nat.pos_of_ne_zero hpos) hread).1 hkind

theorem readExactBounded_streams {reader : Reader σ} {pending : σ → Bytes}
    (hreader : reader.Streams pending) (s : σ) {len : Nat} (part : FramePart)
    (hlen : len < 2 ^ 64) :
    ((readExactBounded reader s len part).1, pending (readExactBounded reader s len part).2) =
      filling part len (pending s) len [] 0 :=
  readExactBounded_go_streams hreader part len s len [] 0 (by omega)

theorem readExactBounded_cursor (bytes : Bytes) {len : Nat} (part : FramePart)
    (hlen : len < 2 ^ 64) :
    readExactBounded Reader.cursor bytes len part = filling part len bytes len [] 0 :=
  readExactBounded_streams Reader.cursor_streams bytes part hlen

/-! ## The header -/

/-- The header of a frame with a payload of `length` bytes. -/
def headerBytes (opcode : Opcode) (sequence : UInt64) (length : Nat) : Bytes :=
  protocolMagic ++ (Bytes.ofLE 2 protocolVersion ++ (Bytes.ofLE 2 opcode.code ++
    (Bytes.ofLE 8 sequence.toNat ++ Bytes.ofLE 4 length)))

@[simp] theorem length_headerBytes (opcode : Opcode) (sequence : UInt64) (length : Nat) :
    (headerBytes opcode sequence length).length = headerLen := by
  simp only [headerBytes, List.length_append, Bytes.length_ofLE]
  rfl

/-- A header is the concatenation of its five fields, and of no other bytes of these
    lengths. -/
theorem header_eq_append {header a b c d e : Bytes} (hheader : header.length = headerLen)
    (ha : a.length = 4) (hb : b.length = 2) (hc : c.length = 2) (hd : d.length = 8) :
    header = a ++ (b ++ (c ++ (d ++ e))) ↔
      header.slice 0 4 = a ∧ header.slice 4 6 = b ∧ header.slice 6 8 = c ∧
        header.slice 8 16 = d ∧ header.slice 16 20 = e := by
  have hlength : ∀ start stop, stop ≤ 20 → (header.slice start stop).length = stop - start := by
    intro start stop hstop
    rw [Bytes.length_slice, hheader, headerLen]
    omega
  have hsplit : header = header.slice 0 4 ++ (header.slice 4 6 ++ (header.slice 6 8 ++
      (header.slice 8 16 ++ header.slice 16 20))) := by
    rw [Bytes.slice_append_slice header (by decide) (by decide),
      Bytes.slice_append_slice header (by decide) (by decide),
      Bytes.slice_append_slice header (by decide) (by decide),
      Bytes.slice_append_slice header (by decide) (by decide)]
    exact (hheader ▸ Bytes.slice_self header).symm
  constructor
  · intro h
    obtain ⟨ha', h⟩ := List.append_inj (hsplit.symm.trans h) (by rw [hlength 0 4 (by decide), ha])
    obtain ⟨hb', h⟩ := List.append_inj h (by rw [hlength 4 6 (by decide), hb])
    obtain ⟨hc', h⟩ := List.append_inj h (by rw [hlength 6 8 (by decide), hc])
    obtain ⟨hd', he'⟩ := List.append_inj h (by rw [hlength 8 16 (by decide), hd])
    exact ⟨ha', hb', hc', hd', he'⟩
  · rintro ⟨rfl, rfl, rfl, rfl, rfl⟩
    exact hsplit

theorem validateSequence_eq_ok {sequence : UInt64} :
    validateSequence sequence = .ok () ↔ sequence ≠ 0 := by
  unfold validateSequence
  by_cases h : sequence = 0
  · rw [if_pos h]
    exact ⟨fun h => (by cases h), fun hne => absurd h hne⟩
  · rw [if_neg h]
    exact ⟨fun _ => h, fun _ => rfl⟩

/-- A number of `count` bytes is read from its encoding only. -/
theorem leValue_eq_iff {b : Bytes} {count n : Nat} (hb : b.length = count) (hn : n < 256 ^ count) :
    Bytes.leValue b = n ↔ b = Bytes.ofLE count n := by
  constructor
  · rintro rfl
    rw [← hb, Bytes.ofLE_leValue]
  · rintro rfl
    exact Bytes.leValue_ofLE hn

theorem parseHeader_eq_ok {header : Bytes} {opcode : Opcode} {sequence : UInt64} {length : Nat}
    (hheader : header.length = headerLen) :
    parseHeader header = .ok (opcode, sequence, length) ↔
      sequence ≠ 0 ∧ length ≤ maxPayloadLen ∧ header = headerBytes opcode sequence length := by
  have hlength : ∀ start stop, stop ≤ 20 → (header.slice start stop).length = stop - start := by
    intro start stop hstop
    rw [Bytes.length_slice, hheader, headerLen]
    omega
  have hmax : maxPayloadLen < 256 ^ 4 := by decide
  have hframe : maxFrameLen = headerLen + maxPayloadLen ∧ maxFrameLen < 2 ^ 64 := by decide
  rw [headerBytes, header_eq_append hheader rfl (Bytes.length_ofLE _ _) (Bytes.length_ofLE _ _)
    (Bytes.length_ofLE _ _)]
  simp only [parseHeader, throw_bind, ite_throw_eq_ok, bind_eq_ok, Opcode.tryFrom_eq_ok,
    okOr_eq_ok, U64.checkedAdd_eq_some, pure_eq_ok, Prod.mk.injEq, ne_eq, Decidable.not_not]
  constructor
  · rintro ⟨hmagic, hversion, _, hopcode, _, hsequence, hle, _, ⟨_, rfl⟩, _, rfl, rfl, rfl⟩
    refine ⟨validateSequence_eq_ok.mp hsequence, Nat.not_lt.mp hle, hmagic, ?_, ?_, ?_, ?_⟩
    · exact (leValue_eq_iff (hlength 4 6 (by decide)) (by decide)).mp hversion
    · exact (leValue_eq_iff (hlength 6 8 (by decide)) (Opcode.code_lt _)).mp hopcode.symm
    · have hlt := Bytes.leValue_lt (header.slice 8 16)
      rw [hlength 8 16 (by decide)] at hlt
      rw [UInt64.toNat_ofNat_of_lt' hlt]
      exact (leValue_eq_iff (hlength 8 16 (by decide)) hlt).mp rfl
    · exact (leValue_eq_iff (hlength 16 20 (by decide)) (by omega)).mp rfl
  · rintro ⟨hsequence, hle, hmagic, hversion, hopcode, hseq, hlen⟩
    have hlt : sequence.toNat < 256 ^ 8 := sequence.toNat_lt
    have hseq : UInt64.ofNat (Bytes.leValue (header.slice 8 16)) = sequence := by
      rw [hseq, Bytes.leValue_ofLE hlt, UInt64.ofNat_toNat]
    have hlen : Bytes.leValue (header.slice 16 20) = length :=
      (leValue_eq_iff (hlength 16 20 (by decide)) (by omega)).mpr hlen
    rw [hseq, hlen]
    refine ⟨hmagic, ?_, opcode, ?_, (), validateSequence_eq_ok.mpr hsequence, Nat.not_lt.mpr hle,
      _, ⟨by omega, rfl⟩, by omega, rfl, rfl, rfl⟩
    · exact (leValue_eq_iff (hlength 4 6 (by decide)) (by decide)).mpr hversion
    · exact ((leValue_eq_iff (hlength 6 8 (by decide)) opcode.code_lt).mpr hopcode).symm

theorem parseHeader_length_le {header : Bytes} {opcode : Opcode} {sequence : UInt64} {length : Nat}
    (h : parseHeader header = .ok (opcode, sequence, length)) : length ≤ maxPayloadLen := by
  simp only [parseHeader, throw_bind, ite_throw_eq_ok, bind_eq_ok, pure_eq_ok, Prod.mk.injEq] at h
  obtain ⟨_, _, _, _, _, _, hle, _, _, _, _, _, rfl⟩ := h
  omega

theorem parseHeader_sequence_ne {header : Bytes} {opcode : Opcode} {sequence : UInt64}
    {length : Nat} (h : parseHeader header = .ok (opcode, sequence, length)) : sequence ≠ 0 := by
  simp only [parseHeader, throw_bind, ite_throw_eq_ok, bind_eq_ok, pure_eq_ok, Prod.mk.injEq] at h
  obtain ⟨_, _, _, _, _, hsequence, _, _, _, _, _, rfl, _⟩ := h
  exact validateSequence_eq_ok.mp hsequence

/-! ## Frames -/

/-- The bytes of a frame. -/
def Frame.bytes (frame : Frame) : Bytes :=
  headerBytes frame.message.opcode frame.sequence frame.message.layout.length ++
    frame.message.layout

/-- The frames that may cross the boundary. -/
structure Frame.Valid (frame : Frame) : Prop where
  sequence : frame.sequence ≠ 0
  message : frame.message.validate = .ok ()

theorem encodeFrame_eq_ok {sequence : UInt64} {message : Message} {bytes : Bytes} :
    encodeFrame sequence message = .ok bytes ↔
      (Frame.mk sequence message).Valid ∧ (Frame.mk sequence message).bytes = bytes := by
  simp only [encodeFrame, bind_eq_ok, encodePayload_eq_ok, throw_bind, ite_throw_eq_ok, okOr_eq_ok,
    U64.checkedAdd_eq_some, pure_eq_ok]
  constructor
  · rintro ⟨_, hsequence, _, ⟨hmessage, rfl⟩, _, _, _, _, _, rfl⟩
    refine ⟨⟨validateSequence_eq_ok.mp hsequence, hmessage⟩, ?_⟩
    simp only [Frame.bytes, headerBytes, List.append_assoc]
  · rintro ⟨⟨hsequence, hmessage⟩, rfl⟩
    have hle : message.layout.length ≤ maxPayloadLen := Message.length_layout_le hmessage
    have hmax : maxPayloadLen < 2 ^ 32 := by decide
    have hframe : maxFrameLen = headerLen + maxPayloadLen ∧ headerLen < 2 ^ 32 := by decide
    refine ⟨(), validateSequence_eq_ok.mpr hsequence, _, ⟨hmessage, rfl⟩, by omega, _,
      ⟨by omega, rfl⟩, by omega, by omega, ?_⟩
    simp only [Frame.bytes, headerBytes, List.append_assoc]

/-- Whatever a reader delivers, an accepted frame is valid. -/
theorem readFrame_valid {reader : Reader σ} {s s' : σ} {frame : Frame}
    (h : readFrame reader s = (.ok frame, s')) : frame.Valid := by
  unfold readFrame at h
  split at h
  · cases h
  · next header s₁ _ =>
    split at h
    · cases h
    · next opcode sequence length hparse =>
      split at h
      · cases h
      · next payload s₂ _ =>
        obtain ⟨message, hdecode, rfl⟩ := map_eq_ok.mp (Prod.mk.inj h).1
        exact ⟨parseHeader_sequence_ne hparse, (decodePayload_eq_ok.mp hdecode).2.1⟩

/-- A well-behaved reader is read as a cursor over the bytes it has left. -/
theorem readFrame_streams {reader : Reader σ} {pending : σ → Bytes}
    (hreader : reader.Streams pending) (s : σ) :
    ((readFrame reader s).1, pending (readFrame reader s).2) =
      readFrame Reader.cursor (pending s) := by
  have hread : ∀ (s : σ) {len : Nat} (part : FramePart), len < 2 ^ 64 →
      readExactBounded Reader.cursor (pending s) len part =
        ((readExactBounded reader s len part).1, pending (readExactBounded reader s len part).2) :=
    fun s len part hlen => (readExactBounded_cursor (pending s) part hlen).trans
      (readExactBounded_streams hreader s part hlen).symm
  simp only [readFrame, hread s .header (show headerLen < 2 ^ 64 by decide)]
  cases readExactBounded reader s headerLen .header with
  | mk header s₁ =>
    cases header with
    | error e => rfl
    | ok header =>
      dsimp only
      cases hparse : parseHeader header with
      | error e => rfl
      | ok fields =>
        obtain ⟨opcode, sequence, length⟩ := fields
        have hle := parseHeader_length_le hparse
        have hmax : maxPayloadLen < 2 ^ 64 := by decide
        simp only [hread s₁ .payload (show length < 2 ^ 64 by omega)]
        cases readExactBounded reader s₁ length .payload with
        | mk payload s₂ => cases payload <;> rfl

theorem filling_eq_ok {part : FramePart} {expected actual len : Nat} {bytes b rest : Bytes} :
    filling part expected bytes len [] actual = (.ok b, rest) ↔
      b.length = len ∧ bytes = b ++ rest := by
  unfold filling
  constructor
  · intro h
    split at h
    · next hle =>
      obtain ⟨rfl, rfl⟩ : [] ++ bytes.take len = b ∧ bytes.drop len = rest := by
        simpa only [Prod.mk.injEq, ok.injEq] using h
      rw [List.nil_append, List.length_take, List.take_append_drop]
      exact ⟨by omega, rfl⟩
    · cases h
  · rintro ⟨rfl, rfl⟩
    rw [if_pos (by simp), List.nil_append, List.take_left, List.drop_left]

/-- A cursor reads a frame when the bytes begin with those of a valid one. -/
theorem readFrame_cursor_eq_ok {bytes rest : Bytes} {frame : Frame} :
    readFrame Reader.cursor bytes = (.ok frame, rest) ↔
      frame.Valid ∧ bytes = frame.bytes ++ rest := by
  simp only [readFrame, readExactBounded_cursor bytes .header (show headerLen < 2 ^ 64 by decide)]
  constructor
  · intro h
    split at h
    · cases h
    · next header s₁ hheader =>
      obtain ⟨hlength, rfl⟩ := filling_eq_ok.mp hheader
      split at h
      · cases h
      · next opcode sequence length hparse =>
        obtain ⟨hsequence, hle, rfl⟩ := (parseHeader_eq_ok hlength).mp hparse
        have hmax : maxPayloadLen < 2 ^ 64 := by decide
        rw [readExactBounded_cursor s₁ .payload (by omega)] at h
        split at h
        · cases h
        · next payload s₂ hpayload =>
          obtain ⟨rfl, rfl⟩ := filling_eq_ok.mp hpayload
          obtain ⟨hmessage, rfl⟩ := Prod.mk.inj h
          obtain ⟨message, hdecode, rfl⟩ := map_eq_ok.mp hmessage
          obtain ⟨rfl, hvalid, rfl⟩ := decodePayload_eq_ok.mp hdecode
          exact ⟨⟨hsequence, hvalid⟩, (List.append_assoc _ _ _).symm⟩
  · rintro ⟨⟨hsequence, hvalid⟩, rfl⟩
    have hle := Message.length_layout_le hvalid
    have hmax : maxPayloadLen < 2 ^ 64 := by decide
    have hlength := length_headerBytes frame.message.opcode frame.sequence
      frame.message.layout.length
    have hheader := (@filling_eq_ok .header headerLen 0 headerLen (frame.bytes ++ rest) _ _).mpr
      ⟨hlength, List.append_assoc _ _ _⟩
    have hparse := (parseHeader_eq_ok hlength).mpr ⟨hsequence, hle, rfl⟩
    have hpayload : filling .payload frame.message.layout.length (frame.message.layout ++ rest)
        frame.message.layout.length [] 0 = (.ok frame.message.layout, rest) :=
      filling_eq_ok.mpr ⟨rfl, rfl⟩
    rw [hheader]
    simp only [hparse]
    rw [readExactBounded_cursor _ .payload (by omega), hpayload]
    simp only [decodePayload_eq_ok.mpr ⟨rfl, hvalid, rfl⟩]
    rfl

theorem decodeFrame_eq_ok {bytes : Bytes} {frame : Frame} :
    decodeFrame bytes = .ok frame ↔ frame.Valid ∧ frame.bytes = bytes := by
  unfold decodeFrame
  constructor
  · intro h
    split at h
    · cases h
    · next f rest hread =>
      by_cases hrest : rest.length ≠ 0
      · rw [if_pos hrest] at h
        cases h
      · rw [if_neg hrest] at h
        obtain rfl := ok.inj h
        obtain rfl : rest = [] := List.eq_nil_of_length_eq_zero (Decidable.not_not.mp hrest)
        obtain ⟨hvalid, rfl⟩ := readFrame_cursor_eq_ok.mp hread
        exact ⟨hvalid, (List.append_nil _).symm⟩
  · rintro ⟨hvalid, rfl⟩
    rw [readFrame_cursor_eq_ok.mpr ⟨hvalid, (List.append_nil _).symm⟩]
    rfl

/-- The encoder and the decoder are inverse to each other on the valid frames. Every reader
    is read as a cursor over its bytes is, so it yields a frame in front of `rest` whatever
    the pieces it comes in, and stops there. -/
theorem frame_roundtrip :
    (∀ (sequence : UInt64) (message : Message), 1 ≤ sequence → message.validate = .ok () →
      ∃ bytes, encodeFrame sequence message = .ok bytes ∧
        decodeFrame bytes = .ok ⟨sequence, message⟩) ∧
    (∀ (bytes : Bytes) (sequence : UInt64) (message : Message),
      decodeFrame bytes = .ok ⟨sequence, message⟩ →
        message.validate = .ok () ∧ encodeFrame sequence message = .ok bytes) ∧
    (∀ (σ : Type) (reader : Reader σ) (pending : σ → Bytes), reader.Streams pending →
      (∀ s, ((readFrame reader s).1, pending (readFrame reader s).2) =
        readFrame Reader.cursor (pending s)) ∧
      (∀ (s : σ) (bytes rest : Bytes) (frame : Frame), pending s = bytes ++ rest →
        decodeFrame bytes = .ok frame →
          ∃ s', readFrame reader s = (.ok frame, s') ∧ pending s' = rest) ∧
      ∀ (s s' : σ) (frame : Frame), readFrame reader s = (.ok frame, s') →
        ∃ bytes, pending s = bytes ++ pending s' ∧ decodeFrame bytes = .ok frame) := by
  refine ⟨?_, ?_, ?_⟩
  · intro sequence message hsequence hvalid
    have hframe : (Frame.mk sequence message).Valid :=
      ⟨fun h => by rw [show sequence = 0 from h] at hsequence; revert hsequence; decide, hvalid⟩
    exact ⟨_, encodeFrame_eq_ok.mpr ⟨hframe, rfl⟩, decodeFrame_eq_ok.mpr ⟨hframe, rfl⟩⟩
  · intro bytes sequence message h
    obtain ⟨hframe, hbytes⟩ := decodeFrame_eq_ok.mp h
    exact ⟨hframe.message, encodeFrame_eq_ok.mpr ⟨hframe, hbytes⟩⟩
  · intro σ reader pending hreader
    refine ⟨readFrame_streams hreader, ?_, ?_⟩
    · intro s bytes rest frame hpending hdecode
      obtain ⟨hvalid, rfl⟩ := decodeFrame_eq_ok.mp hdecode
      have hstreams := readFrame_streams hreader s
      rw [readFrame_cursor_eq_ok.mpr ⟨hvalid, hpending⟩] at hstreams
      obtain ⟨hresult, hrest⟩ := Prod.mk.inj hstreams
      exact ⟨_, Prod.ext hresult rfl, hrest⟩
    · intro s s' frame h
      have hstreams := readFrame_streams hreader s
      rw [h] at hstreams
      obtain ⟨hvalid, hbytes⟩ := readFrame_cursor_eq_ok.mp hstreams.symm
      exact ⟨frame.bytes, hbytes, decodeFrame_eq_ok.mpr ⟨hvalid, rfl⟩⟩

/-- A reader that delivers one byte a call, and is interrupted before each of them. -/
def Reader.trickle : Reader (Bool × Bytes) where
  read s _ :=
    if s.1 then (.error ⟨.interrupted, "interrupted"⟩, (false, s.2))
    else (.ok (s.2.take 1), (true, s.2.drop 1))
  patience s := if s.1 then 1 else 0
  patience_lt s _ _ _ h _ := by
    obtain ⟨interrupted, b⟩ := s
    cases interrupted <;> cases h
    exact Nat.zero_lt_one

theorem Reader.trickle_streams : Reader.trickle.Streams Prod.snd where
  ok s len b s' hlen h := by
    obtain ⟨interrupted, bytes⟩ := s
    cases interrupted <;> cases h
    refine ⟨Nat.le_trans (List.length_take_le 1 bytes) hlen,
      (List.take_append_drop 1 bytes).symm, ?_⟩
    intro hnil
    exact (List.take_eq_nil_iff.mp hnil).resolve_left (by decide)
  error s _ _ _ _ h := by
    obtain ⟨interrupted, b⟩ := s
    cases interrupted <;> cases h
    exact ⟨rfl, rfl⟩

theorem frame_roundtrip_trickle :
    ∃ bytes s', encodeFrame 7 (.closeSource 1) = .ok bytes ∧
      readFrame Reader.trickle (true, bytes ++ [0xff]) = (.ok ⟨7, .closeSource 1⟩, s') ∧
      s'.2 = [0xff] := by
  obtain ⟨hencode, _, hread⟩ := frame_roundtrip
  obtain ⟨bytes, hbytes, hdecode⟩ := hencode 7 (.closeSource 1) (by decide) rfl
  obtain ⟨s', hs', hrest⟩ := (hread _ Reader.trickle Prod.snd Reader.trickle_streams).2.1
    (true, bytes ++ [0xff]) bytes [0xff] _ rfl hdecode
  exact ⟨bytes, s', hbytes, hs', hrest⟩

end Undelete.Broker
