import Undelete.ForStd.Except
import Undelete.Native.Broker.Codec

/-!
# Broker payloads

The payload of a message is its `layout`: the fields one after the other, numbers
little-endian, the identifier behind its length. Both directions of the codec are
characterised by it.

## Key results

- `encodePayload_eq_ok`: encoding gives the layout of a message that passes `validate`.
- `decodePayload_eq_ok`: decoding accepts exactly the layouts of such messages.
-/

namespace Undelete.Broker

open Except

/-- The payload bytes of a message. -/
def Message.layout : Message → Bytes
  | .hello challenge | .helloAck challenge => challenge.toList
  | .openSource sourceId => Bytes.ofLE 2 sourceId.utf8ByteSize ++ Bytes.ofString sourceId
  | .opened handleId size logicalSector physicalSector physicalDiskNumber =>
    Bytes.ofLE 8 handleId.toNat ++ (Bytes.ofLE 8 size.toNat ++
      (Bytes.ofLE 4 logicalSector.toNat ++ (Bytes.ofLE 4 physicalSector.toNat ++
        Bytes.ofLE 4 physicalDiskNumber.toNat)))
  | .readAt handleId offset length =>
    Bytes.ofLE 8 handleId.toNat ++ (Bytes.ofLE 8 offset.toNat ++ Bytes.ofLE 4 length.toNat)
  | .readData bytes => bytes
  | .closeSource handleId | .closed handleId => Bytes.ofLE 8 handleId.toNat
  | .shutdown => []
  | .error code => Bytes.ofLE 2 code.code

/-! ## Codes -/

theorem Opcode.code_lt (opcode : Opcode) : opcode.code < 256 ^ 2 := by
  cases opcode <;> decide

theorem Opcode.tryFrom_eq_ok {n : Nat} {opcode : Opcode} :
    Opcode.tryFrom n = .ok opcode ↔ opcode.code = n := by
  constructor
  · intro h
    unfold Opcode.tryFrom at h
    split at h <;> cases h <;> rfl
  · rintro rfl
    cases opcode <;> rfl

theorem BrokerErrorCode.code_lt (code : BrokerErrorCode) : code.code < 256 ^ 2 := by
  cases code <;> decide

theorem BrokerErrorCode.tryFrom_eq_ok {n : Nat} {code : BrokerErrorCode} :
    BrokerErrorCode.tryFrom n = .ok code ↔ code.code = n := by
  constructor
  · intro h
    unfold BrokerErrorCode.tryFrom at h
    split at h <;> cases h <;> rfl
  · rintro rfl
    cases code <;> rfl

/-! ## Sizes -/

theorem validateIdentifier_le {field value : String} {maximum : Nat}
    (h : validateIdentifier field value maximum = .ok ()) : value.utf8ByteSize ≤ maximum := by
  simp only [validateIdentifier, throw_bind, ite_throw_eq_ok] at h
  omega

/-- A message inside its semantic bounds fits into a payload. -/
theorem Message.length_layout_le {message : Message} (h : message.validate = .ok ()) :
    message.layout.length ≤ maxPayloadLen := by
  cases message with
  | openSource sourceId =>
    have hle := validateIdentifier_le h
    simp only [layout, List.length_append, Bytes.length_ofLE, Bytes.length_ofString,
      maxPayloadLen, maxReadLen, maxSourceIdLen] at *
    omega
  | readData bytes =>
    simp only [validate] at h
    split at h
    · cases h
    · show bytes.length ≤ maxReadLen
      omega
  | hello challenge => simp [layout, maxPayloadLen, maxReadLen]
  | helloAck challenge => simp [layout, maxPayloadLen, maxReadLen]
  | _ =>
    simp only [layout, List.length_append, Bytes.length_ofLE, List.length_nil]
    decide

/-! ## Encoding -/

namespace PayloadWriter

theorem bytes_eq_ok {w w' : PayloadWriter} {value : Bytes} :
    w.bytes value = .ok w' ↔
      w.buffer.length + value.length ≤ maxPayloadLen ∧ w' = ⟨w.buffer ++ value⟩ := by
  simp only [bytes, bind_eq_ok, okOr_eq_ok, U64.checkedAdd_eq_some, throw_bind, ite_throw_eq_ok,
    pure_eq_ok]
  constructor
  · rintro ⟨_, ⟨_, rfl⟩, hle, rfl⟩
    exact ⟨by omega, rfl⟩
  · rintro ⟨hle, rfl⟩
    have hmax : maxPayloadLen < 2 ^ 64 := by decide
    exact ⟨_, ⟨by omega, rfl⟩, by omega, rfl⟩

theorem u16_eq_ok {w w' : PayloadWriter} {value : Nat} :
    w.u16 value = .ok w' ↔
      w.buffer.length + 2 ≤ maxPayloadLen ∧ w' = ⟨w.buffer ++ Bytes.ofLE 2 value⟩ := by
  rw [u16, bytes_eq_ok, Bytes.length_ofLE]

theorem u32_eq_ok {w w' : PayloadWriter} {value : UInt32} :
    w.u32 value = .ok w' ↔
      w.buffer.length + 4 ≤ maxPayloadLen ∧ w' = ⟨w.buffer ++ Bytes.ofLE 4 value.toNat⟩ := by
  rw [u32, bytes_eq_ok, Bytes.length_ofLE]

theorem u64_eq_ok {w w' : PayloadWriter} {value : UInt64} :
    w.u64 value = .ok w' ↔
      w.buffer.length + 8 ≤ maxPayloadLen ∧ w' = ⟨w.buffer ++ Bytes.ofLE 8 value.toNat⟩ := by
  rw [u64, bytes_eq_ok, Bytes.length_ofLE]

theorem identifier_eq_ok {w w' : PayloadWriter} {value : String} :
    w.identifier value = .ok w' ↔ value.utf8ByteSize < 2 ^ 16 ∧
      w.buffer.length + 2 + value.utf8ByteSize ≤ maxPayloadLen ∧
      w' = ⟨w.buffer ++ Bytes.ofLE 2 value.utf8ByteSize ++ Bytes.ofString value⟩ := by
  simp only [identifier, throw_bind, ite_throw_eq_ok, bind_eq_ok, u16_eq_ok, bytes_eq_ok]
  constructor
  · rintro ⟨hlt, _, ⟨_, rfl⟩, hle, rfl⟩
    simp only [List.length_append, Bytes.length_ofLE, Bytes.length_ofString] at hle
    exact ⟨by omega, hle, rfl⟩
  · rintro ⟨hlt, hle, rfl⟩
    refine ⟨by omega, _, ⟨by omega, rfl⟩, ?_, rfl⟩
    simpa only [List.length_append, Bytes.length_ofLE, Bytes.length_ofString] using hle

end PayloadWriter

/-- The fields of a message inside its bounds fit into a payload. -/
theorem encodeFields_eq {message : Message} (hvalid : message.validate = .ok ()) :
    encodeFields {} message = .ok ⟨message.layout⟩ := by
  have hle := Message.length_layout_le hvalid
  cases message with
  | openSource sourceId =>
    have hid := validateIdentifier_le hvalid
    have hmax : maxSourceIdLen + 2 < 2 ^ 16 ∧ maxSourceIdLen + 2 ≤ maxPayloadLen := by decide
    exact PayloadWriter.identifier_eq_ok.mpr ⟨by omega, by simp only [List.length_nil]; omega, rfl⟩
  | opened handleId size logicalSector physicalSector physicalDiskNumber =>
    simp only [encodeFields, bind_eq_ok, PayloadWriter.u64_eq_ok, PayloadWriter.u32_eq_ok]
    have hmax : 28 ≤ maxPayloadLen := by decide
    refine ⟨_, ⟨?_, rfl⟩, _, ⟨?_, rfl⟩, _, ⟨?_, rfl⟩, _, ⟨?_, rfl⟩, ?_, ?_⟩
    all_goals simp only [List.length_append, Bytes.length_ofLE, List.length_nil,
      List.nil_append, Message.layout, List.append_assoc] <;> omega
  | readAt handleId offset length =>
    simp only [encodeFields, bind_eq_ok, PayloadWriter.u64_eq_ok, PayloadWriter.u32_eq_ok]
    have hmax : 20 ≤ maxPayloadLen := by decide
    refine ⟨_, ⟨?_, rfl⟩, _, ⟨?_, rfl⟩, ?_, ?_⟩
    all_goals simp only [List.length_append, Bytes.length_ofLE, List.length_nil,
      List.nil_append, Message.layout, List.append_assoc] <;> omega
  | shutdown => rfl
  | _ => exact PayloadWriter.bytes_eq_ok.mpr ⟨by simpa [Message.layout] using hle, rfl⟩

theorem encodePayload_eq_ok {message : Message} {payload : Bytes} :
    encodePayload message = .ok payload ↔
      message.validate = .ok () ∧ message.layout = payload := by
  simp only [encodePayload, bind_eq_ok, pure_eq_ok]
  constructor
  · rintro ⟨_, hvalid, w, hw, rfl⟩
    obtain rfl := ok.inj ((encodeFields_eq hvalid).symm.trans hw)
    exact ⟨hvalid, rfl⟩
  · rintro ⟨hvalid, rfl⟩
    exact ⟨(), hvalid, _, encodeFields_eq hvalid, rfl⟩

/-! ## Decoding -/

namespace PayloadReader

/-- `r'` is the reader `r` after it has taken the bytes `b`. -/
def Takes (r : PayloadReader) (b : Bytes) (r' : PayloadReader) : Prop :=
  r.position + b.length ≤ r.bytes.length ∧ r.position + b.length < 2 ^ 64 ∧
    r.bytes.slice r.position (r.position + b.length) = b ∧
    r' = { r with position := r.position + b.length }

theorem take_eq_ok {r r' : PayloadReader} {n : Nat} {b : Bytes} :
    r.take n = .ok (b, r') ↔ b.length = n ∧ r.Takes b r' := by
  simp only [take, bind_eq_ok, okOr_eq_ok, U64.checkedAdd_eq_some, throw_bind, ite_throw_eq_ok,
    pure_eq_ok, Prod.mk.injEq, Takes]
  constructor
  · rintro ⟨_, ⟨hlt, rfl⟩, hle, rfl, rfl⟩
    have hlen : (r.bytes.slice r.position (r.position + n)).length = n := by
      rw [Bytes.length_slice]; omega
    rw [hlen]
    exact ⟨rfl, by omega, hlt, rfl, rfl⟩
  · rintro ⟨rfl, hle, hlt, hb, rfl⟩
    exact ⟨_, ⟨hlt, rfl⟩, by omega, hb, rfl⟩

/-- Taking two byte strings one after the other is taking their concatenation. -/
theorem takes_append {r r' : PayloadReader} {a b : Bytes} :
    r.Takes (a ++ b) r' ↔ ∃ r₁, r.Takes a r₁ ∧ r₁.Takes b r' := by
  simp only [Takes, List.length_append]
  constructor
  · rintro ⟨hle, hlt, hslice, rfl⟩
    have hsplit := Bytes.slice_append_slice r.bytes (Nat.le_add_right r.position a.length)
      (show r.position + a.length ≤ r.position + (a.length + b.length) by omega)
    have hlength : (r.bytes.slice r.position (r.position + a.length)).length = a.length := by
      rw [Bytes.length_slice]; omega
    obtain ⟨ha, hb⟩ := List.append_inj (hsplit.trans hslice) hlength
    refine ⟨_, ⟨by omega, by omega, ha, rfl⟩, ?_⟩
    dsimp only
    rw [Nat.add_assoc]
    exact ⟨hle, hlt, hb, rfl⟩
  · rintro ⟨_, ⟨_, _, ha, rfl⟩, hle, hlt, hb, rfl⟩
    dsimp only at hle hlt hb ⊢
    rw [← Nat.add_assoc]
    refine ⟨hle, hlt, ?_, rfl⟩
    rw [ ← Bytes.slice_append_slice r.bytes (Nat.le_add_right _ a.length)
      (Nat.le_add_right _ b.length), ha, hb]

theorem u16_eq_ok {r r' : PayloadReader} {n : Nat} :
    r.u16 = .ok (n, r') ↔ n < 256 ^ 2 ∧ r.Takes (Bytes.ofLE 2 n) r' := by
  simp only [u16, bind_eq_ok, Prod.exists, take_eq_ok, pure_eq_ok, Prod.mk.injEq]
  constructor
  · rintro ⟨b, _, ⟨hlen, htakes⟩, rfl, rfl⟩
    have hlt := Bytes.leValue_lt b
    have hb := Bytes.ofLE_leValue b
    rw [hlen] at hlt hb
    rw [hb]
    exact ⟨hlt, htakes⟩
  · rintro ⟨hlt, htakes⟩
    exact ⟨_, r', ⟨Bytes.length_ofLE 2 n, htakes⟩, Bytes.leValue_ofLE hlt, rfl⟩

theorem u32_eq_ok {r r' : PayloadReader} {v : UInt32} :
    r.u32 = .ok (v, r') ↔ r.Takes (Bytes.ofLE 4 v.toNat) r' := by
  simp only [u32, bind_eq_ok, Prod.exists, take_eq_ok, pure_eq_ok, Prod.mk.injEq]
  constructor
  · rintro ⟨b, _, ⟨hlen, htakes⟩, rfl, rfl⟩
    have hlt := Bytes.leValue_lt b
    have hb := Bytes.ofLE_leValue b
    rw [hlen] at hlt hb
    rw [UInt32.toNat_ofNat_of_lt' hlt, hb]
    exact htakes
  · intro htakes
    have hlt : v.toNat < 256 ^ 4 := v.toNat_lt
    refine ⟨_, r', ⟨Bytes.length_ofLE 4 v.toNat, htakes⟩, ?_, rfl⟩
    rw [Bytes.leValue_ofLE hlt, UInt32.ofNat_toNat]

theorem u64_eq_ok {r r' : PayloadReader} {v : UInt64} :
    r.u64 = .ok (v, r') ↔ r.Takes (Bytes.ofLE 8 v.toNat) r' := by
  simp only [u64, bind_eq_ok, Prod.exists, take_eq_ok, pure_eq_ok, Prod.mk.injEq]
  constructor
  · rintro ⟨b, _, ⟨hlen, htakes⟩, rfl, rfl⟩
    have hlt := Bytes.leValue_lt b
    have hb := Bytes.ofLE_leValue b
    rw [hlen] at hlt hb
    rw [UInt64.toNat_ofNat_of_lt' hlt, hb]
    exact htakes
  · intro htakes
    have hlt : v.toNat < 256 ^ 8 := v.toNat_lt
    refine ⟨_, r', ⟨Bytes.length_ofLE 8 v.toNat, htakes⟩, ?_, rfl⟩
    rw [Bytes.leValue_ofLE hlt, UInt64.ofNat_toNat]

theorem array32_eq_ok {r r' : PayloadReader} {v : Vector UInt8 32} :
    r.array32 = .ok (v, r') ↔ r.Takes v.toList r' := by
  simp only [array32, bind_eq_ok, Prod.exists, take_eq_ok, pure_eq_ok, Prod.mk.injEq]
  constructor
  · rintro ⟨b, _, ⟨hlen, htakes⟩, rfl, rfl⟩
    have hb : (Vector.ofFn fun i : Fin 32 => b.getD i 0).toList = b := by
      apply List.ext_getElem
      · simp [hlen]
      · intro i hi hi'
        simp [hi']
    rw [hb]
    exact htakes
  · intro htakes
    refine ⟨_, r', ⟨by simp, htakes⟩, ?_, rfl⟩
    apply Vector.ext
    intro i hi
    simp

theorem identifier_eq_ok {r r' : PayloadReader} {field value : String} {maximum : Nat} :
    r.identifier field maximum = .ok (value, r') ↔
      value.utf8ByteSize < 256 ^ 2 ∧ value.utf8ByteSize ≤ maximum ∧
        r.Takes (Bytes.ofLE 2 value.utf8ByteSize ++ Bytes.ofString value) r' := by
  simp only [identifier, bind_eq_ok, Prod.exists, u16_eq_ok, throw_bind, ite_throw_eq_ok,
    take_eq_ok, okOr_eq_ok, pure_eq_ok, Prod.mk.injEq, takes_append, Bytes.toString?_eq_some]
  constructor
  · rintro ⟨_, r₁, ⟨hlt, hlength⟩, hle, _, r₂, ⟨rfl, htakes⟩, _, rfl, rfl, rfl⟩
    exact ⟨hlt, Nat.not_lt.mp hle, r₁, hlength, htakes⟩
  · rintro ⟨hlt, hle, r₁, hlength, htakes⟩
    exact ⟨_, r₁, ⟨hlt, hlength⟩, Nat.not_lt.mpr hle, _, r', ⟨rfl, htakes⟩, _, rfl, rfl, rfl⟩

theorem finish_eq_ok {r : PayloadReader} :
    r.finish = .ok () ↔ r.bytes.length ≤ r.position := by
  by_cases h : r.bytes.length - r.position ≠ 0
  · rw [finish, if_pos h]
    exact ⟨fun h => (by cases h), fun _ => (by omega)⟩
  · rw [finish, if_neg h]
    exact ⟨fun _ => (by omega), fun _ => rfl⟩

/-- A new reader has read its whole payload when it has taken all its bytes. -/
theorem takes_payload {opcode : Opcode} {payload b : Bytes} {r : PayloadReader} :
    (PayloadReader.mk opcode payload 0).Takes b r ∧ r.finish = .ok () ↔
      b = payload ∧ payload.length < 2 ^ 64 ∧ r = ⟨opcode, payload, payload.length⟩ := by
  simp only [Takes, finish_eq_ok, Nat.zero_add]
  constructor
  · rintro ⟨⟨hle, hlt, hslice, rfl⟩, hdone⟩
    dsimp only at hdone
    have hlen : b.length = payload.length := Nat.le_antisymm hle hdone
    rw [hlen, Bytes.slice_self] at hslice
    subst hslice
    exact ⟨rfl, hlt, rfl⟩
  · rintro ⟨rfl, hlt, rfl⟩
    exact ⟨⟨Nat.le_refl _, hlt, Bytes.slice_self b, rfl⟩, Nat.le_refl _⟩

end PayloadReader

open PayloadReader

/-- Fields that are read are a message's layout. -/
theorem decodeFields_sound {r' : PayloadReader} {opcode : Opcode} {payload : Bytes}
    {message : Message} (hopcode : opcode ≠ .readData)
    (h : decodeFields { opcode, bytes := payload } opcode = .ok (message, r')) :
    message.opcode = opcode ∧ (PayloadReader.mk opcode payload 0).Takes message.layout r' := by
  cases opcode with
  | readData => exact absurd rfl hopcode
  | openSource =>
    simp only [decodeFields, bind_eq_ok, Prod.exists, identifier_eq_ok, pure_eq_ok,
      Prod.mk.injEq] at h
    obtain ⟨_, _, ⟨_, _, htakes⟩, rfl, rfl⟩ := h
    exact ⟨rfl, htakes⟩
  | opened =>
    simp only [decodeFields, bind_eq_ok, Prod.exists, u64_eq_ok, u32_eq_ok, pure_eq_ok,
      Prod.mk.injEq] at h
    obtain ⟨_, r₁, h₁, _, r₂, h₂, _, r₃, h₃, _, r₄, h₄, _, _, h₅, rfl, rfl⟩ := h
    simp only [Message.layout, takes_append]
    exact ⟨rfl, r₁, h₁, r₂, h₂, r₃, h₃, r₄, h₄, h₅⟩
  | readAt =>
    simp only [decodeFields, bind_eq_ok, Prod.exists, u64_eq_ok, u32_eq_ok, pure_eq_ok,
      Prod.mk.injEq] at h
    obtain ⟨_, r₁, h₁, _, r₂, h₂, _, _, h₃, rfl, rfl⟩ := h
    simp only [Message.layout, takes_append]
    exact ⟨rfl, r₁, h₁, r₂, h₂, h₃⟩
  | shutdown =>
    cases h
    exact ⟨rfl, Nat.zero_le _, show 0 < 2 ^ 64 by decide, rfl, rfl⟩
  | error =>
    simp only [decodeFields, bind_eq_ok, Prod.exists, u16_eq_ok, BrokerErrorCode.tryFrom_eq_ok,
      pure_eq_ok, Prod.mk.injEq] at h
    obtain ⟨_, _, ⟨_, htakes⟩, _, rfl, rfl, rfl⟩ := h
    exact ⟨rfl, htakes⟩
  | _ =>
    simp only [decodeFields, bind_eq_ok, Prod.exists, u64_eq_ok, array32_eq_ok, pure_eq_ok,
      Prod.mk.injEq] at h
    obtain ⟨_, _, htakes, rfl, rfl⟩ := h
    exact ⟨rfl, htakes⟩

/-- A message inside its bounds is read back from its layout. -/
theorem decodeFields_complete {r r' : PayloadReader} {message : Message}
    (hopcode : message.opcode ≠ .readData) (hvalid : message.validate = .ok ())
    (htakes : r.Takes message.layout r') :
    decodeFields r message.opcode = .ok (message, r') := by
  cases message with
  | readData => exact absurd rfl hopcode
  | openSource sourceId =>
    have hle := validateIdentifier_le hvalid
    have hmax : maxSourceIdLen < 256 ^ 2 := by decide
    simp only [Message.opcode, decodeFields, bind_eq_ok, Prod.exists, identifier_eq_ok,
      pure_eq_ok, Prod.mk.injEq]
    exact ⟨_, _, ⟨by omega, hle, htakes⟩, rfl, rfl⟩
  | opened =>
    simp only [Message.layout, takes_append] at htakes
    obtain ⟨r₁, h₁, r₂, h₂, r₃, h₃, r₄, h₄, h₅⟩ := htakes
    simp only [Message.opcode, decodeFields, bind_eq_ok, Prod.exists, u64_eq_ok, u32_eq_ok,
      pure_eq_ok, Prod.mk.injEq]
    exact ⟨_, r₁, h₁, _, r₂, h₂, _, r₃, h₃, _, r₄, h₄, _, _, h₅, rfl, rfl⟩
  | readAt =>
    simp only [Message.layout, takes_append] at htakes
    obtain ⟨r₁, h₁, r₂, h₂, h₃⟩ := htakes
    simp only [Message.opcode, decodeFields, bind_eq_ok, Prod.exists, u64_eq_ok, u32_eq_ok,
      pure_eq_ok, Prod.mk.injEq]
    exact ⟨_, r₁, h₁, _, r₂, h₂, _, _, h₃, rfl, rfl⟩
  | shutdown =>
    obtain ⟨_, _, _, rfl⟩ := htakes
    rfl
  | error code =>
    simp only [Message.opcode, decodeFields, bind_eq_ok, Prod.exists, u16_eq_ok,
      BrokerErrorCode.tryFrom_eq_ok, pure_eq_ok, Prod.mk.injEq]
    exact ⟨_, _, ⟨code.code_lt, htakes⟩, code, rfl, rfl, rfl⟩
  | _ =>
    simp only [Message.opcode, decodeFields, bind_eq_ok, Prod.exists, u64_eq_ok, array32_eq_ok,
      pure_eq_ok, Prod.mk.injEq]
    exact ⟨_, _, htakes, rfl, rfl⟩

theorem decodePayload_eq_ok {opcode : Opcode} {payload : Bytes} {message : Message} :
    decodePayload opcode payload = .ok message ↔
      message.opcode = opcode ∧ message.validate = .ok () ∧ message.layout = payload := by
  by_cases hopcode : opcode = .readData
  · -- the whole payload is the data
    simp only [decodePayload, if_pos hopcode, bind_eq_ok, pure_eq_ok]
    constructor
    · rintro ⟨_, hvalid, rfl⟩
      exact ⟨hopcode.symm, hvalid, rfl⟩
    · rintro ⟨hmessage, hvalid, rfl⟩
      cases message with
      | readData bytes => exact ⟨(), hvalid, rfl⟩
      | _ => rw [hopcode] at hmessage; cases hmessage
  · simp only [decodePayload, if_neg hopcode, bind_eq_ok, Prod.exists, pure_eq_ok]
    constructor
    · rintro ⟨_, r, hfields, _, hfinish, _, hvalid, rfl⟩
      obtain ⟨hmessage, htakes⟩ := decodeFields_sound hopcode hfields
      exact ⟨hmessage, hvalid, (takes_payload.mp ⟨htakes, hfinish⟩).1⟩
    · rintro ⟨rfl, hvalid, rfl⟩
      have hle := Message.length_layout_le hvalid
      have hmax : maxPayloadLen < 2 ^ 64 := by decide
      obtain ⟨htakes, hfinish⟩ := (@takes_payload message.opcode _ _ _).mpr
        ⟨@rfl _ message.layout, by omega, rfl⟩
      exact ⟨message, _, decodeFields_complete hopcode hvalid htakes, (), hfinish, (), hvalid, rfl⟩

end Undelete.Broker
