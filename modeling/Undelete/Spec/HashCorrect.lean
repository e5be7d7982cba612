import Undelete.ForStd.Except
import Undelete.Native.Restore.Journal

/-!
# Hashes in the journal

Hashes are written as 64 lower-case hexadecimal digits. The decoder reads them back; on
other strings it may fail, and where it cuts a string inside a character it panics.

## Key results

- `decodeHash_hexLower`: the decoder inverts the encoder.
- `decodeHash_panics_iff`: exactly when the decoder panics.
-/

namespace Undelete.Restore

open Except

/-! ## Encoding and decoding -/

/-- The ASCII code of a hexadecimal digit. -/
def hexCode (n : UInt8) : UInt8 := if n < 10 then 48 + n else 87 + n

theorem utf8EncodeChar_hexDigit (n : Fin 16) :
    String.utf8EncodeChar (hexDigit (UInt8.ofNat n)) = [hexCode (UInt8.ofNat n)] := by
  revert n
  decide

theorem hexCode_spec (n : Fin 16) :
    hexCode (UInt8.ofNat n) &&& 0xc0 ≠ 0x80 ∧ hexCode (UInt8.ofNat n) ≠ 43 ∧
      toDigit16 (hexCode (UInt8.ofNat n)) = some n := by
  revert n
  decide

/-- The two halves of a byte, and the byte they make up. -/
theorem nibbles (byte : UInt8) :
    ∃ high low : Fin 16, byte >>> (4 : UInt8) = UInt8.ofNat high ∧ byte &&& 0x0f = UInt8.ofNat low ∧
      UInt8.ofNat (16 * high + low) = byte := by
  have hlt : byte.toNat < 256 := byte.toNat_lt
  refine ⟨⟨byte.toNat / 16, by omega⟩, ⟨byte.toNat % 16, by omega⟩, ?_, ?_, ?_⟩
  · apply UInt8.toNat_inj.mp
    have hhigh : byte.toNat / 16 % 2 ^ 8 = byte.toNat / 16 := Nat.mod_eq_of_lt (by omega)
    rw [UInt8.toNat_shiftRight, UInt8.toNat_ofNat', hhigh]
    exact Nat.shiftRight_eq_div_pow byte.toNat 4
  · apply UInt8.toNat_inj.mp
    have hlow : byte.toNat % 16 % 2 ^ 8 = byte.toNat % 16 := Nat.mod_eq_of_lt (by omega)
    rw [UInt8.toNat_and, UInt8.toNat_ofNat', hlow]
    exact Nat.and_two_pow_sub_one_eq_mod byte.toNat 4
  · apply UInt8.toNat_inj.mp
    rw [UInt8.toNat_ofNat']
    dsimp only
    omega

/-- The two codes that stand for a byte. -/
def hexPair (byte : UInt8) : Bytes := [hexCode (byte >>> (4 : UInt8)), hexCode (byte &&& 0x0f)]

theorem ofString_hexLower (bytes : Bytes) :
    Bytes.ofString (hexLower bytes) = bytes.flatMap hexPair := by
  rw [hexLower, Bytes.ofString_ofList, List.flatMap_assoc]
  congr 1
  funext byte
  obtain ⟨high, low, hhigh, hlow, _⟩ := nibbles byte
  simp only [hexPair, hhigh, hlow, List.flatMap_cons, utf8EncodeChar_hexDigit, List.flatMap_nil]
  rfl

theorem utf8ByteSize_hexLower (bytes : Bytes) :
    (hexLower bytes).utf8ByteSize = 2 * bytes.length := by
  rw [← Bytes.length_ofString, ofString_hexLower, List.length_flatMap]
  simp [hexPair, Nat.mul_comm]

/-- The pair of codes at position `i`. -/
theorem slice_flatMap_hexPair {bytes : Bytes} {i : Nat} (h : i < bytes.length) :
    Bytes.slice (bytes.flatMap hexPair) (i * 2) (i * 2 + 2) = hexPair bytes[i] := by
  induction bytes generalizing i with
  | nil => cases h
  | cons byte bytes ih =>
    cases i with
    | zero => rfl
    | succ i =>
      rw [List.getElem_cons_succ, ← ih (Nat.lt_of_succ_lt_succ h), List.flatMap_cons]
      have hstart : (i + 1) * 2 = i * 2 + (hexPair byte).length := by
        show _ = i * 2 + 2
        omega
      have hstop : (i + 1) * 2 + 2 - (i + 1) * 2 = i * 2 + 2 - i * 2 := by omega
      simp only [Bytes.slice]
      rw [hstop, hstart, List.drop_append, List.drop_of_length_le (by omega), Nat.add_sub_cancel,
        List.nil_append]

theorem isCharBoundary_hexPair {bytes : Bytes} {i : Nat} (h : i ≤ bytes.length) :
    isCharBoundary (bytes.flatMap hexPair) (i * 2) = true := by
  have hlength : (bytes.flatMap hexPair).length = bytes.length * 2 := by
    rw [List.length_flatMap]
    simp [hexPair]
  rcases Nat.lt_or_eq_of_le h with hlt | rfl
  · have hslice := slice_flatMap_hexPair hlt
    have hget : (bytes.flatMap hexPair)[i * 2]? = (hexPair bytes[i])[0]? := by
      rw [← hslice, Bytes.getElem?_slice, if_pos (by omega), Nat.add_zero]
    obtain ⟨high, _, hhigh, _, _⟩ := nibbles bytes[i]
    rw [isCharBoundary, hget, hexPair, hhigh]
    have hcode := (hexCode_spec high).1
    simp [hcode]
  · rw [isCharBoundary, hlength]
    simp

theorem fromStrRadix16_hexPair (byte : UInt8) : fromStrRadix16 (hexPair byte) = some byte := by
  obtain ⟨high, low, hhigh, hlow, hbyte⟩ := nibbles byte
  obtain ⟨_, hsign, hdigit⟩ := hexCode_spec high
  obtain ⟨_, _, hdigit'⟩ := hexCode_spec low
  simp only [hexPair, fromStrRadix16, hhigh, hlow, if_neg hsign, hdigit, hdigit']
  exact congrArg some hbyte

theorem decodePair_hexPair {bytes : Bytes} {i : Nat} (h : i < bytes.length) :
    decodePair (bytes.flatMap hexPair) i = .ok bytes[i] := by
  have hstart := isCharBoundary_hexPair (Nat.le_of_lt h)
  have hstop := isCharBoundary_hexPair (Nat.succ_le_of_lt h)
  rw [Nat.succ_mul] at hstop
  have hslice : sliceStr (bytes.flatMap hexPair) (i * 2) (i * 2 + 2) = .ok (hexPair bytes[i]) := by
    rw [sliceStr, hstart, hstop, slice_flatMap_hexPair h, if_pos]
    simp
  rw [decodePair, hslice, bind_ok, fromStrRadix16_hexPair]
  rfl

/-- The decoder inverts the encoder. -/
theorem decodeHash_hexLower (digest : Digest) :
    decodeHash (hexLower digest.toList) = .ok digest := by
  have hsize : (hexLower digest.toList).utf8ByteSize = 64 := by
    rw [utf8ByteSize_hexLower, Vector.length_toList]
  have hpairs : (List.range 32).mapM (decodePair (Bytes.ofString (hexLower digest.toList))) =
      .ok ((List.range 32).map fun i => digest.toList.getD i 0) := by
    apply mapM_eq_ok
    intro i hi
    have hlt : i < digest.toList.length := by
      rw [Vector.length_toList]
      exact List.mem_range.mp hi
    rw [ofString_hexLower, decodePair_hexPair hlt, List.getD_eq_getElem?_getD,
      List.getElem?_eq_getElem hlt, Option.getD_some]
  rw [decodeHash, if_neg (not_not_intro hsize), hpairs]
  have hdigest : (Vector.ofFn fun i : Fin 32 =>
      ((List.range 32).map fun i => digest.toList.getD i 0).getD i 0) = digest := by
    apply Vector.ext
    intro i hi
    simp
  exact congrArg Except.ok hdigest

theorem flatMap_hexPair_inj {a b : Bytes} (h : a.flatMap hexPair = b.flatMap hexPair) : a = b := by
  induction a generalizing b with
  | nil =>
    cases b with
    | nil => rfl
    | cons y b => cases h
  | cons x a ih =>
    cases b with
    | nil => cases h
    | cons y b =>
      rw [List.flatMap_cons, List.flatMap_cons] at h
      obtain ⟨hpair, hrest⟩ := List.append_inj h rfl
      have hbyte := fromStrRadix16_hexPair x
      rw [hpair, fromStrRadix16_hexPair] at hbyte
      rw [Option.some.inj hbyte, ih hrest]

theorem hexLower_inj {a b : Bytes} (h : hexLower a = hexLower b) : a = b := by
  have hbytes := congrArg Bytes.ofString h
  rw [ofString_hexLower, ofString_hexLower] at hbytes
  exact flatMap_hexPair_inj hbytes

/-! ## Panics -/

/-- The pair at position `i` lies between character boundaries. -/
def WholePair (text : Bytes) (i : Nat) : Prop :=
  isCharBoundary text (i * 2) = true ∧ isCharBoundary text (i * 2 + 2) = true

/-- The string has the length of a hash, and in front of it stand hexadecimal pairs up to
    a pair that does not lie between character boundaries. -/
def CutsCharacter (encoded : String) : Prop :=
  encoded.utf8ByteSize = 64 ∧ ∃ i < 32, ¬WholePair (Bytes.ofString encoded) i ∧
    ∀ j < i, WholePair (Bytes.ofString encoded) j ∧
      ∃ byte, fromStrRadix16 ((Bytes.ofString encoded).slice (j * 2) (j * 2 + 2)) = some byte

theorem sliceStr_eq {text : Bytes} {i : Nat} (h : WholePair text i) :
    sliceStr text (i * 2) (i * 2 + 2) = .ok (text.slice (i * 2) (i * 2 + 2)) := by
  rw [sliceStr, h.1, h.2, if_pos]
  simp

theorem sliceStr_panics {text : Bytes} {i : Nat} (h : ¬WholePair text i) :
    sliceStr text (i * 2) (i * 2 + 2) = .error .panic := by
  rw [sliceStr, if_neg]
  intro hbounds
  simp only [Bool.and_eq_true] at hbounds
  exact h ⟨hbounds.1.2, hbounds.2⟩

theorem decodePair_eq_ok {text : Bytes} {i : Nat} {byte : UInt8} :
    decodePair text i = .ok byte ↔
      WholePair text i ∧ fromStrRadix16 (text.slice (i * 2) (i * 2 + 2)) = some byte := by
  unfold decodePair
  by_cases hwhole : WholePair text i
  · rw [sliceStr_eq hwhole, bind_ok, okOr_eq_ok]
    exact ⟨fun h => ⟨hwhole, h⟩, fun h => h.2⟩
  · rw [sliceStr_panics hwhole]
    exact ⟨fun h => (by cases h), fun h => absurd h.1 hwhole⟩

theorem decodePair_panics_iff {text : Bytes} {i : Nat} :
    decodePair text i = .error .panic ↔ ¬WholePair text i := by
  unfold decodePair
  by_cases hwhole : WholePair text i
  · rw [sliceStr_eq hwhole, bind_ok]
    refine ⟨fun h => ?_, fun h => absurd hwhole h⟩
    cases hradix : fromStrRadix16 (text.slice (i * 2) (i * 2 + 2)) with
    | none => rw [hradix] at h; cases h
    | some byte => rw [hradix] at h; cases h
  · rw [sliceStr_panics hwhole]
    exact ⟨fun _ => hwhole, fun _ => rfl⟩

theorem decodeHash_panics_iff (encoded : String) :
    decodeHash encoded = .error .panic ↔ CutsCharacter encoded := by
  have hpairs : (List.range 32).mapM (decodePair (Bytes.ofString encoded)) = .error .panic ↔
      ∃ i < 32, ¬WholePair (Bytes.ofString encoded) i ∧
        ∀ j < i, WholePair (Bytes.ofString encoded) j ∧
          ∃ byte, fromStrRadix16 ((Bytes.ofString encoded).slice (j * 2) (j * 2 + 2)) =
            some byte := by
    rw [mapM_range_eq_error]
    simp only [decodePair_panics_iff, decodePair_eq_ok, exists_and_left]
    constructor
    · rintro ⟨i, hi, hbefore, hcut⟩
      exact ⟨i, hi, hcut, hbefore⟩
    · rintro ⟨i, hi, hcut, hbefore⟩
      exact ⟨i, hi, hbefore, hcut⟩
  unfold decodeHash CutsCharacter
  by_cases hsize : encoded.utf8ByteSize = 64
  · rw [if_neg (not_not_intro hsize), ← hpairs]
    cases (List.range 32).mapM (decodePair (Bytes.ofString encoded)) with
    | error e =>
      constructor
      · intro h
        cases h
        exact ⟨hsize, rfl⟩
      · rintro ⟨_, h⟩
        cases h
        rfl
    | ok bytes => exact ⟨fun h => (by cases h), fun h => (by cases h.2)⟩
  · rw [if_pos hsize]
    exact ⟨fun h => (by cases h), fun h => absurd h.1 hsize⟩

end Undelete.Restore
