import Mathlib.Algebra.Group.Int.Defs
import Mathlib.Algebra.Group.Nat.Defs

/-!
# Byte strings

A byte string is a list of `UInt8`. This file provides half-open slices, total
(`slice`) and bounded (`getRange?`), the little-endian value of a byte string
(`leValue`) and its inverse (`ofLE`), the UTF-8 bytes of a string, and the byte
string a memory function shows in a window (`window`).
-/

abbrev Bytes := List UInt8

namespace Bytes

/-- The bytes at positions `start ≤ i < stop`. -/
def slice (b : Bytes) (start stop : Nat) : Bytes := (b.drop start).take (stop - start)

/-- The slice `start ≤ i < stop`, or `none` when it does not lie inside `b`. -/
def getRange? (b : Bytes) (start stop : Nat) : Option Bytes :=
  if start ≤ stop ∧ stop ≤ b.length then some (b.slice start stop) else none

/-- The little-endian value of a byte string. -/
def leValue : Bytes → Nat
  | [] => 0
  | b :: rest => b.toNat + 256 * leValue rest

/-- The low `count` bytes of `n`, the least significant byte first. -/
def ofLE : Nat → Nat → Bytes
  | 0, _ => []
  | count + 1, n => UInt8.ofNat n :: ofLE count (n / 256)

/-- The UTF-8 encoding of a string. -/
def ofString (s : String) : Bytes := s.toByteArray.data.toList

/-- The string encoded by `b`, or `none` when `b` is not valid UTF-8. -/
def toString? (b : Bytes) : Option String := String.fromUTF8? ⟨⟨b⟩⟩

/-- `len` bytes of a memory, starting at `offset`. -/
def window (byte : Nat → UInt8) (offset len : Nat) : Bytes :=
  (List.range len).map fun i => byte (offset + i)

/-! ## Slices -/

@[simp] theorem length_slice (b : Bytes) (start stop : Nat) :
    (b.slice start stop).length = min (stop - start) (b.length - start) := by
  simp [slice]

theorem getElem?_slice (b : Bytes) (start stop i : Nat) :
    (b.slice start stop)[i]? = if i < stop - start then b[start + i]? else none := by
  simp only [slice, List.getElem?_take, List.getElem?_drop]

theorem slice_slice (b : Bytes) {start stop s t : Nat} (h : t ≤ stop - start) :
    (b.slice start stop).slice s t = b.slice (start + s) (start + t) := by
  apply List.ext_getElem?
  intro i
  simp only [getElem?_slice, Nat.add_assoc]
  split <;> split <;> first | rfl | omega | (split <;> first | rfl | omega)

theorem slice_append_slice (b : Bytes) {i j k : Nat} (hij : i ≤ j) (hjk : j ≤ k) :
    b.slice i j ++ b.slice j k = b.slice i k := by
  have hsplit : k - i = (j - i) + (k - j) := by omega
  have hdrop : j = i + (j - i) := by omega
  simp only [slice]
  rw [hsplit, List.take_add, List.drop_drop, ← hdrop]

theorem slice_congr {b d : Bytes} {start stop : Nat}
    (h : ∀ i, start ≤ i → i < stop → b[i]? = d[i]?) : b.slice start stop = d.slice start stop := by
  apply List.ext_getElem?
  intro i
  simp only [getElem?_slice]
  split
  · exact h (start + i) (by omega) (by omega)
  · rfl

theorem slice_self (b : Bytes) : b.slice 0 b.length = b := by simp [slice]

theorem getRange?_eq_some {b s : Bytes} {start stop : Nat} :
    b.getRange? start stop = some s ↔
      start ≤ stop ∧ stop ≤ b.length ∧ b.slice start stop = s := by
  simp only [getRange?, Option.ite_none_right_eq_some, Option.some.injEq, and_assoc]

theorem getRange?_congr {b d : Bytes} {start stop : Nat} (hlength : b.length = d.length)
    (h : ∀ i, start ≤ i → i < stop → b[i]? = d[i]?) :
    b.getRange? start stop = d.getRange? start stop := by
  rw [getRange?, getRange?, hlength, slice_congr h]

theorem leValue_lt (b : Bytes) : leValue b < 256 ^ b.length := by
  induction b with
  | nil => exact Nat.one_pos
  | cons b rest ih =>
    have hbyte : b.toNat < 256 := b.toNat_lt
    simp only [leValue, List.length_cons, Nat.pow_succ]
    omega

/-- The value of a slice of `n` bytes. -/
theorem leValue_getRange?_lt {b s : Bytes} {off n : Nat}
    (h : b.getRange? off (off + n) = some s) : leValue s < 256 ^ n := by
  obtain ⟨_, hlen, rfl⟩ := getRange?_eq_some.mp h
  have hlength : (b.slice off (off + n)).length = n := by
    rw [length_slice]; omega
  have hlt := leValue_lt (b.slice off (off + n))
  rw [hlength] at hlt
  exact hlt

@[simp] theorem length_ofLE (count n : Nat) : (ofLE count n).length = count := by
  induction count generalizing n with
  | zero => rfl
  | succ count ih => rw [ofLE, List.length_cons, ih]

theorem leValue_ofLE {count n : Nat} (h : n < 256 ^ count) : leValue (ofLE count n) = n := by
  induction count generalizing n with
  | zero => rw [Nat.pow_zero] at h; simp only [ofLE, leValue]; omega
  | succ count ih =>
    rw [Nat.pow_succ] at h
    have hbyte : (UInt8.ofNat n).toNat = n % 256 := UInt8.toNat_ofNat'
    rw [ofLE, leValue, ih (by omega), hbyte]
    omega

/-- A byte string is determined by its length and its value. -/
theorem ofLE_leValue (b : Bytes) : ofLE b.length (leValue b) = b := by
  induction b with
  | nil => rfl
  | cons b rest ih =>
    have hbyte : b.toNat < 256 := b.toNat_lt
    have hhead : UInt8.ofNat (b.toNat + 256 * leValue rest) = b := by
      apply UInt8.toNat_inj.mp
      rw [UInt8.toNat_ofNat']
      omega
    have htail : (b.toNat + 256 * leValue rest) / 256 = leValue rest := by omega
    rw [List.length_cons, leValue, ofLE, hhead, htail, ih]

theorem ofLE_inj {count m n : Nat} (hm : m < 256 ^ count) (hn : n < 256 ^ count) :
    ofLE count m = ofLE count n ↔ m = n := by
  constructor
  · intro h
    rw [← leValue_ofLE hm, h, leValue_ofLE hn]
  · rintro rfl; rfl

/-! ## UTF-8 -/

@[simp] theorem length_ofString (s : String) : (ofString s).length = s.utf8ByteSize := rfl

theorem ofString_ofList (cs : List Char) :
    ofString (String.ofList cs) = cs.flatMap String.utf8EncodeChar := by
  simp [ofString, List.utf8Encode]

theorem ofString_append (s t : String) : ofString (s ++ t) = ofString s ++ ofString t := by
  simp [ofString]

theorem toString?_eq_some {b : Bytes} {s : String} : b.toString? = some s ↔ ofString s = b := by
  simp only [toString?, String.fromUTF8?, ofString]
  constructor
  · intro h
    split at h
    · cases h; rfl
    · cases h
  · rintro rfl
    exact dif_pos s.isValidUTF8

theorem ofString_inj {s t : String} : ofString s = ofString t ↔ s = t := by
  constructor
  · intro h
    have hs := toString?_eq_some.mpr h
    rw [toString?_eq_some.mpr rfl] at hs
    exact (Option.some.inj hs).symm
  · rintro rfl; rfl

/-! ## Windows of a memory -/

@[simp] theorem length_window (byte : Nat → UInt8) (offset len : Nat) :
    (window byte offset len).length = len := by simp [window]

theorem getElem?_window (byte : Nat → UInt8) (offset len i : Nat) :
    (window byte offset len)[i]? = if i < len then some (byte (offset + i)) else none := by
  simp only [window, List.getElem?_map]
  split <;> simp_all

theorem window_append (byte : Nat → UInt8) (offset a b : Nat) :
    window byte offset a ++ window byte (offset + a) b = window byte offset (a + b) := by
  simp [window, List.range_add, Function.comp_def, Nat.add_assoc]

theorem slice_window (byte : Nat → UInt8) (offset : Nat) {len start stop : Nat}
    (h : stop ≤ len) :
    (window byte offset len).slice start stop = window byte (offset + start) (stop - start) := by
  apply List.ext_getElem?
  intro i
  simp only [getElem?_slice, getElem?_window, Nat.add_assoc]
  split <;> first | rfl | (split <;> first | rfl | omega)

theorem window_congr {byte byte' : Nat → UInt8} {offset offset' len : Nat}
    (h : ∀ i < len, byte (offset + i) = byte' (offset' + i)) :
    window byte offset len = window byte' offset' len := by
  simp only [window]
  apply List.map_congr_left
  intro i hi
  exact h i (List.mem_range.mp hi)

/-- A window equals a byte string exactly when it agrees with it at every position. -/
theorem window_eq_iff (byte : Nat → UInt8) (offset : Nat) (b : Bytes) :
    window byte offset b.length = b ↔ ∀ i < b.length, b[i]? = some (byte (offset + i)) := by
  constructor
  · intro h i hi
    rw [← h, getElem?_window, if_pos hi]
  · intro h
    apply List.ext_getElem?
    intro i
    rw [getElem?_window]
    split
    · next hi => exact (h i hi).symm
    · next hi => exact (List.getElem?_eq_none (by omega)).symm

end Bytes
