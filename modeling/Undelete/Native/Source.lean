import Mathlib.Algebra.GroupWithZero.Nat
import Undelete.Native.Core

/-!
# Sources with a fixed content

Model of `MemImageReader` in `crates/io-common/src/lib.rs`, and the sources whose
exact reads fail exactly when they touch a fixed set of unreadable bytes.
-/

namespace Undelete

/-- A source with a fixed content: an exact read succeeds exactly when it stays inside
    the source and touches no bad byte. -/
structure FaultySource extends SourceReader where
  byte : Nat → UInt8
  bad : Nat → Prop
  readExactAt_eq_ok : ∀ offset n b, readExactAt offset n = .ok b ↔
    (offset + n ≤ len ∧ ∀ i, offset ≤ i → i < offset + n → ¬bad i) ∧
      b = Bytes.window byte offset n

/-- What a best-effort read of a source with the content `byte` and the unreadable bytes
    `bad` delivers: the readable bytes, and every unreadable one reported once. -/
structure Delivers (byte : Nat → UInt8) (bad : Nat → Prop) (offset : Nat) (slice : Bytes)
    (outcome : ReadOutcome) : Prop where
  good : ∀ i < slice.length, ¬bad (offset + i) → slice[i]? = some (byte (offset + i))
  inside : ∀ r ∈ outcome.badRanges, 0 < r.2 ∧ r.1 + r.2 ≤ slice.length
  disjoint : outcome.badRanges.Pairwise fun r s => r.1 + r.2 ≤ s.1 ∨ s.1 + s.2 ≤ r.1
  covers : ∀ i < slice.length,
    bad (offset + i) ↔ ∃ r ∈ outcome.badRanges, r.1 ≤ i ∧ i < r.1 + r.2
  bytesValid : outcome.bytesValid + (outcome.badRanges.map Prod.snd).sum = slice.length

/-- A faulty source whose best-effort reads inside it deliver what can be read. The
    ranges they report depend on the offset and the length of the read only. -/
structure ReportingSource extends FaultySource where
  report : Nat → Nat → List (Nat × Nat)
  delivers : ∀ offset buffer, offset + buffer.length ≤ len →
    Delivers byte bad offset (readBestEffortAt offset buffer).1 (readBestEffortAt offset buffer).2
  badRanges_eq : ∀ offset buffer, offset + buffer.length ≤ len →
    (readBestEffortAt offset buffer).2.badRanges = report offset buffer.length

/-- `MemImageReader`, on a content given as a function. -/
def memImageReader (byte : Nat → UInt8) (len : Nat) (hlen : len < 2 ^ 64) : FaultySource where
  len
  len_lt := hlen
  byte
  bad _ := False
  readExactAt offset n :=
    if offset + n ≤ len then .ok (Bytes.window byte offset n)
    else .error (.outOfBounds offset n len)
  readBestEffortAt offset buffer :=
    if offset + buffer.length ≤ len then
      (Bytes.window byte offset buffer.length, ⟨buffer.length, []⟩)
    else (List.replicate buffer.length 0, ⟨0, [(0, buffer.length)]⟩)
  length_readExactAt := by
    intro offset n bytes h
    split at h
    · cases h; exact Bytes.length_window ..
    · cases h
  length_readBestEffortAt offset buffer := by
    split <;> simp
  readExactAt_eq_ok offset n b := by
    split
    · next h => simp [h, eq_comm]
    · next h => simp [h]

/-- The part of `n` bytes at `offset` that lies between `low` and `high`, relative to
    `offset`. -/
def damagedRanges (low high offset n : Nat) : List (Nat × Nat) :=
  if max offset low < min (offset + n) high then
    [(max offset low - offset, min (offset + n) high - max offset low)]
  else []

theorem damagedRanges_eq_nil {low high offset n : Nat} :
    damagedRanges low high offset n = [] ↔
      ∀ i, offset ≤ i → i < offset + n → ¬(low ≤ i ∧ i < high) := by
  unfold damagedRanges
  constructor
  · intro h i hi hin hbad
    rw [if_pos (by omega)] at h
    cases h
  · intro h
    rw [if_neg]
    intro hlt
    exact h (max offset low) (by omega) (by omega) (by omega)

/-- What can be read of a damaged stretch, with zeros for the rest. -/
theorem damagedRanges_delivers (byte : Nat → UInt8) (low high offset n : Nat) :
    Delivers byte (fun i => low ≤ i ∧ i < high) offset
      (Bytes.window (fun i => if low ≤ i ∧ i < high then 0 else byte i) offset n)
      ⟨n - ((damagedRanges low high offset n).map Prod.snd).sum,
        damagedRanges low high offset n⟩ := by
  unfold damagedRanges
  constructor
  · intro i hi hbad
    rw [Bytes.length_window] at hi
    rw [Bytes.getElem?_window, if_pos hi, if_neg hbad]
  · intro r hr
    rw [Bytes.length_window]
    split at hr
    · rw [List.mem_singleton.mp hr]
      simp only
      omega
    · cases hr
  · dsimp only
    split <;> simp
  · intro i hi
    rw [Bytes.length_window] at hi
    dsimp only
    split
    · simp only [List.mem_singleton, exists_eq_left]
      omega
    · simp only [List.not_mem_nil, false_and, exists_false, iff_false]
      omega
  · rw [Bytes.length_window]
    dsimp only
    split
    · simp only [List.map_cons, List.map_nil, List.sum_cons, List.sum_nil]
      omega
    · simp

/-- A source with one damaged stretch, which best-effort reads fill with zeros and
    report as one range. -/
def damagedReader (byte : Nat → UInt8) (low high len : Nat) (hlen : len < 2 ^ 64) :
    ReportingSource where
  len
  len_lt := hlen
  byte
  bad i := low ≤ i ∧ i < high
  report := damagedRanges low high
  readExactAt offset n :=
    if offset + n ≤ len ∧ damagedRanges low high offset n = [] then .ok (Bytes.window byte offset n)
    else .error (.io offset "unreadable range")
  readBestEffortAt offset buffer :=
    if offset + buffer.length ≤ len then
      (Bytes.window (fun i => if low ≤ i ∧ i < high then 0 else byte i) offset buffer.length,
        ⟨buffer.length - ((damagedRanges low high offset buffer.length).map Prod.snd).sum,
          damagedRanges low high offset buffer.length⟩)
    else (List.replicate buffer.length 0, ⟨0, [(0, buffer.length)]⟩)
  length_readExactAt := by
    intro offset n bytes h
    split at h
    · cases h; exact Bytes.length_window ..
    · cases h
  length_readBestEffortAt offset buffer := by
    split
    · dsimp only
      rw [Bytes.length_window]
    · exact List.length_replicate
  readExactAt_eq_ok offset n b := by
    rw [← damagedRanges_eq_nil]
    split
    · next h => exact ⟨fun hb => ⟨h, (Except.ok.inj hb).symm⟩, fun hb =>
        congrArg Except.ok hb.2.symm⟩
    · next h =>
      refine ⟨fun hb => ?_, fun hb => absurd hb.1 h⟩
      cases hb
  delivers offset buffer hin := by
    rw [if_pos hin]
    exact damagedRanges_delivers byte low high offset buffer.length
  badRanges_eq offset buffer hin := by
    rw [if_pos hin]

/-- A content that is zero except for the listed byte strings. -/
def patched (patches : List (Nat × Bytes)) (i : Nat) : UInt8 :=
  (patches.find? fun p => p.1 ≤ i && i < p.1 + p.2.length).elim 0 fun p => p.2.getD (i - p.1) 0

end Undelete
