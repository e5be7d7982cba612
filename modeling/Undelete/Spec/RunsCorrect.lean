import Mathlib.Algebra.GroupWithZero.Nat
import Undelete.ForStd.Except
import Undelete.Native.Ntfs.Boot
import Undelete.Native.Ntfs.Runs

/-!
# Accepted boot sectors and run lists

What the rest of the NTFS proofs use of the two parsers: the geometry of an
accepted boot sector is free of overflow, and the runs of an accepted run list are
non-empty and lie inside the volume.

## Key results

- `NtfsBoot.parse_valid`: an accepted boot sector has a `Valid` geometry.
- `decodeRunlist_fit`: the runs of an accepted run list fit the volume.
-/

namespace Undelete.Ntfs

open Except

/-! ## Boot sector -/

/-- A geometry whose byte offsets fit a machine word. -/
structure NtfsBoot.Valid (boot : NtfsBoot) : Prop where
  clusterSize_pos : 0 < boot.clusterSize
  volume_lt : boot.totalClusters * boot.clusterSize < 2 ^ 64

theorem isPowerOfTwo_pos {n : Nat} (h : isPowerOfTwo n = true) : 0 < n := by
  simp only [isPowerOfTwo, Bool.and_eq_true, bne_iff_ne, ne_eq] at h
  exact Nat.pos_of_ne_zero h.1

/-- An accepted boot sector describes a volume inside `volumeLen` bytes. -/
theorem NtfsBoot.parse_valid {sector0 : Bytes} {volumeLen : Nat} {boot : NtfsBoot}
    (h : NtfsBoot.parse sector0 volumeLen = .ok boot) :
    boot.Valid ∧ boot.totalClusters * boot.clusterSize ≤ volumeLen ∧
      0 < boot.fileRecordSize ∧ 256 ≤ boot.bytesPerSector := by
  simp only [NtfsBoot.parse, bind_eq_ok, throw_bind, ite_throw_eq_ok, okOr_eq_ok,
    pure_eq_ok] at h
  obtain ⟨_, _, _, hsector, spc, _, hspc, _, fsBytes, hbytes, hvolume, _, recordSize, hrecord,
    rfl⟩ := h
  obtain ⟨hlt, rfl⟩ := U64.checkedMul_eq_some.mp hbytes
  simp only [Bool.not_eq_true', Bool.not_eq_false] at hspc
  simp only [Bool.or_eq_true, Bool.not_eq_true', not_or, Bool.not_eq_false, Bool.and_eq_true,
    decide_eq_true_eq] at hsector
  have hspc_pos := isPowerOfTwo_pos hspc
  have hsector_pos := isPowerOfTwo_pos hsector.1
  generalize (Le.u16At sector0 11).getD 0 = bytesPerSector at *
  generalize (Le.u64At sector0 40).getD 0 = totalSectors at *
  have hclusters : totalSectors / spc * (bytesPerSector * spc) ≤ totalSectors * bytesPerSector :=
    calc totalSectors / spc * (bytesPerSector * spc)
        = totalSectors / spc * spc * bytesPerSector := by
          rw [Nat.mul_comm bytesPerSector, Nat.mul_assoc]
      _ ≤ totalSectors * bytesPerSector :=
          Nat.mul_le_mul_right _ (Nat.div_mul_le_self _ _)
  have hrecord_pos : 0 < recordSize := by
    obtain ⟨_, hplausible⟩ := Option.filter_eq_some_iff.mp hrecord
    simp only [plausibleRecordSize, Bool.and_eq_true, decide_eq_true_eq] at hplausible
    omega
  exact ⟨⟨Nat.mul_pos hsector_pos hspc_pos, Nat.lt_of_le_of_lt hclusters hlt⟩,
    Nat.le_trans hclusters (Nat.le_of_not_lt hvolume), hrecord_pos, hsector.2.1⟩

/-! ## Run lists -/

def totalRunClusters (runs : List RunElement) : Nat := (runs.map (·.clusterCount)).sum

theorem totalRunClusters_cons (run : RunElement) (runs : List RunElement) :
    totalRunClusters (run :: runs) = run.clusterCount + totalRunClusters runs := by
  simp [totalRunClusters]

/-- Non-empty runs inside a volume of `totalClusters` clusters. -/
structure RunsFit (totalClusters : Nat) (runs : List RunElement) : Prop where
  pos : ∀ r ∈ runs, 0 < r.clusterCount
  inside : ∀ r ∈ runs, ∀ lcn, r.lcn = some lcn → lcn + r.clusterCount ≤ totalClusters
  total_le : totalRunClusters runs ≤ totalClusters

theorem RunsFit.tail {totalClusters : Nat} {run : RunElement} {runs : List RunElement}
    (h : RunsFit totalClusters (run :: runs)) : RunsFit totalClusters runs where
  pos r hr := h.pos r (List.mem_cons_of_mem run hr)
  inside r hr := h.inside r (List.mem_cons_of_mem run hr)
  total_le := by
    have := h.total_le
    rw [totalRunClusters_cons] at this
    omega

theorem admitLength_ok {totalClusters totalLen clusterCount totalLen' : Nat}
    (h : admitLength totalClusters totalLen clusterCount = .ok totalLen') :
    0 < clusterCount ∧ totalLen' = totalLen + clusterCount ∧ totalLen' ≤ totalClusters := by
  simp only [admitLength, bind_eq_ok, throw_bind, ite_throw_eq_ok, okOr_eq_ok, pure_eq_ok] at h
  obtain ⟨hcount, _, hadd, hle, rfl⟩ := h
  obtain ⟨_, rfl⟩ := U64.checkedAdd_eq_some.mp hadd
  omega

theorem relocate_ok {totalClusters clusterCount : Nat} {currentLcn lcn : Int} {field : Bytes}
    (h : relocate totalClusters currentLcn clusterCount field = .ok lcn) :
    asU64 lcn + clusterCount ≤ totalClusters := by
  simp only [relocate, throw_bind, ite_throw_eq_ok] at h
  obtain ⟨_, h⟩ := h
  split at h
  · next runEnd hadd =>
    simp only [ite_throw_eq_ok, pure_eq_ok] at h
    obtain ⟨hle, rfl⟩ := h
    obtain ⟨_, rfl⟩ := U64.checkedAdd_eq_some.mp hadd
    omega
  · cases h

theorem elementLcn_ok {totalClusters lenSize offSize clusterCount : Nat} {rest : Bytes}
    {currentLcn currentLcn' : Int} {lcn : Option Nat}
    (h : elementLcn totalClusters rest lenSize offSize currentLcn clusterCount
      = .ok (currentLcn', lcn)) :
    ∀ l, lcn = some l → l + clusterCount ≤ totalClusters := by
  rintro l rfl
  simp only [elementLcn] at h
  split at h
  · cases h
  · simp only [bind_eq_ok, okOr_eq_ok, pure_eq_ok, Prod.mk.injEq, Option.some.injEq] at h
    obtain ⟨_, _, _, hrelocate, _, rfl⟩ := h
    exact relocate_ok hrelocate

/-- The decoding loop extends fitting runs to fitting runs. -/
theorem decodeElements_fit {totalClusters fuel : Nat} {buf : Bytes} {st : RunlistState}
    {runs : List RunElement} (h : decodeElements totalClusters fuel buf st = .ok runs)
    (hfit : RunsFit totalClusters st.runs) (htotal : st.totalLen = totalRunClusters st.runs) :
    RunsFit totalClusters runs := by
  induction fuel generalizing buf st with
  | zero => cases h
  | succ fuel ih =>
    cases buf with
    | nil => cases h
    | cons header rest =>
      simp only [decodeElements] at h
      split at h
      · cases h; exact hfit
      · simp only [bind_eq_ok, throw_bind, ite_throw_eq_ok, okOr_eq_ok] at h
        obtain ⟨_, lenBytes, _, totalLen, hadmit, ⟨currentLcn, lcn⟩, hlcn, _, hrest⟩ := h
        obtain ⟨hpos, rfl, hle⟩ := admitLength_ok hadmit
        have hsum : totalRunClusters (st.runs ++ [⟨lenBytes.leValue, lcn⟩]) =
            totalRunClusters st.runs + lenBytes.leValue := by
          simp [totalRunClusters]
        refine ih hrest ⟨?_, ?_, ?_⟩ ?_
        · simp only [List.mem_append, List.mem_singleton]
          rintro r (hr | rfl)
          · exact hfit.pos r hr
          · exact hpos
        · simp only [List.mem_append, List.mem_singleton]
          rintro r (hr | rfl) l hl
          · exact hfit.inside r hr l hl
          · exact elementLcn_ok hlcn l hl
        · rw [hsum, ← htotal]; exact hle
        · simp only [hsum, htotal]

/-- The runs of an accepted run list fit the volume. -/
theorem decodeRunlist_fit {buf : Bytes} {totalClusters : Nat} {runs : List RunElement}
    (h : decodeRunlist buf totalClusters = .ok runs) : RunsFit totalClusters runs :=
  decodeElements_fit h ⟨by simp, by simp, Nat.zero_le _⟩ rfl

/-! ## Where a byte is -/

/-- The physical offset the runs give to byte `i` of the stream; `none` in a sparse run
    and beyond the last run. -/
def runOffset (clusterSize : Nat) : List RunElement → Nat → Option Nat
  | [], _ => none
  | run :: runs, i =>
    if i < run.clusterCount * clusterSize then run.lcn.map (· * clusterSize + i)
    else runOffset clusterSize runs (i - run.clusterCount * clusterSize)

/-- The runs place no byte outside the volume. -/
theorem RunsFit.runOffset_lt {totalClusters clusterSize i p : Nat} {runs : List RunElement}
    (h : RunsFit totalClusters runs) (hp : runOffset clusterSize runs i = some p) :
    p < totalClusters * clusterSize := by
  induction runs generalizing i with
  | nil => cases hp
  | cons run runs ih =>
    rw [runOffset] at hp
    split at hp
    · next hi =>
      obtain ⟨lcn, hlcn, rfl⟩ := Option.map_eq_some_iff.mp hp
      have hinside : (lcn + run.clusterCount) * clusterSize ≤ totalClusters * clusterSize :=
        Nat.mul_le_mul_right _ (h.inside run List.mem_cons_self lcn hlcn)
      rw [Nat.add_mul] at hinside
      omega
    · exact ih h.tail hp

/-- The runs place nothing behind their last cluster. -/
theorem runOffset_eq_none {clusterSize i : Nat} {runs : List RunElement}
    (h : totalRunClusters runs * clusterSize ≤ i) : runOffset clusterSize runs i = none := by
  induction runs generalizing i with
  | nil => rfl
  | cons run runs ih =>
    rw [totalRunClusters_cons, Nat.add_mul] at h
    rw [runOffset, if_neg (by omega)]
    exact ih (by omega)

end Undelete.Ntfs
