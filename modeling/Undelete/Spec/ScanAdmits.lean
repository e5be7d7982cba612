import Undelete.Spec.CandidateCorrect
import Undelete.Spec.FatExtentsCorrect
import Undelete.Spec.PlanCorrect

/-!
# Planning what a scan found

A FAT scan emits only files that can be planned. An NTFS scan emits a file that cannot be
planned exactly when its main stream is resident and is empty, or is addressed outside the
source (`planCandidate_scanned`).
-/

namespace Undelete.Ntfs

open Except IntervalLike
open Restore (Admits Readable planCandidate_admits planCandidate_resident planCandidate)
open U64 (wrappingAdd)

variable {reader : SourceReader} {plan : ScanPlan} {st : MftState} {entry : ParsedEntry}

/-- If the main fragment is resident, its value is not empty, and the address it gets from
    the base record lies inside the source. -/
def ResidentAddressable (reader : SourceReader) (plan : ScanPlan) (recordNo : Nat)
    (record : FileRecord) (exts : List Nat) : Prop :=
  ∀ a, mainFragment reader plan record exts = some a → a.flags &&& attrFlagCompressed = 0 →
    ∀ value off, a.body = .resident value off →
    value ≠ [] ∧ wrappingAdd (recordOffset plan recordNo) off + value.length ≤ reader.len

/-- The extents of a non-resident stream lie inside the source. -/
theorem streamExtents_readable {main : DataStream} {recordPhysOffset dataSize initializedSize : Nat}
    {runs : List RunElement} (hok : PlanOk reader plan)
    (hfit : RunsFit plan.boot.totalClusters runs)
    (hflags : main.flags &&& attrFlagCompressed = 0)
    (hkind : main.kind = .nonResident dataSize initializedSize runs) :
    ∃ extents bound, streamExtents main recordPhysOffset plan.boot plan.allocation =
        (dataSize, extents) ∧ Ascending extents 0 bound ∧ bound ≤ dataSize ∧ bound < 2 ^ 64 ∧
      ∀ e ∈ extents, Readable reader.len e := by
  obtain ⟨extents, heq, htiles, hrenders⟩ := @streamExtents_nonResident main plan.boot
    plan.allocation recordPhysOffset dataSize initializedSize runs hok.valid hfit hflags hkind
  have htotal : totalRunClusters runs * plan.boot.clusterSize ≤
      plan.boot.totalClusters * plan.boot.clusterSize := Nat.mul_le_mul_right _ hfit.total_le
  have hvolume := hok.valid.volume_lt
  refine ⟨extents, _, heq, htiles.ascending, Nat.min_le_left _ _, by omega, ?_⟩
  intro e he _ p hp
  obtain ⟨_, hlen, _⟩ := htiles.ascending.bounds he
  -- the last byte of the extent has a place in the volume
  have hplace := hrenders e he (e.logicalOffset + (e.len - 1))
    ⟨Nat.le_add_right _ _, by simp only [stop, start, len] at hlen ⊢; omega⟩
  simp only [hp, Option.map_some, streamPlace, placeOf] at hplace
  split at hplace
  · cases hplace
  · next q hq =>
    obtain ⟨hpq, _⟩ := Prod.mk.inj hplace
    have hlt : q < plan.boot.totalClusters * plan.boot.clusterSize := by
      split at hq
      · exact hfit.runOffset_lt hq
      · cases hq
    have hinside := hok.volume_le
    simp only [Option.some.injEq, len] at hpq hlen
    omega

/-- The planner accepts a file of an NTFS scan exactly when its resident main stream, if it
    has one, can be addressed. -/
theorem FileCandidate.admits_iff {c : Candidate} {bytes : Bytes} {record : FileRecord}
    {exts : List Nat} (hok : PlanOk reader plan) (hkind : c.kind = .file)
    (hc : FileCandidate plan st c entry)
    (hentry : EntryOf reader plan c.recordRef entry bytes record exts) :
    Admits c reader.len ↔ ResidentAddressable reader plan c.recordRef record exts := by
  have hcontent := hc.content
  simp only [entryContent] at hcontent
  have hempty : c.extents = [] → Admits c reader.len := fun hextents =>
    @planCandidate_admits c reader.len 0 hkind reader.len_lt (by rw [hextents]; exact Nat.le_refl _)
      (Nat.zero_le _) (by decide) (by rw [hextents]; simp)
  cases hmain : mainStream entry with
  | none =>
    rw [hmain] at hcontent
    refine iff_of_true (hempty (Prod.mk.inj hcontent).2) fun a hfragment _ value off hbody => ?_
    rw [hentry.mainStream_eq, hfragment] at hmain
    simp [dataStreamOf, hbody, Except.toOption] at hmain
  | some main =>
    obtain ⟨a, hfragment, hstream⟩ := hentry.mainStream_eq_some.mp hmain
    obtain ⟨_, hflags⟩ := dataStreamOf_name hstream
    simp only [hmain] at hcontent
    simp only [ResidentAddressable, hfragment, Option.some.injEq, forall_eq', ← hflags]
    by_cases hcompressed : main.flags &&& attrFlagCompressed = 0
    · cases hkindMain : main.kind with
      | nonResident dataSize initializedSize runs =>
        obtain ⟨extents, bound, heq, hascending, hle, hlt, hreadable⟩ := @streamExtents_readable
          reader plan main entry.recordPhysOffset dataSize initializedSize runs hok
          (dataStreamOf_fit hstream hkindMain) hcompressed hkindMain
        rw [heq] at hcontent
        obtain ⟨hsize, rfl⟩ := Prod.mk.inj hcontent
        obtain ⟨_, _, _, hnonResident, _⟩ := dataStreamOf_nonResident hstream hkindMain
        refine iff_of_true (planCandidate_admits hkind reader.len_lt hascending
          (by omega) hlt hreadable) fun _ value off hbody => ?_
        rw [hnonResident] at hbody
        cases hbody
      | resident off n =>
        obtain ⟨value, hbody, rfl⟩ := dataStreamOf_resident hstream hkindMain
        have hsmall := resident_lt (mainFragment_some hfragment).1 hbody
        simp only [streamExtents, hcompressed, hkindMain, ne_eq, not_true_eq_false, if_false,
          hentry.recordPhysOffset_eq, Prod.mk.injEq] at hcontent
        obtain ⟨hsize, hextents⟩ := hcontent
        rw [planCandidate_resident hkind reader.len_lt (by omega) (by rw [hextents, hsize]), hsize,
          List.length_pos_iff]
        simp [hbody, hcompressed]
    · refine iff_of_true (hempty ?_) fun hplain => absurd hplain hcompressed
      simp only [streamExtents, hcompressed, ne_eq, not_false_eq_true, if_true] at hcontent
      split at hcontent <;> exact (Prod.mk.inj hcontent).2

/-- Every file a FAT scan emits can be planned. A file an NTFS scan emits can be planned
    exactly when its main fragment is not an empty resident value, nor one whose address
    lies outside the source. -/
theorem planCandidate_scanned (reader : SourceReader) :
    (∀ out, Fat.scanFat reader = .ok out →
      ∀ c ∈ out.candidates, c.kind = .file → Admits c reader.len) ∧
    (∀ plan st out, planScan reader = .ok plan → scanRecords reader plan = .ok st →
      scanNtfs reader = .ok out →
      ∀ c ∈ out.candidates, c.kind = .file → ∃ entry bytes record exts,
        FileCandidate plan st c entry ∧
        EntryOf reader plan c.recordRef entry bytes record exts ∧
        (Admits c reader.len ↔ ResidentAddressable reader plan c.recordRef record exts)) := by
  constructor
  · intro out hout c hc hkind
    exact Fat.scanFat_admits hout hc hkind
  · intro plan st out hplan hscan hout c hc hkind
    obtain ⟨entry, hfile⟩ := scanNtfs_file hout hplan hscan hc hkind
    obtain ⟨bytes, record, exts, hentry⟩ := scanRecords_entryOf hplan hscan hfile.entry_get
    exact ⟨entry, bytes, record, exts, hfile, hentry,
      hfile.admits_iff (planScan_ok hplan) hkind hentry⟩

/-- A FAT12 volume of 16 sectors, in whose root directory a file of 700 bytes was deleted. -/
def notesVolume : FaultySource :=
  memImageReader (patched [
    (11, [0x00, 0x02, 0x01, 0x01, 0x00, 0x01, 0x10, 0x00, 0x10, 0x00, 0xF8, 0x01, 0x00]),
    (510, [0x55, 0xAA]), (512, [0xF8, 0xFF, 0xFF]),
    (1024, [0xE5, 0x4F, 0x54, 0x45, 0x53, 0x20, 0x20, 0x20, 0x54, 0x58, 0x54, 0x20]),
    (1050, [0x02, 0x00, 0xBC, 0x02])]) 8192 (by decide)

/-- The scan finds the file, and it can be planned. -/
example : (Fat.scanFat notesVolume.toSourceReader).map (fun out => out.candidates.map fun c =>
    (c.kind, c.name, c.extents, (planCandidate c 8192 none .completeOnly {}).isOk)) =
    .ok [(.file, "_OTES.TXT", [⟨0, some 1536, 700, .freeInSnapshot⟩], true)] := by
  decide +kernel

/-- Record 16 is a deleted file `a` whose unnamed `$DATA` has an empty resident value. -/
def emptyFileVolume : FaultySource :=
  smallVolume [0x11, 0x11, 0x04]
    [(16, encodeRecord 0 0 [encodeFileName 5 [0x61], encodeResident attrData []])]

/-- The empty file is reported with one empty extent, which the planner rejects. -/
theorem emptyFileVolume_zeroLengthExtent :
    ∃ out, scanNtfs emptyFileVolume.toSourceReader = .ok out ∧
      ∃ c ∈ out.candidates, c.kind = .file ∧
        planCandidate c emptyFileVolume.len none .zeroFillAndMap {} =
          .error (.zeroLengthExtent 0) := by
  have hrun : (scanNtfs emptyFileVolume.toSourceReader).toOption.any (fun out =>
      out.candidates.any fun c => c.kind = .file &&
        planCandidate c emptyFileVolume.len none .zeroFillAndMap {} =
          .error (.zeroLengthExtent 0)) = true := by
    decide +kernel
  obtain ⟨out, hout, hany⟩ := (Option.any_eq_true _ _).mp hrun
  obtain ⟨c, hc, hplan⟩ := List.any_eq_true.mp hany
  simp only [Bool.and_eq_true, decide_eq_true_eq] at hplan
  exact ⟨out, toOption_eq_some.mp hout, c, hc, hplan⟩

end Undelete.Ntfs
