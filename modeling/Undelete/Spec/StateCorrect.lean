import Undelete.Spec.CandidateCorrect

/-!
# Files reported as complete

`derive_state` looks at the size and the extents of a file. For a file with content the
verdict `completeUnvalidated` means what it says; a size of zero it does not question, so
a file whose unnamed `$DATA` was lost on the way is reported as complete and empty.

## Key results

- `deriveState_complete`: what the verdict establishes for a non-empty file.
- `completeUnvalidated_whole_iff`: when a file reported as complete is whole.
-/

namespace Undelete.Ntfs

open Except IntervalLike
open U64 (wrappingAdd)

/-! ## The verdict -/

/-- The byte count `derive_state` sums up. -/
theorem foldl_wrappingAdd_len {extents : List ExtentRun} {a b acc : Nat} (h : Tiles extents a b)
    (hlt : acc + (b - a) < 2 ^ 64) :
    (extents.map (·.len)).foldl wrappingAdd acc = acc + (b - a) := by
  induction extents generalizing a acc with
  | nil =>
    obtain rfl : a = b := h
    simp
  | cons e extents ih =>
    obtain ⟨hstart, _, hrest⟩ := h
    have hle := hrest.le
    simp only [stop, start, len] at hstart hrest hle
    rw [List.map_cons, List.foldl_cons, U64.wrappingAdd_of_lt (by omega), ih hrest (by omega)]
    omega

/-- A file with content is complete when its extents add up to its size and none of them
    is allocated. -/
theorem deriveState_complete {size : Nat} {extents : List ExtentRun} (hsize : size ≠ 0)
    (h : deriveState .file size extents = .completeUnvalidated) :
    extents ≠ [] ∧ (∀ e ∈ extents, e.availability ≠ .currentlyAllocated) ∧
      size ≤ (extents.map (·.len)).foldl wrappingAdd 0 := by
  simp only [deriveState, reduceCtorEq, if_false, if_neg hsize] at h
  split at h
  · cases h
  · next hne =>
    split at h
    · cases h
    · split at h
      · cases h
      · next hconflict =>
        split at h
        · cases h
        · next hcovered =>
          simp only [List.any_eq_true, decide_eq_true_eq, not_exists, not_and] at hconflict
          refine ⟨?_, hconflict, Nat.le_of_not_lt hcovered⟩
          rintro rfl
          exact hne rfl

/-! ## Whole files -/

/-- `h` heads an unnamed `$DATA` attribute in the base record `recordNo` or in an extension
    record that refers to it. -/
def UnnamedData (reader : SourceReader) (plan : ScanPlan) (recordNo : Nat)
    (h : AttributeHeader) : Prop :=
  ∃ n < plan.recordCount, ∃ record,
    mftRecord reader plan.boot plan.mft.runs n = some record ∧
    (n = recordNo ∨ record.baseRecord = recordNo) ∧ h ∈ attributeHeaders record ∧
    h.typeId = attrData ∧ h.name = none

/-- The candidate shows all of its file: its size is declared by an unnamed `$DATA`
    attribute of the records of the file, its extents cover it and none is allocated, and
    a size of zero does not come from an attribute that was lost. -/
structure WholeFile (reader : SourceReader) (plan : ScanPlan) (c : Candidate) : Prop where
  declared : ∃ h, UnnamedData reader plan c.recordRef h ∧ h.dataSize = some c.size
  covered : ∀ i < c.size, CoveredBy c.extents i
  unallocated : ∀ e ∈ c.extents, e.availability ≠ .currentlyAllocated
  notLost : c.size = 0 →
    ∀ h, UnnamedData reader plan c.recordRef h → h.usable plan.boot.totalClusters = true

variable {plan : ScanPlan} {st : MftState} {entry : ParsedEntry} {c : Candidate}

/-- The main fragment of a file is an unnamed `$DATA` attribute of its records. -/
theorem mainFragment_unnamedData {src : FaultySource} {recordNo : Nat} {bytes : Bytes}
    {record : FileRecord} {exts : List Nat} (hok : PlanOk src.toSourceReader plan)
    (hentry : EntryOf src.toSourceReader plan recordNo entry bytes record exts) {a : Attribute}
    (ha : mainFragment src.toSourceReader plan record exts = some a) :
    UnnamedData src.toSourceReader plan recordNo ⟨a.typeId, a.name, some a⟩ := by
  obtain ⟨hmem, hdata, hname, _⟩ := mainFragment_some ha
  rcases mem_entryAttributes hmem with hmem | ⟨extNo, hext, record', hrecord, hmem⟩
  · exact ⟨recordNo, hentry.lt, record, hentry.mftRecord_eq hok, .inl rfl,
      iterAttributes_header hmem, hdata, hname⟩
  · obtain ⟨hlt, record'', hrecord', hbase⟩ := hentry.extension_eq hok hext
    rw [hrecord] at hrecord'
    cases hrecord'
    exact ⟨extNo, hlt, record', hrecord, .inr hbase, iterAttributes_header hmem, hdata, hname⟩

/-- The size of a candidate is the one its main stream declares. -/
theorem streamExtents_size (main : DataStream) (recordPhysOffset : Nat) (boot : NtfsBoot)
    (allocation : Option AllocationMap) :
    (streamExtents main recordPhysOffset boot allocation).1 = main.kind.dataSize := by
  simp only [streamExtents]
  split <;> split <;> next hkind => rw [hkind]; rfl

/-- The extents of a stream without content do not conflict with the bitmap. -/
theorem streamExtents_empty {main : DataStream} {recordPhysOffset : Nat} {boot : NtfsBoot}
    {allocation : Option AllocationMap} (hsize : main.kind.dataSize = 0) :
    ∀ e ∈ (streamExtents main recordPhysOffset boot allocation).2,
      e.availability ≠ .currentlyAllocated := by
  simp only [streamExtents]
  split
  · split <;> simp
  · split
    · simp
    · next dataSize initializedSize runs hkind =>
      obtain rfl : dataSize = 0 := by rw [hkind] at hsize; exact hsize
      cases runs <;> simp [runExtents, splitAtInitializedSize]

/-- The extents of a file with content that add up to its size cover it. -/
theorem streamExtents_covered {reader : SourceReader} {main : DataStream} {recordPhysOffset : Nat}
    {a : Attribute} (hok : PlanOk reader plan)
    (hstream : dataStreamOf a plan.boot.totalClusters = .ok main) {size : Nat}
    {extents : List ExtentRun}
    (hcontent : (size, extents) = streamExtents main recordPhysOffset plan.boot plan.allocation)
    (hne : extents ≠ []) (hle : size ≤ (extents.map (·.len)).foldl wrappingAdd 0) :
    ∀ i < size, CoveredBy extents i := by
  by_cases hflags : main.flags &&& attrFlagCompressed = 0
  · cases hkind : main.kind with
    | resident off n =>
      simp only [streamExtents, hflags, hkind, ne_eq, not_true_eq_false, if_false] at hcontent
      obtain ⟨rfl, rfl⟩ := Prod.mk.inj hcontent
      intro i hi
      exact (coveredBy_cons ..).mpr (.inl ⟨Nat.zero_le _, by simp only [stop, start, len]; omega⟩)
    | nonResident dataSize initializedSize runs =>
      have hfit := dataStreamOf_fit hstream hkind
      obtain ⟨extents', heq, htiles, _⟩ := @streamExtents_nonResident main plan.boot
        plan.allocation recordPhysOffset dataSize initializedSize runs hok.valid hfit hflags hkind
      rw [heq] at hcontent
      obtain ⟨rfl, rfl⟩ := Prod.mk.inj hcontent
      have htotal : totalRunClusters runs * plan.boot.clusterSize ≤
          plan.boot.totalClusters * plan.boot.clusterSize := Nat.mul_le_mul_right _ hfit.total_le
      have hvolume := hok.valid.volume_lt
      rw [foldl_wrappingAdd_len htiles (by omega)] at hle
      exact fun i hi => htiles.coveredBy_iff.mpr ⟨Nat.zero_le _, by omega⟩
  · simp only [streamExtents, hflags, ne_eq, not_false_eq_true, if_true] at hcontent
    split at hcontent <;> exact absurd (Prod.mk.inj hcontent).2 hne

/-- What a candidate reports comes from the main fragment of its file. -/
theorem FileCandidate.content_cases {reader : SourceReader} {bytes : Bytes} {record : FileRecord}
    {exts : List Nat} (hfile : FileCandidate plan st c entry)
    (hentry : EntryOf reader plan c.recordRef entry bytes record exts) :
    (mainFragment reader plan record exts = none ∧ c.size = 0 ∧ c.extents = []) ∨
    ∃ a main, mainFragment reader plan record exts = some a ∧
      dataStreamOf a plan.boot.totalClusters = .ok main ∧ c.size = a.body.dataSize ∧
      (c.size, c.extents) =
        streamExtents main entry.recordPhysOffset plan.boot plan.allocation := by
  have hcontent := hfile.content
  simp only [entryContent] at hcontent
  cases hmain : mainStream entry with
  | none =>
    rw [hmain] at hcontent
    obtain ⟨hsize, hextents⟩ := Prod.mk.inj hcontent
    refine .inl ⟨?_, hsize, hextents⟩
    cases hfragment : mainFragment reader plan record exts with
    | none => rfl
    | some a =>
      obtain ⟨_, _, _, s, hs⟩ := mainFragment_some hfragment
      rw [hentry.mainStream_eq_some.mpr ⟨a, hfragment, hs⟩] at hmain
      cases hmain
  | some main =>
    simp only [hmain] at hcontent
    obtain ⟨a, ha, hstream⟩ := hentry.mainStream_eq_some.mp hmain
    refine .inr ⟨a, main, ha, hstream, ?_, hcontent⟩
    have hsize := streamExtents_size main entry.recordPhysOffset plan.boot plan.allocation
    rw [← hcontent, dataStreamOf_dataSize hstream] at hsize
    exact hsize

/-- A file reported as complete is whole exactly when its main fragment declares at least
    one byte, or the file really is empty: one of its unnamed `$DATA` attributes declares
    no bytes, and all of them can be turned into streams. -/
theorem completeUnvalidated_whole_iff (src : FaultySource) (plan : ScanPlan) (st : MftState)
    (out : NtfsScanOutput) (c : Candidate) (hplan : planScan src.toSourceReader = .ok plan)
    (hscan : scanRecords src.toSourceReader plan = .ok st)
    (hout : scanNtfs src.toSourceReader = .ok out) (hc : c ∈ out.candidates)
    (hkind : c.kind = .file) (hstate : c.state = .completeUnvalidated) :
    ∃ entry bytes record exts, FileCandidate plan st c entry ∧
      EntryOf src.toSourceReader plan c.recordRef entry bytes record exts ∧
      (WholeFile src.toSourceReader plan c ↔
        (∃ a, mainFragment src.toSourceReader plan record exts = some a ∧ a.body.dataSize ≠ 0) ∨
        ((∃ h, UnnamedData src.toSourceReader plan c.recordRef h ∧ h.dataSize = some 0) ∧
          ∀ h, UnnamedData src.toSourceReader plan c.recordRef h →
            h.usable plan.boot.totalClusters = true)) := by
  have hok := planScan_ok hplan
  obtain ⟨entry, hfile⟩ := scanNtfs_file hout hplan hscan hc hkind
  obtain ⟨bytes, record, exts, hentry⟩ := scanRecords_entryOf hplan hscan hfile.entry_get
  refine ⟨entry, bytes, record, exts, hfile, hentry, ?_⟩
  have hcontent := hfile.content_cases hentry
  by_cases hsize : c.size = 0
  · -- an empty file has no extent that conflicts, whatever it was built from
    have hempty : ∀ e ∈ c.extents, e.availability ≠ .currentlyAllocated := by
      rcases hcontent with ⟨_, _, hextents⟩ | ⟨a, main, _, hstream, hdeclared, hcontent⟩
      · rw [hextents]; simp
      · have hnone := @streamExtents_empty main entry.recordPhysOffset plan.boot plan.allocation
          (by rw [dataStreamOf_dataSize hstream, ← hdeclared, hsize])
        rw [← hcontent] at hnone
        exact hnone
    constructor
    · intro hwhole
      obtain ⟨h, hunnamed, hdeclared⟩ := hwhole.declared
      exact .inr ⟨⟨h, hunnamed, by rw [hdeclared, hsize]⟩, hwhole.notLost hsize⟩
    · rintro (⟨a, ha, hne⟩ | ⟨⟨h, hunnamed, hdeclared⟩, husable⟩)
      · -- the main fragment declares the size of the candidate
        rcases hcontent with ⟨hnone, _⟩ | ⟨a', _, ha', _, hdeclared, _⟩
        · rw [hnone] at ha; cases ha
        · rw [ha] at ha'
          cases ha'
          exact absurd (hdeclared.symm.trans hsize) hne
      · exact ⟨⟨h, hunnamed, by rw [hdeclared, hsize]⟩, fun i hi => by omega, hempty,
          fun _ => husable⟩
  · rcases hcontent with ⟨_, hzero, _⟩ | ⟨a, main, ha, hstream, hdeclared, hcontent⟩
    · exact absurd hzero hsize
    · obtain ⟨hne, hunallocated, hle⟩ :=
        deriveState_complete hsize (hfile.state.symm.trans hstate)
      refine iff_of_true ?_ (.inl ⟨a, ha, by rw [← hdeclared]; exact hsize⟩)
      exact ⟨⟨_, mainFragment_unnamedData hok hentry ha, congrArg some hdeclared.symm⟩,
        streamExtents_covered hok hstream hcontent hne hle, hunallocated,
        fun hzero => absurd hzero hsize⟩

/-! ## A file whose run list is lost -/

/-- Record 16 is a deleted file `a` of 512 bytes whose run list starts with a run without
    clusters. -/
def lostRunlistVolume : FaultySource :=
  smallVolume [0x11, 0x11, 0x04] [(16, encodeRecord 0 0
    [encodeFileName 5 [0x61], encodeNonResident 0 512 [0x11, 0x00, 0x20]])]

theorem lostRunlistVolume_complete :
    ∃ plan st out c, planScan lostRunlistVolume.toSourceReader = .ok plan ∧
      scanRecords lostRunlistVolume.toSourceReader plan = .ok st ∧
      scanNtfs lostRunlistVolume.toSourceReader = .ok out ∧ c ∈ out.candidates ∧
      c.kind = .file ∧ c.state = .completeUnvalidated ∧ c.recordRef = 16 ∧ c.size = 0 := by
  have hrun : (scanNtfs lostRunlistVolume.toSourceReader).toOption.any (fun out =>
      out.candidates.any fun c => c.kind = .file && c.state = .completeUnvalidated &&
        c.recordRef = 16 && c.size = 0) = true := by
    decide +kernel
  obtain ⟨out, hout, hany⟩ := (Option.any_eq_true _ _).mp hrun
  obtain ⟨c, hc, hchecks⟩ := List.any_eq_true.mp hany
  simp only [Bool.and_eq_true, decide_eq_true_eq, and_assoc] at hchecks
  obtain ⟨plan, st, hplan, hscan, _⟩ := scanNtfs_ok (toOption_eq_some.mp hout)
  exact ⟨plan, st, out, c, hplan, hscan, toOption_eq_some.mp hout, hc, hchecks⟩

/-- The file is reported as complete and empty, although its record declares 512 bytes. -/
theorem lostRunlistVolume_notWhole :
    ∃ plan out c, planScan lostRunlistVolume.toSourceReader = .ok plan ∧
      scanNtfs lostRunlistVolume.toSourceReader = .ok out ∧ c ∈ out.candidates ∧
      c.kind = .file ∧ c.state = .completeUnvalidated ∧
      ¬WholeFile lostRunlistVolume.toSourceReader plan c := by
  obtain ⟨plan, st, out, c, hplan, _, hout, hc, hkind, hstate, hrecord, hsize⟩ :=
    lostRunlistVolume_complete
  refine ⟨plan, out, c, hplan, hout, hc, hkind, hstate, fun hwhole => ?_⟩
  have hlost : (planScan lostRunlistVolume.toSourceReader).toOption.any (fun plan =>
      16 < plan.recordCount &&
      (mftRecord lostRunlistVolume.toSourceReader plan.boot plan.mft.runs 16).any fun record =>
        (attributeHeaders record).any fun h => h.typeId = attrData && h.name = none &&
          !h.usable plan.boot.totalClusters) = true := by
    decide +kernel
  obtain ⟨plan', hplan', hlost⟩ := (Option.any_eq_true _ _).mp hlost
  obtain rfl : plan = plan' := ok.inj (hplan.symm.trans (toOption_eq_some.mp hplan'))
  simp only [Bool.and_eq_true, decide_eq_true_eq, Option.any_eq_true, List.any_eq_true,
    Bool.not_eq_true'] at hlost
  obtain ⟨hlt, record, hparsed, h, hh, ⟨hdata, hname⟩, hunusable⟩ := hlost
  have husable := hwhole.notLost hsize h ⟨16, hlt, record, hparsed, .inl hrecord.symm, hh, hdata,
    hname⟩
  rw [husable] at hunusable
  cases hunusable

theorem completeUnvalidated_whole_iff_lostRunlist :
    ∃ plan c record exts, planScan lostRunlistVolume.toSourceReader = .ok plan ∧
      c.state = .completeUnvalidated ∧
      (WholeFile lostRunlistVolume.toSourceReader plan c ↔
        (∃ a, mainFragment lostRunlistVolume.toSourceReader plan record exts = some a ∧
          a.body.dataSize ≠ 0) ∨
        ((∃ h, UnnamedData lostRunlistVolume.toSourceReader plan c.recordRef h ∧
            h.dataSize = some 0) ∧
          ∀ h, UnnamedData lostRunlistVolume.toSourceReader plan c.recordRef h →
            h.usable plan.boot.totalClusters = true)) := by
  obtain ⟨plan, st, out, c, hplan, hscan, hout, hc, hkind, hstate, _⟩ := lostRunlistVolume_complete
  obtain ⟨_, _, record, exts, _, _, hiff⟩ := completeUnvalidated_whole_iff lostRunlistVolume plan st
    out c hplan hscan hout hc hkind hstate
  exact ⟨plan, c, record, exts, hplan, hstate, hiff⟩

end Undelete.Ntfs
