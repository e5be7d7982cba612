import Undelete.Spec.StateCorrect

/-!
# Fragments of a stream

A non-resident `$DATA` stream may be split into fragments, each with its own starting VCN.
The scanner takes the first usable unnamed fragment for the whole stream, so a file is
mapped correctly when that fragment starts at VCN 0 (`fragmentsMapped_iff`).
-/

namespace Undelete.Ntfs

open Except IntervalLike

/-- The physical offset a fragment that starts at `startingVcn` gives to byte `i` of its
    stream; `none` outside the fragment and in its sparse runs. -/
def fragmentOffset (clusterSize startingVcn : Nat) (runs : List RunElement) (i : Nat) :
    Option Nat :=
  if i < startingVcn * clusterSize then none
  else runOffset clusterSize runs (i - startingVcn * clusterSize)

theorem fragmentOffset_zero (clusterSize : Nat) (runs : List RunElement) (i : Nat) :
    fragmentOffset clusterSize 0 runs i = runOffset clusterSize runs i := by
  simp [fragmentOffset]

/-- If a fragment behind VCN 0 agrees with its own runs read from VCN 0 on, it maps nothing:
    its first mapped byte would have to be one it already mapped before. -/
theorem runOffset_eq_none_of_shifted {clusterSize startingVcn bound : Nat} {runs : List RunElement}
    (hpos : 0 < startingVcn * clusterSize)
    (h : ∀ i < bound, ∀ p, runOffset clusterSize runs i = some p →
      fragmentOffset clusterSize startingVcn runs i = some p) :
    ∀ i < bound, runOffset clusterSize runs i = none := by
  intro i
  induction i using Nat.strongRecOn with
  | _ i ih =>
    intro hi
    cases hoffset : runOffset clusterSize runs i with
    | none => rfl
    | some p =>
      have hshifted := h i hi p hoffset
      simp only [fragmentOffset] at hshifted
      split at hshifted
      · cases hshifted
      · rw [ih (i - startingVcn * clusterSize) (by omega) (by omega)] at hshifted
        cases hshifted

/-- An unnamed fragment that starts at VCN 0 declares `size` bytes. -/
def DeclaredAtZero (reader : SourceReader) (plan : ScanPlan) (recordNo size : Nat) : Prop :=
  ∃ h a initializedSize allocatedSize runlist, UnnamedData reader plan recordNo h ∧
    h.parsed = some a ∧ a.body = .nonResident 0 size initializedSize allocatedSize runlist

/-- The file is mapped by its fragments: the fragment a byte is mapped through covers the
    byte and places it there, and the size is the one declared at VCN 0. -/
structure FragmentsMapped (reader : SourceReader) (plan : ScanPlan) (c : Candidate)
    (record : FileRecord) (exts : List Nat) : Prop where
  mapped : ∀ e ∈ c.extents, ∀ i, Covers e i → ∀ p, e.physicalOffset = some p →
    ∃ a startingVcn dataSize initializedSize allocatedSize runlist runs,
      mainFragment reader plan record exts = some a ∧
      a.body = .nonResident startingVcn dataSize initializedSize allocatedSize runlist ∧
      decodeRunlist runlist plan.boot.totalClusters = .ok runs ∧
      fragmentOffset plan.boot.clusterSize startingVcn runs i = some (p + (i - e.logicalOffset))
  size : DeclaredAtZero reader plan c.recordRef c.size

/-- The main fragment maps no byte of the file to the volume. -/
def MapsNothing (reader : SourceReader) (plan : ScanPlan) (record : FileRecord)
    (exts : List Nat) : Prop :=
  ∀ a startingVcn dataSize initializedSize allocatedSize runlist runs,
    mainFragment reader plan record exts = some a → a.flags &&& attrFlagCompressed = 0 →
    a.body = .nonResident startingVcn dataSize initializedSize allocatedSize runlist →
    decodeRunlist runlist plan.boot.totalClusters = .ok runs →
    ∀ i < min dataSize initializedSize, runOffset plan.boot.clusterSize runs i = none

/-- The main fragment starts at VCN 0. -/
def StartsAtZero (reader : SourceReader) (plan : ScanPlan) (record : FileRecord)
    (exts : List Nat) : Prop :=
  ∃ a dataSize initializedSize allocatedSize runlist,
    mainFragment reader plan record exts = some a ∧
    a.body = .nonResident 0 dataSize initializedSize allocatedSize runlist

variable {reader : SourceReader} {plan : ScanPlan} {st : MftState} {entry : ParsedEntry}
  {c : Candidate} {bytes : Bytes} {record : FileRecord} {exts : List Nat}

/-- The extents of an uncompressed main fragment map exactly what its runs map of the
    initialized data. -/
theorem streamExtents_mapped {a : Attribute} {main : DataStream} {recordPhysOffset : Nat}
    {startingVcn dataSize initializedSize allocatedSize : Nat} {runlist : Bytes}
    {runs : List RunElement} {size : Nat} {extents : List ExtentRun} (hok : PlanOk reader plan)
    (hstream : dataStreamOf a plan.boot.totalClusters = .ok main)
    (hbody : a.body = .nonResident startingVcn dataSize initializedSize allocatedSize runlist)
    (hruns : decodeRunlist runlist plan.boot.totalClusters = .ok runs)
    (hflags : a.flags &&& attrFlagCompressed = 0)
    (hcontent : (size, extents) = streamExtents main recordPhysOffset plan.boot plan.allocation)
    (i q : Nat) :
    (∃ e ∈ extents, Covers e i ∧ e.physicalOffset.map (· + (i - e.logicalOffset)) = some q) ↔
      i < min dataSize initializedSize ∧ runOffset plan.boot.clusterSize runs i = some q := by
  have hkind : main.kind = .nonResident dataSize initializedSize runs := by
    simp only [dataStreamOf, hbody, hruns] at hstream
    cases hstream
    rfl
  rw [← (dataStreamOf_name hstream).2] at hflags
  obtain ⟨extents', heq, htiles, hrenders⟩ := @streamExtents_nonResident main plan.boot
    plan.allocation recordPhysOffset dataSize initializedSize runs hok.valid
    (decodeRunlist_fit hruns) hflags hkind
  rw [heq] at hcontent
  obtain ⟨rfl, rfl⟩ := Prod.mk.inj hcontent
  -- a covered byte is at `q` when its runs place it there and it is initialized
  have hplace : ∀ e ∈ extents, Covers e i →
      (e.physicalOffset.map (· + (i - e.logicalOffset)) = some q ↔
        i < initializedSize ∧ runOffset plan.boot.clusterSize runs i = some q) := by
    intro e he hi
    rw [(Prod.mk.inj (hrenders e he i hi)).1]
    by_cases hinit : i < initializedSize
    · simp only [hinit, if_true, true_and]
      cases runOffset plan.boot.clusterSize runs i <;> simp
    · simp [hinit]
  constructor
  · rintro ⟨e, he, hi, hq⟩
    obtain ⟨hinit, hoffset⟩ := (hplace e he hi).mp hq
    obtain ⟨_, hlt⟩ := htiles.coveredBy_iff.mp ⟨e, he, hi⟩
    exact ⟨by omega, hoffset⟩
  · rintro ⟨hlt, hoffset⟩
    have hinside : i < totalRunClusters runs * plan.boot.clusterSize := by
      by_contra hbeyond
      rw [runOffset_eq_none (Nat.le_of_not_lt hbeyond)] at hoffset
      cases hoffset
    obtain ⟨e, he, hi⟩ := htiles.coveredBy_iff.mpr (show 0 ≤ i ∧ i < _ by omega)
    exact ⟨e, he, hi, (hplace e he hi).mpr ⟨by omega, hoffset⟩⟩

theorem streamExtents_compressed {main : DataStream} {recordPhysOffset : Nat} {boot : NtfsBoot}
    {allocation : Option AllocationMap} (hflags : main.flags &&& attrFlagCompressed ≠ 0) :
    (streamExtents main recordPhysOffset boot allocation).2 = [] := by
  simp only [streamExtents, hflags, ne_eq, not_false_eq_true, if_true]
  split <;> rfl

/-- A file whose unnamed `$DATA` attributes are non-resident is mapped by its fragments
    exactly when its main fragment starts at VCN 0, or maps nothing and declares the size
    that the fragment at VCN 0 declares. -/
theorem fragmentsMapped_iff (src : FaultySource) (plan : ScanPlan) (st : MftState)
    (out : NtfsScanOutput) (c : Candidate) (hplan : planScan src.toSourceReader = .ok plan)
    (hscan : scanRecords src.toSourceReader plan = .ok st)
    (hout : scanNtfs src.toSourceReader = .ok out) (hc : c ∈ out.candidates)
    (hkind : c.kind = .file)
    (hnonResident : ∀ h a, UnnamedData src.toSourceReader plan c.recordRef h →
      h.parsed = some a → ∀ value off, a.body ≠ .resident value off) :
    ∃ entry bytes record exts, FileCandidate plan st c entry ∧
      EntryOf src.toSourceReader plan c.recordRef entry bytes record exts ∧
      (FragmentsMapped src.toSourceReader plan c record exts ↔
        StartsAtZero src.toSourceReader plan record exts ∨
        MapsNothing src.toSourceReader plan record exts ∧
          DeclaredAtZero src.toSourceReader plan c.recordRef
            ((mainFragment src.toSourceReader plan record exts).elim 0 (·.body.dataSize))) := by
  have hok := planScan_ok hplan
  obtain ⟨entry, hfile⟩ := scanNtfs_file hout hplan hscan hc hkind
  obtain ⟨bytes, record, exts, hentry⟩ := scanRecords_entryOf hplan hscan hfile.entry_get
  refine ⟨entry, bytes, record, exts, hfile, hentry, ?_⟩
  rcases hfile.content_cases hentry with
    ⟨hnone, hsize, hextents⟩ | ⟨a, main, hfragment, hstream, hsize, hcontent⟩
  · -- without a main fragment nothing is mapped
    rw [hnone, Option.elim_none]
    constructor
    · intro h
      refine .inr ⟨fun a _ _ _ _ _ _ ha => ?_, by rw [← hsize]; exact h.size⟩
      rw [hnone] at ha
      cases ha
    · rintro (⟨a, _, _, _, _, ha, _⟩ | ⟨_, hdeclared⟩)
      · rw [hnone] at ha; cases ha
      · exact ⟨by rw [hextents]; simp, by rw [hsize]; exact hdeclared⟩
  · have hunnamed := mainFragment_unnamedData hok hentry hfragment
    -- the main fragment is non-resident, with a run list the volume accepts
    obtain ⟨vcn, dataSize, initializedSize, allocatedSize, runlist, runs, hbody, hruns⟩ :
        ∃ vcn dataSize initializedSize allocatedSize runlist runs,
          a.body = .nonResident vcn dataSize initializedSize allocatedSize runlist ∧
          decodeRunlist runlist plan.boot.totalClusters = .ok runs := by
      cases hkindMain : main.kind with
      | resident off n =>
        obtain ⟨value, hbody, _⟩ := dataStreamOf_resident hstream hkindMain
        exact absurd hbody (hnonResident _ a hunnamed rfl value off)
      | nonResident dataSize initializedSize runs =>
        obtain ⟨vcn, allocatedSize, runlist, hbody, hruns⟩ :=
          dataStreamOf_nonResident hstream hkindMain
        exact ⟨vcn, _, _, allocatedSize, runlist, runs, hbody, hruns⟩
    have hdeclared : c.size = dataSize := by rw [hsize, hbody]; rfl
    have hmapped := fun hflags => streamExtents_mapped hok hstream hbody hruns hflags hcontent
    have hnothing : a.flags &&& attrFlagCompressed ≠ 0 → c.extents = [] := by
      intro hflags
      rw [← (dataStreamOf_name hstream).2] at hflags
      exact (Prod.mk.inj hcontent).2.trans (streamExtents_compressed hflags)
    rw [hfragment, Option.elim_some, ← hsize]
    constructor
    · intro h
      by_cases hvcn : vcn = 0
      · subst hvcn
        exact .inl ⟨a, _, _, _, _, hfragment, hbody⟩
      · refine .inr ⟨?_, h.size⟩
        intro a' _ _ _ _ _ _ ha' hflags hbody' hruns'
        rw [hfragment] at ha'
        cases ha'
        rw [hbody] at hbody'
        cases hbody'
        rw [hruns] at hruns'
        cases hruns'
        refine runOffset_eq_none_of_shifted
          (Nat.mul_pos (Nat.pos_of_ne_zero hvcn) hok.valid.clusterSize_pos) ?_
        intro i hi p hp
        obtain ⟨e, he, hcovers, hoffset⟩ := (hmapped hflags i p).mpr ⟨hi, hp⟩
        obtain ⟨q, hq, rfl⟩ := Option.map_eq_some_iff.mp hoffset
        obtain ⟨a', _, _, _, _, _, _, ha', hbody', hruns', hplaced⟩ :=
          h.mapped e he i hcovers q hq
        rw [hfragment] at ha'
        cases ha'
        rw [hbody] at hbody'
        cases hbody'
        rw [hruns] at hruns'
        cases hruns'
        exact hplaced
    · rintro (⟨a', _, _, _, _, ha', hbody'⟩ | ⟨hmaps, hdeclaredAtZero⟩)
      · rw [hfragment] at ha'
        cases ha'
        rw [hbody] at hbody'
        cases hbody'
        refine ⟨?_, ⟨_, a, _, _, _, hunnamed, rfl, by rw [hdeclared]; exact hbody⟩⟩
        intro e he i hi p hp
        refine ⟨a, _, _, _, _, _, runs, hfragment, hbody, hruns, ?_⟩
        rw [fragmentOffset_zero]
        by_cases hflags : a.flags &&& attrFlagCompressed = 0
        · exact ((hmapped hflags i _).mp ⟨e, he, hi, by rw [hp]; rfl⟩).2
        · rw [hnothing hflags] at he
          cases he
      · refine ⟨?_, hdeclaredAtZero⟩
        intro e he i hi p hp
        by_cases hflags : a.flags &&& attrFlagCompressed = 0
        · obtain ⟨hlt, hoffset⟩ := (hmapped hflags i _).mp ⟨e, he, hi, by rw [hp]; rfl⟩
          rw [hmaps a _ _ _ _ _ runs hfragment hflags hbody hruns i hlt] at hoffset
          cases hoffset
        · rw [hnothing hflags] at he
          cases he

/-! ## Fragments out of order -/

/-- An attribute list entry for an unnamed `$DATA` fragment in record `extNo`. -/
def encodeListEntry (startingVcn extNo : Nat) : Bytes :=
  leBytes 4 attrData ++ leBytes 4 32 ++ leBytes 8 startingVcn ++ leBytes 16 extNo

/-- Record 16 is a deleted file `a` of three clusters. Its fragment at VCN 2 lies in record
    10, the one at VCN 0 in record 11. -/
def reorderedVolume : FaultySource :=
  smallVolume [0x11, 0x11, 0x04] [
    (10, encodeRecord 0 16 [encodeNonResident 2 768 [0x11, 0x01, 0x28]]),
    (11, encodeRecord 0 16 [encodeNonResident 0 768 [0x11, 0x02, 0x1e]]),
    (16, encodeRecord 0 0 [encodeFileName 5 [0x61],
      encodeResident attrAttributeList (encodeListEntry 0 11 ++ encodeListEntry 2 10)])]

/-- The body is non-resident, and `p` holds of its starting VCN and run list. -/
def AttrBody.onRunlist (p : Nat → Bytes → Bool) : AttrBody → Bool
  | .resident .. => false
  | .nonResident startingVcn _ _ _ runlist => p startingVcn runlist

/-- What the volume shows: byte 0 is mapped to cluster 40, and every `$DATA` attribute is
    non-resident and places byte 0 elsewhere. -/
theorem reorderedVolume_file :
    ∃ plan st out c, planScan reorderedVolume.toSourceReader = .ok plan ∧
      scanRecords reorderedVolume.toSourceReader plan = .ok st ∧
      scanNtfs reorderedVolume.toSourceReader = .ok out ∧ c ∈ out.candidates ∧
      c.kind = .file ∧ c.extents.head? = some ⟨0, some 10240, 256, .unknown⟩ ∧
      ∀ h a, UnnamedData reorderedVolume.toSourceReader plan c.recordRef h → h.parsed = some a →
        (∀ value off, a.body ≠ .resident value off) ∧
        ∀ startingVcn dataSize initializedSize allocatedSize runlist runs,
          a.body = .nonResident startingVcn dataSize initializedSize allocatedSize runlist →
          decodeRunlist runlist plan.boot.totalClusters = .ok runs →
          fragmentOffset plan.boot.clusterSize startingVcn runs 0 ≠ some 10240 := by
  have hrun : (scanNtfs reorderedVolume.toSourceReader).toOption.any (fun out =>
      out.candidates.any fun c => c.kind = .file &&
        c.extents.head? = some ⟨0, some 10240, 256, .unknown⟩) = true := by
    decide +kernel
  have hattributes : (planScan reorderedVolume.toSourceReader).toOption.any (fun plan =>
      (List.range plan.recordCount).all fun n =>
        (mftRecord reorderedVolume.toSourceReader plan.boot plan.mft.runs n).all fun record =>
          (attributeHeaders record).all fun h => h.typeId ≠ attrData || h.parsed.all fun a =>
            a.body.onRunlist fun startingVcn runlist =>
              (decodeRunlist runlist plan.boot.totalClusters).toOption.all fun runs =>
                fragmentOffset plan.boot.clusterSize startingVcn runs 0 ≠ some 10240) = true := by
    decide +kernel
  obtain ⟨out, hout, hany⟩ := (Option.any_eq_true _ _).mp hrun
  obtain ⟨c, hc, hchecks⟩ := List.any_eq_true.mp hany
  simp only [Bool.and_eq_true, decide_eq_true_eq] at hchecks
  obtain ⟨plan, st, hplan, hscan, _⟩ := scanNtfs_ok (toOption_eq_some.mp hout)
  refine ⟨plan, st, out, c, hplan, hscan, toOption_eq_some.mp hout, hc, hchecks.1, hchecks.2, ?_⟩
  obtain ⟨plan', hplan', hall⟩ := (Option.any_eq_true _ _).mp hattributes
  obtain rfl : plan = plan' := ok.inj (hplan.symm.trans (toOption_eq_some.mp hplan'))
  rintro h a ⟨n, hlt, record, hrecord, _, hh, hdata, _⟩ ha
  have hcheck := List.all_eq_true.mp hall n (List.mem_range.mpr hlt)
  rw [hrecord, Option.all_some, List.all_eq_true] at hcheck
  have hcheck := hcheck h hh
  simp only [hdata, ne_eq, not_true_eq_false, decide_false, Bool.false_or, ha,
    Option.all_some] at hcheck
  constructor
  · intro value off hbody
    rw [hbody] at hcheck
    cases hcheck
  · intro startingVcn _ _ _ runlist runs hbody hruns
    rw [hbody] at hcheck
    simpa [AttrBody.onRunlist, hruns, Except.toOption] using hcheck

/-- Byte 0 of the file is mapped to a cluster at which none of its fragments places it. -/
theorem reorderedVolume_misplaced :
    ∃ plan out c, planScan reorderedVolume.toSourceReader = .ok plan ∧
      scanNtfs reorderedVolume.toSourceReader = .ok out ∧ c ∈ out.candidates ∧ c.kind = .file ∧
      (∃ e ∈ c.extents, Covers e 0 ∧
        e.physicalOffset.map (· + (0 - e.logicalOffset)) = some 10240) ∧
      ∀ h a startingVcn dataSize initializedSize allocatedSize runlist runs,
        UnnamedData reorderedVolume.toSourceReader plan c.recordRef h → h.parsed = some a →
        a.body = .nonResident startingVcn dataSize initializedSize allocatedSize runlist →
        decodeRunlist runlist plan.boot.totalClusters = .ok runs →
        fragmentOffset plan.boot.clusterSize startingVcn runs 0 ≠ some 10240 := by
  obtain ⟨plan, _, out, c, hplan, _, hout, hc, hkind, hhead, hfragments⟩ := reorderedVolume_file
  refine ⟨plan, out, c, hplan, hout, hc, hkind, ?_, ?_⟩
  · exact ⟨_, List.mem_of_head? hhead, ⟨by decide, by decide⟩, rfl⟩
  · intro h a startingVcn _ _ _ runlist runs hunnamed ha hbody hruns
    exact (hfragments h a hunnamed ha).2 startingVcn _ _ _ runlist runs hbody hruns

theorem fragmentsMapped_iff_reordered :
    ∃ plan c record exts, planScan reorderedVolume.toSourceReader = .ok plan ∧ c.kind = .file ∧
      (FragmentsMapped reorderedVolume.toSourceReader plan c record exts ↔
        StartsAtZero reorderedVolume.toSourceReader plan record exts ∨
        MapsNothing reorderedVolume.toSourceReader plan record exts ∧
          DeclaredAtZero reorderedVolume.toSourceReader plan c.recordRef
            ((mainFragment reorderedVolume.toSourceReader plan record exts).elim 0
              (·.body.dataSize))) := by
  obtain ⟨plan, st, out, c, hplan, hscan, hout, hc, hkind, _, hfragments⟩ := reorderedVolume_file
  obtain ⟨_, _, record, exts, _, _, hiff⟩ := fragmentsMapped_iff reorderedVolume plan st out c
    hplan hscan hout hc hkind fun h a hunnamed ha => (hfragments h a hunnamed ha).1
  exact ⟨plan, c, record, exts, hplan, hkind, hiff⟩

end Undelete.Ntfs
