import Undelete.Spec.AttrCorrect
import Undelete.Spec.MftPassCorrect

/-!
# What a scan knows before the MFT passes

`planScan` accepts a boot sector and the run list of record 0; `PlanOk` collects what
that establishes about the volume, the runs and the number of records.

## Key results

- `trustedPhysicalStreamPrefixLen_ok`: the trusted prefix is physically present.
- `planScan_ok`: a plan satisfies `PlanOk`.
- `mftPass_batchSize`: the MFT pass of a scan does not depend on the batch size.
-/

namespace Undelete.Ntfs

open Except

/-! ## The trusted prefix -/

theorem trustedPrefixFrom_ok {clusterSize sourceLen logicalLimit trustedLen : Nat}
    {runs : List RunElement} {trusted : TrustedStreamPrefix}
    (h : trustedPrefixFrom clusterSize sourceLen logicalLimit runs trustedLen = .ok trusted)
    (hle : trustedLen ≤ logicalLimit) :
    trusted.len ≤ logicalLimit ∧
    ∀ i, trustedLen + i < trusted.len →
      ∃ p, runOffset clusterSize runs i = some p ∧ p < sourceLen := by
  induction runs generalizing trustedLen with
  | nil =>
    cases h
    exact ⟨hle, fun i hi => absurd hi (Nat.not_lt.mpr (Nat.le_add_right _ _))⟩
  | cons run runs ih =>
    -- a run that is not trusted ends the prefix where it starts
    have hstop : ∀ i, ¬trustedLen + i < trustedLen := fun i => by omega
    simp only [trustedPrefixFrom] at h
    split at h
    · cases h
      exact ⟨hle, fun i hi => absurd hi (hstop i)⟩
    · next hmore =>
      simp only [bind_eq_ok, okOr_eq_ok] at h
      obtain ⟨runLen, hrun, h⟩ := h
      obtain ⟨_, rfl⟩ := U64.checkedMul_eq_some.mp hrun
      split at h
      · cases h
        exact ⟨hle, fun i hi => absurd hi (hstop i)⟩
      · next lcn hlcn =>
        simp only [bind_eq_ok, okOr_eq_ok] at h
        obtain ⟨physicalStart, hphys, physicalEnd, hend, h⟩ := h
        obtain ⟨_, rfl⟩ := U64.checkedMul_eq_some.mp hphys
        obtain ⟨_, rfl⟩ := U64.checkedAdd_eq_some.mp hend
        split at h
        · cases h
          exact ⟨hle, fun i hi => absurd hi (hstop i)⟩
        · next hinside =>
          simp only [bind_eq_ok, okOr_eq_ok] at h
          obtain ⟨next, hnext, h⟩ := h
          obtain ⟨_, rfl⟩ := U64.checkedAdd_eq_some.mp hnext
          obtain ⟨hlimit, hrest⟩ := ih h (by omega)
          refine ⟨hlimit, fun i hi => ?_⟩
          by_cases hrun : i < run.clusterCount * clusterSize
          · refine ⟨lcn * clusterSize + i, ?_, by omega⟩
            rw [runOffset, if_pos hrun, hlcn, Option.map_some]
          · obtain ⟨j, rfl⟩ : ∃ j, i = run.clusterCount * clusterSize + j :=
              ⟨i - run.clusterCount * clusterSize, by omega⟩
            rw [runOffset_cons_add]
            exact hrest j (by omega)

/-- The trusted prefix lies inside the declared stream, and every byte of it has a
    physical offset inside the source. -/
theorem trustedPhysicalStreamPrefixLen_ok {runs : List RunElement}
    {clusterSize sourceLen dataSize initializedSize : Nat} {trusted : TrustedStreamPrefix}
    (h : trustedPhysicalStreamPrefixLen runs clusterSize sourceLen dataSize initializedSize
      = .ok trusted) :
    trusted.len ≤ min dataSize initializedSize ∧
    ∀ i < trusted.len, ∃ p, runOffset clusterSize runs i = some p ∧ p < sourceLen := by
  simp only [trustedPhysicalStreamPrefixLen, throw_bind, ite_throw_eq_ok] at h
  obtain ⟨_, h⟩ := h
  obtain ⟨hle, hoffset⟩ := trustedPrefixFrom_ok h (Nat.zero_le _)
  exact ⟨hle, fun i hi => hoffset i (by omega)⟩

/-! ## The plan -/

theorem boundedMftRecordCount_ok {trustedLen recordSize recordCount : Nat}
    {warnings warnings' : List NtfsWarning}
    (h : boundedMftRecordCount trustedLen recordSize warnings = .ok (recordCount, warnings')) :
    recordCount * recordSize ≤ trustedLen := by
  simp only [boundedMftRecordCount, throw_bind, ite_throw_eq_ok] at h
  obtain ⟨_, h⟩ := h
  have hcount : recordCount = min (trustedLen / recordSize) maxMftRecords := by
    split at h <;> exact (Prod.mk.inj (pure_eq_ok.mp h)).1.symm
  rw [hcount]
  exact Nat.le_trans (Nat.mul_le_mul_right _ (Nat.min_le_left _ _)) (Nat.div_mul_le_self _ _)

/-- What the boot sector and record 0 establish. -/
theorem bootstrap_ok {reader : SourceReader} {boot : NtfsBoot} {mft : MftStream}
    {warnings : List NtfsWarning} (h : bootstrap reader = .ok (boot, mft, warnings)) :
    (∃ sector0, NtfsBoot.parse sector0 reader.len = .ok boot) ∧
    RunsFit boot.totalClusters mft.runs ∧ mft.dataSize % boot.fileRecordSize = 0 ∧
    firstUserRecord * boot.fileRecordSize ≤ mft.dataSize := by
  simp only [bootstrap, bind_eq_ok, okOr_eq_ok, throw_bind, ite_throw_eq_ok] at h
  obtain ⟨sector0, _, boot', hboot, _, _, _, _, record, _, _, h⟩ := h
  split at h
  · next dataSize initializedSize runs hmain =>
    simp only [bind_eq_ok, okOr_eq_ok, ite_throw_eq_ok, pure_eq_ok, Prod.mk.injEq] at h
    obtain ⟨haligned, minimum, hminimum, hle, rfl, rfl, _⟩ := h
    obtain ⟨_, rfl⟩ := U64.checkedMul_eq_some.mp hminimum
    obtain ⟨s, hs, hkind⟩ := Option.map_eq_some_iff.mp hmain
    exact ⟨⟨sector0, hboot⟩,
      extractDataStreams_fit s (List.mem_of_find?_eq_some hs) _ _ _ hkind,
      Decidable.not_not.mp haligned, Nat.le_of_not_lt hle⟩
  · cases h

/-- What a successful `planScan` establishes. -/
structure PlanOk (reader : SourceReader) (plan : ScanPlan) : Prop where
  valid : plan.boot.Valid
  volume_le : plan.boot.totalClusters * plan.boot.clusterSize ≤ reader.len
  recordSize_pos : 0 < plan.boot.fileRecordSize
  sector_le : 256 ≤ plan.boot.bytesPerSector
  runs_fit : RunsFit plan.boot.totalClusters plan.mft.runs
  recordCount_lt : plan.recordCount * plan.boot.fileRecordSize < 2 ^ 64
  recordCount_le : plan.recordCount * plan.boot.fileRecordSize ≤ plan.trustedLen
  trusted : ∀ i < plan.trustedLen,
    ∃ p, runOffset plan.boot.clusterSize plan.mft.runs i = some p ∧ p < reader.len
  allocation : plan.allocation =
    (loadAllocationMap reader plan.boot plan.mft.runs plan.trustedLen).1
  complete : plan.isComplete = true →
    plan.recordCount * plan.boot.fileRecordSize = plan.mft.dataSize

theorem planScan_ok {reader : SourceReader} {plan : ScanPlan} (h : planScan reader = .ok plan) :
    PlanOk reader plan := by
  simp only [planScan, bind_eq_ok, okOr_eq_ok, pure_eq_ok, Prod.exists] at h
  obtain ⟨boot, mft, warnings, hboot, trusted, htrusted, recordCount, warnings', hcount, _, _,
    bytes, hbytes, rfl⟩ := h
  obtain ⟨⟨sector0, hparse⟩, hfit, haligned, _⟩ := bootstrap_ok hboot
  obtain ⟨hvalid, hvolume, hrecord, hsector⟩ := NtfsBoot.parse_valid hparse
  obtain ⟨hle, hoffset⟩ := trustedPhysicalStreamPrefixLen_ok htrusted
  have hbound := boundedMftRecordCount_ok hcount
  refine
    { valid := hvalid
      volume_le := hvolume
      recordSize_pos := hrecord
      sector_le := hsector
      runs_fit := hfit
      recordCount_lt := (U64.checkedMul_eq_some.mp hbytes).1
      recordCount_le := hbound
      trusted := hoffset
      allocation := rfl
      complete := ?_ }
  intro hcomplete
  simp only [Bool.and_eq_true, decide_eq_true_eq, Bool.not_eq_true', decide_eq_false_iff_not,
    Nat.not_lt] at hcomplete
  have hall : trusted.len = mft.dataSize := by omega
  have hdiv := Nat.div_mul_cancel (Nat.dvd_of_mod_eq_zero haligned)
  have hfull : mft.dataSize / boot.fileRecordSize * boot.fileRecordSize ≤
      recordCount * boot.fileRecordSize := by
    rw [← hall]; exact Nat.mul_le_mul_right _ hcomplete.2
  simp only
  omega

/-- The result of the MFT pass of a scan does not depend on the batch size: reading in
    batches, skipping blank ones and falling back to single records gives what reading
    and processing every record alone gives. -/
theorem mftPass_batchSize (src : FaultySource) (plan : ScanPlan) (recordsPerBatch : Nat)
    (st : MftState) (hplan : planScan src.toSourceReader = .ok plan)
    (hbatch : 1 ≤ recordsPerBatch) :
    mftPass src.toSourceReader plan.boot plan.mft.runs plan.recordCount recordsPerBatch st =
      .ok (recordwisePass src.toSourceReader plan.boot plan.mft.runs plan.recordCount st) := by
  have hok := planScan_ok hplan
  exact mftPass_eq_recordwisePass hok.valid hok.runs_fit hok.recordSize_pos hok.recordCount_lt
    hbatch st

/-! ## A small volume -/

/-- The `count` low bytes of `n`, little-endian. -/
def leBytes (count n : Nat) : Bytes := (List.range count).map fun i => UInt8.ofNat (n / 256 ^ i)

/-- An attribute, given what follows its length field. -/
def encodeAttribute (typeId : Nat) (rest : Bytes) : Bytes :=
  let rest := rest ++ List.replicate ((8 - rest.length % 8) % 8) 0
  leBytes 4 typeId ++ leBytes 4 (8 + rest.length) ++ rest

def encodeResident (typeId : Nat) (value : Bytes) : Bytes :=
  encodeAttribute typeId
    (leBytes 8 0x180000 ++ leBytes 4 value.length ++ leBytes 4 0x18 ++ value)

/-- A `$FILE_NAME` in the Win32 namespace with an ASCII name. -/
def encodeFileName (parentReference : Nat) (name : Bytes) : Bytes :=
  encodeResident attrFileName (leBytes 64 parentReference ++ [UInt8.ofNat name.length, 1] ++
    name.flatMap fun c => [c, 0])

/-- An unnamed non-resident `$DATA` whose data is initialized. -/
def encodeNonResident (startingVcn dataSize : Nat) (runlist : Bytes) : Bytes :=
  encodeAttribute attrData (leBytes 8 1 ++ leBytes 16 startingVcn ++ leBytes 8 64 ++
    leBytes 8 dataSize ++ leBytes 8 dataSize ++ leBytes 8 dataSize ++ runlist)

/-- A record of at most three sectors, whose update sequence number is 1 and replaces zero
    bytes. -/
def encodeLongRecord (sectors flags baseRecord : Nat) (attrs : List Bytes) : Bytes :=
  fileSignature ++ leBytes 2 48 ++ leBytes 10 (sectors + 1) ++ leBytes 2 1 ++ leBytes 2 1 ++
    leBytes 2 56 ++ leBytes 10 flags ++ leBytes 16 baseRecord ++ leBytes 8 1 ++ attrs.flatten ++
    leBytes 4 attrEnd

/-- A record of one sector. -/
def encodeRecord : Nat → Nat → List Bytes → Bytes := encodeLongRecord 1

/-- The boot sector of a volume of 64 clusters of 256 bytes with one sector each. Its MFT
    starts at cluster 4 and has records of `sectors` sectors. -/
def bootSectorByte (sectors : Nat) : Nat → UInt8 := patched [
  (3, ntfsOemId ++ [0x00, 0x01, 0x01]), (40, [0x40]), (48, [0x04]), (56, [0x04]),
  (64, [UInt8.ofNat (0xf8 - sectors.log2), 0x00, 0x00, 0x00, 0xf4]), (510, [0x55, 0xaa])]

/-- Such a volume, whose MFT has 17 records; `mftRunlist` is the run list in record 0, and
    the records that are not listed are blank. -/
def volumeOf (sectors : Nat) (mftRunlist : Bytes) (records : List (Nat × Bytes)) : FaultySource :=
  let size := 256 * sectors
  let mft := encodeLongRecord sectors 1 0 [encodeNonResident 0 (17 * size) mftRunlist]
  memImageReader (fun i =>
    if i < 1024 then bootSectorByte sectors i
    else match ((0, mft) :: records).lookup ((i - 1024) / size) with
      | none => 0
      | some record =>
        -- behind the attributes, sectors end with the update sequence number
        record.getD ((i - 1024) % size) (if (i - 1024) % 256 = 254 then 1 else 0))
    16384 (by decide)

/-- A volume whose records are one sector long. -/
def smallVolume : Bytes → List (Nat × Bytes) → FaultySource := volumeOf 1

/-- A volume with a root directory, a byte of whose record 7 cannot be read. -/
def scratchedVolume : ReportingSource :=
  damagedReader (smallVolume [0x11, 0x11, 0x04] [(5, encodeRecord 3 0 [])]).byte 2916 2917 16384
    (by decide)

/-- What the records of a volume leave, each processed alone. -/
def passSeen (reader : SourceReader) : Except ScanError (List Nat × List NtfsWarning × Bool) := do
  let plan ← planScan reader
  let st := recordwisePass reader plan.boot plan.mft.runs plan.recordCount (initialMftState plan)
  return (st.entries.keys, st.ledger.warnings, st.ledger.isComplete)

theorem passSeen_scratchedVolume : passSeen scratchedVolume.toSourceReader =
    .ok ([5], [.bitmapRecordUnusable, .recordUnreadable 7], false) := by
  decide +kernel

/-- The records 4 to 7 are read alone, because they cannot be read as a batch: the root directory
    is kept, and only record 7 is lost. -/
theorem mftPass_batchSize_scratchedVolume :
    ∃ plan st, planScan scratchedVolume.toSourceReader = .ok plan ∧
      mftPass scratchedVolume.toSourceReader plan.boot plan.mft.runs plan.recordCount 4
          (initialMftState plan) = .ok st ∧
      (st.entries.keys, st.ledger.warnings, st.ledger.isComplete) =
        ([5], [.bitmapRecordUnusable, .recordUnreadable 7], false) := by
  obtain ⟨plan, hplan, hseen⟩ := bind_eq_ok.mp passSeen_scratchedVolume
  exact ⟨plan, _, hplan,
    mftPass_batchSize scratchedVolume.toFaultySource plan 4 _ hplan (by decide),
    Except.ok.inj hseen⟩

end Undelete.Ntfs
