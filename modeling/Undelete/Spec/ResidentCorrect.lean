import Undelete.Spec.CandidateCorrect
import Undelete.Spec.RecordCorrect

/-!
# Resident values on the source

A resident value is parsed from a record after its fixups and behind the run list of the
MFT, but it is recovered by one read from the source. `sourcePosition` says where a byte of
the fixed-up record comes from, and a resident value is recovered exactly when each byte
that the read delivers equals the byte stored there.

## Key results

- `residentRead_iff`: when a read returns a resident value.
- `residentReads_iff`: the resident reads of a scan.
-/

namespace Undelete.Ntfs

open Except

variable {raw data : Bytes}

/-! ## Resident values -/

/-- Where the source stores byte `pos` of the raw record `recordNo`. -/
def recordPlace (plan : ScanPlan) (recordNo pos : Nat) : Nat :=
  (runOffset plan.boot.clusterSize plan.mft.runs
    (recordNo * plan.boot.fileRecordSize + pos)).getD 0

/-- Where the source stores byte `pos` of the fixed-up record `recordNo`. -/
def storedAt (plan : ScanPlan) (raw : Bytes) (recordNo pos : Nat) : Nat :=
  recordPlace plan recordNo (sourcePosition raw plan.boot.bytesPerSector pos)

/-- Attribute `a` of record `recordNo` holds the resident value `value`, at `off`. -/
structure HoldsValue (reader : SourceReader) (plan : ScanPlan) (recordNo : Nat) (raw : Bytes)
    (a : Attribute) (value : Bytes) (off : Nat) : Prop where
  inside : (recordNo + 1) * plan.boot.fileRecordSize ≤ plan.trustedLen
  get : recordRaw reader plan.boot plan.mft.runs recordNo = some raw
  mem : ∃ record, parseFileRecord raw plan.boot.bytesPerSector = .ok record ∧
    a ∈ (iterAttributes record).1
  body : a.body = .resident value off

/-- The `len` bytes behind `phys` can be read, and they equal the bytes that the source
    stores for the fixed-up record `recordNo` from `off` on. -/
structure StoredBytes (src : FaultySource) (plan : ScanPlan) (recordNo : Nat) (raw : Bytes)
    (off phys len : Nat) : Prop where
  inside : phys + len ≤ src.len
  readable : ∀ i, phys ≤ i → i < phys + len → ¬src.bad i
  same : ∀ i < len, src.byte (phys + i) = src.byte (storedAt plan raw recordNo (off + i))

variable {src : FaultySource} {plan : ScanPlan} {recordNo off : Nat} {a : Attribute}
  {value : Bytes}

/-- The bytes of a record, on a source with a fixed content. -/
theorem recordRaw_getElem? (hok : PlanOk src.toSourceReader plan)
    (hinside : (recordNo + 1) * plan.boot.fileRecordSize ≤ plan.trustedLen)
    (h : recordRaw src.toSourceReader plan.boot plan.mft.runs recordNo = some raw) :
    raw.length = plan.boot.fileRecordSize ∧
    ∀ pos < raw.length, raw[pos]? = some (src.byte (recordPlace plan recordNo pos)) := by
  have hpos := hok.recordSize_pos
  rw [Nat.add_mul, Nat.one_mul] at hinside
  have hlt : recordNo * plan.boot.fileRecordSize + plan.boot.fileRecordSize < 2 ^ 64 := by
    obtain ⟨p, hp, _⟩ := hok.trusted (recordNo * plan.boot.fileRecordSize +
      (plan.boot.fileRecordSize - 1)) (by omega)
    have hruns : totalRunClusters plan.mft.runs * plan.boot.clusterSize ≤
        plan.boot.totalClusters * plan.boot.clusterSize :=
      Nat.mul_le_mul_right _ hok.runs_fit.total_le
    have hvolume := hok.valid.volume_lt
    by_contra hge
    rw [runOffset_eq_none (by omega)] at hp
    cases hp
  obtain ⟨_, _, rfl⟩ := (readStreamRange_eq_ok hok.runs_fit hok.valid.volume_lt hlt hpos).mp
    (toOption_eq_some.mp h)
  rw [Bytes.length_window]
  refine ⟨rfl, fun pos hpos => ?_⟩
  obtain ⟨p, hp, _⟩ := hok.trusted (recordNo * plan.boot.fileRecordSize + pos) (by omega)
  rw [Bytes.getElem?_window, if_pos hpos, streamByte, recordPlace, hp]
  rfl

/-- A byte of a resident value is the byte that the source stores for it. -/
theorem HoldsValue.getElem? (hok : PlanOk src.toSourceReader plan)
    (h : HoldsValue src.toSourceReader plan recordNo raw a value off) {i : Nat}
    (hi : i < value.length) :
    value[i]? = some (src.byte (storedAt plan raw recordNo (off + i))) := by
  obtain ⟨_, hraw⟩ := recordRaw_getElem? hok h.inside h.get
  obtain ⟨record, hrecord, ha⟩ := h.mem
  obtain ⟨hlength, hdata⟩ := parseFileRecord_data (by have := hok.sector_le; omega) hrecord
  obtain ⟨hle, hvalue, _⟩ := iterAttributes_resident ha h.body
  obtain ⟨hsource, hbyte⟩ := hdata (off + i) (by omega)
  rw [hvalue, Bytes.getElem?_slice, if_pos (by omega), hbyte, hraw _ hsource]
  rfl

/-- A read returns the first `len` bytes of a resident value exactly when it delivers the
    bytes that the source stores for them. -/
theorem residentRead_iff (hok : PlanOk src.toSourceReader plan)
    (h : HoldsValue src.toSourceReader plan recordNo raw a value off) (phys : Nat) {len : Nat}
    (hlen : len ≤ value.length) :
    src.toSourceReader.readVecAt phys len = .ok (value.take len) ↔
      StoredBytes src plan recordNo raw off phys len := by
  rw [SourceReader.readVecAt, src.readExactAt_eq_ok]
  have hsame : value.take len = Bytes.window src.byte phys len ↔
      ∀ i < len, src.byte (phys + i) = src.byte (storedAt plan raw recordNo (off + i)) := by
    rw [eq_comm]
    have hlength : (value.take len).length = len := by rw [List.length_take]; omega
    have hwindow := Bytes.window_eq_iff src.byte phys (value.take len)
    rw [hlength] at hwindow
    rw [hwindow]
    refine forall₂_congr fun i hi => ?_
    rw [List.getElem?_take, if_pos hi, h.getElem? hok (by omega), Option.some.injEq, eq_comm]
  rw [hsame]
  exact ⟨fun ⟨⟨h₁, h₂⟩, h₃⟩ => ⟨h₁, h₂, h₃⟩, fun ⟨h₁, h₂, h₃⟩ => ⟨⟨h₁, h₂⟩, h₃⟩⟩

/-! ## The reads of a scan -/

theorem mftRecord_eq_some {reader : SourceReader} {boot : NtfsBoot} {mftRuns : List RunElement}
    {record : FileRecord} : mftRecord reader boot mftRuns recordNo = some record ↔
      ∃ raw, recordRaw reader boot mftRuns recordNo = some raw ∧
        parseFileRecord raw boot.bytesPerSector = .ok record := by
  simp only [mftRecord, Option.bind_eq_some_iff, toOption_eq_some]

/-- A resident attribute of an entry is held by its base record or by one of its extension
    records. -/
theorem EntryOf.holdsValue {entry : ParsedEntry} {bytes : Bytes} {record : FileRecord}
    {exts : List Nat} (hok : PlanOk src.toSourceReader plan)
    (h : EntryOf src.toSourceReader plan recordNo entry bytes record exts)
    (ha : a ∈ entryAttributes src.toSourceReader plan record exts)
    (hbody : a.body = .resident value off) :
    ∃ holder raw, (holder = recordNo ∨ holder ∈ exts) ∧
      HoldsValue src.toSourceReader plan holder raw a value off := by
  have hinside : ∀ n < plan.recordCount,
      (n + 1) * plan.boot.fileRecordSize ≤ plan.trustedLen := fun n hn =>
    Nat.le_trans (Nat.mul_le_mul_right _ hn) hok.recordCount_le
  rcases mem_entryAttributes ha with ha | ⟨extNo, hext, record', hrecord', ha⟩
  · obtain ⟨raw, hraw, hparse⟩ := mftRecord_eq_some.mp (h.mftRecord_eq hok)
    exact ⟨recordNo, raw, .inl rfl, hinside _ h.lt, hraw, ⟨record, hparse, ha⟩, hbody⟩
  · obtain ⟨raw, hraw, hparse⟩ := mftRecord_eq_some.mp hrecord'
    exact ⟨extNo, raw, .inr hext, hinside _ (h.extension_eq hok hext).1, hraw,
      ⟨record', hparse, ha⟩, hbody⟩

/-- A resident stream has one extent, or none when it is compressed. -/
theorem streamExtents_resident {main : DataStream} {recordPhysOffset len : Nat} {boot : NtfsBoot}
    {allocation : Option AllocationMap} (hkind : main.kind = .resident off len) :
    ∀ e ∈ (streamExtents main recordPhysOffset boot allocation).2,
      e = ⟨0, some (U64.wrappingAdd recordPhysOffset off), len, .resident⟩ := by
  intro e he
  simp only [streamExtents, hkind] at he
  split at he
  · cases he
  · exact List.mem_singleton.mp he

/-- What `read_bitmap_record` returns is record 6. -/
theorem readBitmapRecord_ok {reader : SourceReader} {boot : NtfsBoot}
    {mftRuns : List RunElement} {trustedLen logical : Nat} {record : FileRecord}
    (h : readBitmapRecord reader boot mftRuns trustedLen = .ok (logical, record)) :
    (bitmapRecord + 1) * boot.fileRecordSize ≤ trustedLen ∧
    ∃ raw, recordRaw reader boot mftRuns bitmapRecord = some raw ∧
      parseFileRecord raw boot.bytesPerSector = .ok record := by
  simp only [readBitmapRecord, bind_eq_ok, okOr_eq_ok, throw_bind, ite_throw_eq_ok, mapError_eq_ok,
    pure_eq_ok, Prod.mk.injEq] at h
  obtain ⟨recordEnd, hend, hle, logical, hlogical, raw, hraw, record, hparse, rfl, rfl⟩ := h
  obtain ⟨_, rfl⟩ := U64.checkedMul_eq_some.mp hend
  obtain ⟨_, rfl⟩ := U64.checkedMul_eq_some.mp hlogical
  exact ⟨Nat.le_of_not_lt hle, raw, toOption_eq_some.mpr hraw, hparse⟩

theorem boundedBitmapReadLen_le (expected trusted : Nat) (warnings : List NtfsWarning) :
    (boundedBitmapReadLen expected trusted warnings).1 ≤ trusted := by
  simp only [boundedBitmapReadLen]
  split <;> exact Nat.le_trans (Nat.min_le_left _ _) (Nat.min_le_right _ _)

/-- Reading the resident extent of a file returns the value of its main fragment exactly
    when the extent can be read and each of its bytes equals the byte that the source
    stores for the fixed-up record: the saved one for the last two bytes of a sector, and
    the one behind the MFT's run list for the others. The same holds for the resident
    bitmap. -/
theorem residentReads_iff (src : FaultySource) (plan : ScanPlan)
    (hplan : planScan src.toSourceReader = .ok plan) :
    (∀ st out c, scanRecords src.toSourceReader plan = .ok st →
      scanNtfs src.toSourceReader = .ok out → c ∈ out.candidates → c.kind = .file →
      ∃ entry bytes record exts, FileCandidate plan st c entry ∧
        EntryOf src.toSourceReader plan c.recordRef entry bytes record exts ∧
        ∀ a value off, mainFragment src.toSourceReader plan record exts = some a →
          a.body = .resident value off →
          ∃ holder raw, (holder = c.recordRef ∨ holder ∈ exts) ∧
            HoldsValue src.toSourceReader plan holder raw a value off ∧
            let phys := U64.wrappingAdd (recordOffset plan c.recordRef) off
            ∀ e ∈ c.extents, e = ⟨0, some phys, value.length, .resident⟩ ∧
              (src.toSourceReader.readVecAt phys e.len = .ok value ↔
                StoredBytes src plan holder raw off phys value.length)) ∧
    (∀ logical record a value off phys,
      readBitmapRecord src.toSourceReader plan.boot plan.mft.runs plan.trustedLen =
        .ok (logical, record) →
      trustedBitmapData record (iterAttributes record).1 = some a →
      a.body = .resident value off →
      (streamPhysOffset plan.mft.runs plan.boot.clusterSize logical).bind
        (U64.checkedAdd · off) = some phys →
      ∃ raw, HoldsValue src.toSourceReader plan bitmapRecord raw a value off ∧
        let take := (boundedBitmapReadLen ((plan.boot.totalClusters + 7) / 8) value.length []).1
        (src.toSourceReader.readVecAt phys take = .ok (value.take take) ↔
          StoredBytes src plan bitmapRecord raw off phys take)) := by
  have hok := planScan_ok hplan
  constructor
  · intro st out c hscan hout hc hkind
    obtain ⟨entry, hfile⟩ := scanNtfs_file hout hplan hscan hc hkind
    obtain ⟨bytes, record, exts, hentry⟩ := scanRecords_entryOf hplan hscan hfile.entry_get
    refine ⟨entry, bytes, record, exts, hfile, hentry, fun a value off ha hbody => ?_⟩
    obtain ⟨hmem, _, _, main, hstream⟩ := mainFragment_some ha
    obtain ⟨holder, raw, hholder, hholds⟩ := hentry.holdsValue hok hmem hbody
    refine ⟨holder, raw, hholder, hholds, fun e he => ?_⟩
    have hextent : e = ⟨0, some (U64.wrappingAdd (recordOffset plan c.recordRef) off), value.length,
        .resident⟩ := by
      have hcontent := hfile.content
      rw [entryContent, hentry.mainStream_eq_some.mpr ⟨a, ha, hstream⟩,
        hentry.recordPhysOffset_eq] at hcontent
      have hmain : main.kind = .resident off value.length := by
        simp only [dataStreamOf, hbody] at hstream
        cases hstream
        rfl
      rw [(Prod.mk.inj hcontent).2] at he
      exact streamExtents_resident hmain e he
    refine ⟨hextent, ?_⟩
    have hread := residentRead_iff hok hholds (U64.wrappingAdd (recordOffset plan c.recordRef) off)
      (Nat.le_refl value.length)
    rw [List.take_length] at hread
    rw [hextent]
    exact hread
  · intro logical record a value off phys hrecord ha hbody hphys
    obtain ⟨hinside, raw, hraw, hparse⟩ := readBitmapRecord_ok hrecord
    have hmem : a ∈ (iterAttributes record).1 := by
      simp only [trustedBitmapData] at ha
      split at ha
      · next data hfilter =>
        obtain ⟨_, ha⟩ := Option.ite_none_right_eq_some.mp ha
        cases ha
        exact List.mem_of_mem_filter (hfilter ▸ List.mem_singleton_self _)
      · cases ha
    have hholds : HoldsValue src.toSourceReader plan bitmapRecord raw a value off :=
      ⟨hinside, hraw, ⟨record, hparse, hmem⟩, hbody⟩
    exact ⟨raw, hholds, residentRead_iff hok hholds phys (boundedBitmapReadLen_le _ _ _)⟩

/-! ## A value behind a sector end -/

/-- Record 16 is a deleted file `a` with 88 resident bytes. They lie behind byte 176 of the
    record, so byte 78 is the first of the two that end its first sector. -/
def sectorEndVolume : FaultySource :=
  volumeOf 2 [0x11, 0x22, 0x04] [(16, encodeLongRecord 2 0 0 [encodeFileName 5 [0x61],
    encodeResident attrData
      (List.replicate 78 0x41 ++ [0x01, 0x00] ++ List.replicate 8 0x42)])]

theorem sectorEndVolume_candidate :
    ∃ plan st out c, planScan sectorEndVolume.toSourceReader = .ok plan ∧
      scanRecords sectorEndVolume.toSourceReader plan = .ok st ∧
      scanNtfs sectorEndVolume.toSourceReader = .ok out ∧ c ∈ out.candidates ∧
      c.kind = .file ∧ c.recordRef = 16 ∧ c.extents = [⟨0, some 9392, 88, .resident⟩] := by
  have hrun : (scanNtfs sectorEndVolume.toSourceReader).toOption.any (fun out =>
      out.candidates.any fun c => c.kind = .file && c.recordRef = 16 &&
        c.extents = [⟨0, some 9392, 88, .resident⟩]) = true := by
    decide +kernel
  obtain ⟨out, hout, hany⟩ := (Option.any_eq_true _ _).mp hrun
  obtain ⟨c, hc, hchecks⟩ := List.any_eq_true.mp hany
  simp only [Bool.and_eq_true, decide_eq_true_eq, and_assoc] at hchecks
  obtain ⟨plan, st, hplan, hscan, _⟩ := scanNtfs_ok (toOption_eq_some.mp hout)
  exact ⟨plan, st, out, c, hplan, hscan, toOption_eq_some.mp hout, hc, hchecks⟩

/-- The body is resident, and `p` holds of its value. -/
def AttrBody.onValue (p : Bytes → Bool) : AttrBody → Bool
  | .resident value _ => p value
  | .nonResident .. => false

/-- The extent of the file is not its value: the source has the update sequence number at
    the end of the sector. -/
theorem sectorEndVolume_differs :
    ∃ plan out c raw a value off, planScan sectorEndVolume.toSourceReader = .ok plan ∧
      scanNtfs sectorEndVolume.toSourceReader = .ok out ∧ c ∈ out.candidates ∧ c.kind = .file ∧
      HoldsValue sectorEndVolume.toSourceReader plan c.recordRef raw a value off ∧
      a.typeId = attrData ∧ a.name = none ∧
      ∃ phys, c.extents = [⟨0, some phys, value.length, .resident⟩] ∧
        sectorEndVolume.toSourceReader.readVecAt phys value.length ≠ .ok value := by
  obtain ⟨plan, st, out, c, hplan, _, hout, hc, hkind, hrecord, hextents⟩ :=
    sectorEndVolume_candidate
  have hvalue : (planScan sectorEndVolume.toSourceReader).toOption.any (fun plan =>
      17 * plan.boot.fileRecordSize ≤ plan.trustedLen &&
      (recordRaw sectorEndVolume.toSourceReader plan.boot plan.mft.runs 16).any fun raw =>
        (parseFileRecord raw plan.boot.bytesPerSector).toOption.any fun record =>
          (iterAttributes record).1.any fun a => a.typeId = attrData && a.name = none &&
            a.body.onValue fun value => value.length = 88 &&
              (sectorEndVolume.toSourceReader.readVecAt 9392 88).toOption ≠ some value) = true := by
    decide +kernel
  obtain ⟨plan', hplan', hvalue⟩ := (Option.any_eq_true _ _).mp hvalue
  obtain rfl : plan = plan' := ok.inj (hplan.symm.trans (toOption_eq_some.mp hplan'))
  simp only [Bool.and_eq_true, decide_eq_true_eq, Option.any_eq_true, List.any_eq_true] at hvalue
  obtain ⟨hinside, raw, hraw, record, hparse, a, ha, ⟨hdata, hname⟩, hbody⟩ := hvalue
  cases hattr : a.body with
  | nonResident _ _ _ _ _ => rw [hattr] at hbody; cases hbody
  | resident value off =>
    rw [hattr] at hbody
    simp only [AttrBody.onValue, Bool.and_eq_true, decide_eq_true_eq] at hbody
    refine ⟨plan, out, c, raw, a, value, off, hplan, hout, hc, hkind,
      ⟨?_, ?_, ⟨record, toOption_eq_some.mp hparse, ha⟩, hattr⟩, hdata, hname, 9392, ?_, ?_⟩
    · rw [hrecord]; exact hinside
    · rw [hrecord]; exact hraw
    · rw [hextents, hbody.1]
    · rw [hbody.1]
      exact fun hread => hbody.2 (toOption_eq_some.mpr hread)

theorem residentReads_iff_sectorEnd :
    ∃ plan st c entry bytes record exts, planScan sectorEndVolume.toSourceReader = .ok plan ∧
      FileCandidate plan st c entry ∧
      EntryOf sectorEndVolume.toSourceReader plan c.recordRef entry bytes record exts ∧
      ∀ a value off, mainFragment sectorEndVolume.toSourceReader plan record exts = some a →
        a.body = .resident value off →
        ∃ holder raw, HoldsValue sectorEndVolume.toSourceReader plan holder raw a value off ∧
          ∀ e ∈ c.extents, (sectorEndVolume.toSourceReader.readVecAt
              (U64.wrappingAdd (recordOffset plan c.recordRef) off) e.len = .ok value ↔
            StoredBytes sectorEndVolume plan holder raw off
              (U64.wrappingAdd (recordOffset plan c.recordRef) off) value.length) := by
  obtain ⟨plan, st, out, c, hplan, hscan, hout, hc, hkind, _⟩ := sectorEndVolume_candidate
  obtain ⟨entry, bytes, record, exts, hfile, hentry, hfragment⟩ :=
    (residentReads_iff sectorEndVolume plan hplan).1 st out c hscan hout hc hkind
  refine ⟨plan, st, c, entry, bytes, record, exts, hplan, hfile, hentry,
    fun a value off ha hbody => ?_⟩
  obtain ⟨holder, raw, _, hholds, hextents⟩ := hfragment a value off ha hbody
  exact ⟨holder, raw, hholds, fun e he => (hextents e he).2⟩

end Undelete.Ntfs
