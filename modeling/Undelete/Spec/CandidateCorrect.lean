import Undelete.Spec.ExtentsCorrect
import Undelete.Spec.PassInvariant

/-!
# Where a candidate comes from

Every entry of the final state was parsed from a delivered base record, possibly with
the streams of its extension records (`EntryOf`), and every candidate was built from
such an entry (`FileCandidate`).

## Key results

- `scanRecords_entryOf`: the entries of the final state.
- `EntryOf.mainStream_eq`: the main stream is the first usable unnamed fragment.
- `scanNtfs_file`: the file candidates of a scan.
-/

namespace Undelete.Ntfs

open Except

/-! ## Entries -/

/-- The attributes of a base record, followed by those of its extension records. -/
def entryAttributes (reader : SourceReader) (plan : ScanPlan) (record : FileRecord)
    (exts : List Nat) : List Attribute :=
  (iterAttributes record).1 ++
    exts.flatMap (extensionAttributes reader plan.boot plan.mft.runs)

/-- The entry of record `recordNo` was parsed from `record`, and pass 2 appended the streams
    of the extension records `exts`. -/
structure EntryOf (reader : SourceReader) (plan : ScanPlan) (recordNo : Nat)
    (entry : ParsedEntry) (bytes : Bytes) (record : FileRecord) (exts : List Nat) : Prop where
  lt : recordNo < plan.recordCount
  base : ParsedFrom plan.boot plan.mft.runs (scanRaw reader plan) recordNo bytes record
    (parsedEntry plan.boot plan.mft.runs record (recordNo * plan.boot.fileRecordSize)).1
  extensions : ∀ extNo ∈ exts, extNo < plan.recordCount ∧ ∃ bytes record',
    ExtensionOf plan.boot (scanRaw reader plan) extNo recordNo bytes record'
  entry_eq : entry = mergedEntry reader plan.boot plan.mft.runs exts
    (parsedEntry plan.boot plan.mft.runs record (recordNo * plan.boot.fileRecordSize)).1

variable {reader : SourceReader} {plan : ScanPlan} {st : MftState} {recordNo : Nat}
  {entry : ParsedEntry} {bytes : Bytes} {record : FileRecord} {exts : List Nat}

theorem scanRecords_entryOf (hplan : planScan reader = .ok plan)
    (hscan : scanRecords reader plan = .ok st) (hentry : st.entries.get? recordNo = some entry) :
    ∃ bytes record exts, EntryOf reader plan recordNo entry bytes record exts := by
  obtain ⟨hlt, bytes, record, parsed, hparsed, hmerged⟩ := scanRecords_get? hplan hscan hentry
  have hentry := hparsed.entry_eq
  subst hentry
  rcases hmerged with rfl | ⟨_, exts, hexts, rfl⟩
  · exact ⟨bytes, record, [], hlt, hparsed, by simp, by simp [mergedEntry]⟩
  · exact ⟨bytes, record, exts, hlt, hparsed,
      ((passedState_inv reader plan).references recordNo exts hexts).2, rfl⟩

theorem EntryOf.streams_eq (h : EntryOf reader plan recordNo entry bytes record exts) :
    entry.streams =
      (extractDataStreams plan.boot.totalClusters (entryAttributes reader plan record exts)).1 := by
  rw [h.entry_eq, entryAttributes, extractDataStreams_append, extractDataStreams_flatMap]
  rfl

/-- The physical offset of a record, as `process_mft_record` determines it. -/
def recordOffset (plan : ScanPlan) (recordNo : Nat) : Nat :=
  (streamPhysOffset plan.mft.runs plan.boot.clusterSize
    (recordNo * plan.boot.fileRecordSize)).getD 0

theorem EntryOf.recordPhysOffset_eq
    (h : EntryOf reader plan recordNo entry bytes record exts) :
    entry.recordPhysOffset = recordOffset plan recordNo := by
  rw [h.entry_eq]
  rfl

/-- The first usable unnamed `$DATA` attribute of the records of a file. -/
def mainFragment (reader : SourceReader) (plan : ScanPlan) (record : FileRecord)
    (exts : List Nat) : Option Attribute :=
  (entryAttributes reader plan record exts).find? (isMainFragment plan.boot.totalClusters)

/-- The main stream is the stream of the main fragment. -/
theorem EntryOf.mainStream_eq (h : EntryOf reader plan recordNo entry bytes record exts) :
    mainStream entry = (mainFragment reader plan record exts).bind fun a =>
      (dataStreamOf a plan.boot.totalClusters).toOption := by
  rw [mainStream, h.streams_eq, find?_extractDataStreams, mainFragment]

theorem mainFragment_some {a : Attribute} (h : mainFragment reader plan record exts = some a) :
    a ∈ entryAttributes reader plan record exts ∧ a.typeId = attrData ∧ a.name = none ∧
      ∃ s, dataStreamOf a plan.boot.totalClusters = .ok s :=
  ⟨List.mem_of_find?_eq_some h, isMainFragment_iff.mp (List.find?_some h)⟩

/-- The main stream and the main fragment determine each other. -/
theorem EntryOf.mainStream_eq_some (h : EntryOf reader plan recordNo entry bytes record exts)
    {main : DataStream} :
    mainStream entry = some main ↔ ∃ a, mainFragment reader plan record exts = some a ∧
      dataStreamOf a plan.boot.totalClusters = .ok main := by
  rw [h.mainStream_eq, Option.bind_eq_some_iff]
  simp only [toOption_eq_some]

/-- An attribute of an entry is an attribute of one of its records. -/
theorem mem_entryAttributes {a : Attribute} (ha : a ∈ entryAttributes reader plan record exts) :
    a ∈ (iterAttributes record).1 ∨ ∃ extNo ∈ exts, ∃ record',
      mftRecord reader plan.boot plan.mft.runs extNo = some record' ∧
      a ∈ (iterAttributes record').1 := by
  rcases List.mem_append.mp ha with ha | ha
  · exact .inl ha
  · obtain ⟨extNo, hext, ha⟩ := List.mem_flatMap.mp ha
    cases hrecord : mftRecord reader plan.boot plan.mft.runs extNo with
    | none => simp [extensionAttributes, hrecord] at ha
    | some record' =>
      rw [extensionAttributes, hrecord] at ha
      exact .inr ⟨extNo, hext, record', hrecord, ha⟩

theorem resident_lt {a : Attribute} (ha : a ∈ entryAttributes reader plan record exts)
    {value : Bytes} {off : Nat} (hbody : a.body = .resident value off) :
    value.length < 2 ^ 32 := by
  rcases mem_entryAttributes ha with ha | ⟨_, _, _, _, ha⟩
  · exact (iterAttributes_resident ha hbody).2.2
  · exact (iterAttributes_resident ha hbody).2.2

/-! ## Sources with a fixed content -/

/-- On a fixed content, pass 1 delivers what a read of the record alone would. -/
theorem scanRaw_eq_recordRaw {src : FaultySource} (hok : PlanOk src.toSourceReader plan)
    (hlt : recordNo < plan.recordCount) :
    scanRaw src.toSourceReader plan recordNo =
      recordRaw src.toSourceReader plan.boot plan.mft.runs recordNo :=
  passRaw_eq_recordRaw hok.valid hok.runs_fit hok.recordSize_pos hok.recordCount_lt
    (recordsPerBatch_pos _) hlt

theorem EntryOf.mftRecord_eq {src : FaultySource} (hok : PlanOk src.toSourceReader plan)
    (h : EntryOf src.toSourceReader plan recordNo entry bytes record exts) :
    mftRecord src.toSourceReader plan.boot plan.mft.runs recordNo = some record := by
  have hraw := h.base.raw
  rw [scanRaw_eq_recordRaw hok h.lt] at hraw
  rw [mftRecord, hraw, Option.bind_some, h.base.parse]
  rfl

theorem EntryOf.extension_eq {src : FaultySource} (hok : PlanOk src.toSourceReader plan)
    (h : EntryOf src.toSourceReader plan recordNo entry bytes record exts) {extNo : Nat}
    (hext : extNo ∈ exts) : extNo < plan.recordCount ∧ ∃ record',
      mftRecord src.toSourceReader plan.boot plan.mft.runs extNo = some record' ∧
      record'.baseRecord = recordNo := by
  obtain ⟨hlt, bytes, record', hof⟩ := h.extensions extNo hext
  have hraw := hof.raw
  rw [scanRaw_eq_recordRaw hok hlt] at hraw
  refine ⟨hlt, record', ?_, hof.baseRecord_eq⟩
  rw [mftRecord, hraw, Option.bind_some, hof.parse]
  rfl

/-! ## Candidates -/

theorem mem_buildCandidates {entries : RecordMap ParsedEntry} {boot : NtfsBoot}
    {allocation : Option AllocationMap} {c : Candidate} :
    c ∈ buildCandidates entries boot allocation ↔
      ∃ recordNo entry nameAttr, entries.get? recordNo = some entry ∧ entry.inUse = false ∧
        firstUserRecord ≤ recordNo ∧ entry.bestName = some nameAttr ∧
        c = buildCandidate entries boot allocation recordNo entry nameAttr := by
  simp only [buildCandidates, List.mem_insertionSort, List.mem_filterMap, Prod.exists,
    ← RecordMap.get?_eq_some_iff]
  constructor
  · rintro ⟨recordNo, entry, hentry, hc⟩
    split at hc
    · cases hc
    · next hfree =>
      simp only [Bool.or_eq_true, decide_eq_true_eq, not_or, Bool.not_eq_true, Nat.not_lt] at hfree
      obtain ⟨nameAttr, hname, rfl⟩ := Option.map_eq_some_iff.mp hc
      exact ⟨recordNo, entry, nameAttr, hentry, hfree.1, hfree.2, hname, rfl⟩
  · rintro ⟨recordNo, entry, nameAttr, hentry, hfree, hle, hname, rfl⟩
    refine ⟨recordNo, entry, hentry, ?_⟩
    rw [if_neg (by simp [hfree, Nat.not_lt.mpr hle]), hname, Option.map_some]

/-- The size and extents a scan reports for the entry of a file. -/
def entryContent (plan : ScanPlan) (entry : ParsedEntry) : Nat × List ExtentRun :=
  match mainStream entry with
  | none => (0, [])
  | some main => streamExtents main entry.recordPhysOffset plan.boot plan.allocation

/-- The file candidate `c` was built from `entry`. -/
structure FileCandidate (plan : ScanPlan) (st : MftState) (c : Candidate) (entry : ParsedEntry) :
    Prop where
  entry_get : st.entries.get? c.recordRef = some entry
  free : entry.inUse = false
  isFile : entry.isDirectory = false
  user : firstUserRecord ≤ c.recordRef
  content : (c.size, c.extents) = entryContent plan entry
  state : c.state = deriveState .file c.size c.extents

theorem buildCandidate_file {nameAttr : FileNameAttr} {entries : RecordMap ParsedEntry}
    {boot : NtfsBoot} {allocation : Option AllocationMap}
    (hkind : (buildCandidate entries boot allocation recordNo entry nameAttr).kind = .file) :
    entry.isDirectory = false := by
  cases hdirectory : entry.isDirectory with
  | false => rfl
  | true => simp [buildCandidate, hdirectory] at hkind

theorem scanNtfs_ok {out : NtfsScanOutput} (h : scanNtfs reader = .ok out) :
    ∃ plan st, planScan reader = .ok plan ∧ scanRecords reader plan = .ok st ∧
      out.candidates = buildCandidates st.entries plan.boot plan.allocation ∧
      out.isComplete = (buildNamespace st.entries st.ledger.isComplete).1.isComplete := by
  simp only [scanNtfs, bind_eq_ok, pure_eq_ok] at h
  obtain ⟨plan, hplan, st, hscan, rfl⟩ := h
  exact ⟨plan, st, hplan, hscan, rfl, rfl⟩

/-- Every file candidate of a scan was built from a retained entry. -/
theorem scanNtfs_file {out : NtfsScanOutput} (h : scanNtfs reader = .ok out)
    (hplan : planScan reader = .ok plan) (hscan : scanRecords reader plan = .ok st)
    {c : Candidate} (hc : c ∈ out.candidates) (hkind : c.kind = .file) :
    ∃ entry, FileCandidate plan st c entry := by
  obtain ⟨plan', st', hplan', hscan', hcandidates, _⟩ := scanNtfs_ok h
  rw [hplan] at hplan'
  cases hplan'
  rw [hscan] at hscan'
  cases hscan'
  rw [hcandidates] at hc
  obtain ⟨recordNo, entry, nameAttr, hentry, hfree, hle, _, rfl⟩ := mem_buildCandidates.mp hc
  have hfile := buildCandidate_file hkind
  refine ⟨entry, hentry, hfree, hfile, hle, ?_, ?_⟩
  · simp only [buildCandidate]
    rw [hfile]
    rfl
  · simp only [buildCandidate]
    rw [hfile]
    rfl

end Undelete.Ntfs
