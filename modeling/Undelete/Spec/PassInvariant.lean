import Undelete.Spec.ScanPlanCorrect

/-!
# What the MFT passes can do

Inversion lemmas for the steps of the two passes, and the facts about the final state
that follow by induction: where every retained entry and stream comes from, and what
it takes for a scan to count as complete.

## Key results

- `deliverRecord_step`: everything a record can do to the state.
- `deliverRecords_inv`: an entry of pass 1 was parsed from a delivered record.
- `mergePass_merged`: pass 2 only appends streams of extension records.
-/

namespace Undelete.Ntfs

open Except

/-! ## Budgets -/

namespace MftLedger

@[simp] theorem refuse_isComplete (l : MftLedger) (emitted : Bool) (warning : NtfsWarning)
    (mark : MftRetentionBudget → MftRetentionBudget) :
    (l.refuse emitted warning mark).isComplete = false := by
  simp only [refuse]; split <;> rfl

/-- A refused base record makes the scan incomplete. -/
theorem plannedBaseRecordCounts_cases (l : MftLedger) (inUse isDirectory : Bool) :
    (∃ counts, l.plannedBaseRecordCounts inUse isDirectory = (some counts, l)) ∨
    (∃ l', l.plannedBaseRecordCounts inUse isDirectory = (none, l') ∧ l'.isComplete = false) := by
  simp only [plannedBaseRecordCounts]
  generalize (if inUse = true then some l.budget.deletedEntries
    else U64.checkedAdd l.budget.deletedEntries 1) = deleted
  generalize (if isDirectory = true then U64.checkedAdd l.budget.directoryEntries 1
    else some l.budget.directoryEntries) = directory
  by_cases hdeleted : limitReached deleted maxRetainedDeletedEntries = true
  · right
    by_cases hdirectory : limitReached directory maxRetainedDirectoryEntries = true <;>
      simp [hdeleted, hdirectory, noteDeletedLimit, noteDirectoryLimit]
  · by_cases hdirectory : limitReached directory maxRetainedDirectoryEntries = true
    · right
      simp [hdeleted, hdirectory, noteDirectoryLimit]
    · left
      -- a missing count would have reached its limit
      cases deleted with
      | none => simp [limitReached] at hdeleted
      | some d =>
        cases directory with
        | none => simp [limitReached] at hdirectory
        | some n => exact ⟨(d, n), by simp [hdeleted, hdirectory]⟩

theorem baseRecordSlotAvailable_cases (l : MftLedger) (inUse isDirectory : Bool) :
    l.baseRecordSlotAvailable inUse isDirectory = (true, l) ∨
    (∃ l', l.baseRecordSlotAvailable inUse isDirectory = (false, l') ∧ l'.isComplete = false) := by
  rcases l.plannedBaseRecordCounts_cases inUse isDirectory with ⟨counts, h⟩ | ⟨l', h, hincomplete⟩
  · exact .inl (by simp [baseRecordSlotAvailable, h])
  · exact .inr ⟨l', by simp [baseRecordSlotAvailable, h], hincomplete⟩

theorem admitBaseRecord_cases (l : MftLedger) (inUse isDirectory : Bool)
    (cost : EntryRetentionCost) :
    (∃ l', l.admitBaseRecord inUse isDirectory cost = (true, l') ∧
      l'.isComplete = l.isComplete) ∨
    (∃ l', l.admitBaseRecord inUse isDirectory cost = (false, l') ∧ l'.isComplete = false) := by
  simp only [admitBaseRecord]
  rcases l.plannedBaseRecordCounts_cases inUse isDirectory with ⟨counts, h⟩ | ⟨l', h, hincomplete⟩
  · rw [h]
    split
    · next heq => cases heq
    · next heq =>
      cases heq
      split
      · exact .inr ⟨_, rfl, refuse_isComplete ..⟩
      · exact .inl ⟨_, rfl, rfl⟩
  · rw [h]
    exact .inr ⟨l', rfl, hincomplete⟩

theorem admitExtensionReference_cases (l : MftLedger) :
    (∃ l', l.admitExtensionReference = (true, l') ∧ l'.isComplete = l.isComplete) ∨
    (∃ l', l.admitExtensionReference = (false, l') ∧ l'.isComplete = false) := by
  simp only [admitExtensionReference]
  split
  · exact .inr ⟨_, rfl, refuse_isComplete ..⟩
  · exact .inl ⟨_, rfl, rfl⟩

end MftLedger

/-! ## One record of pass 1 -/

@[simp] theorem MftState.markIncomplete_entries (st : MftState) (warning : NtfsWarning) :
    (st.markIncomplete warning).entries = st.entries := rfl

@[simp] theorem MftState.markIncomplete_extensionData (st : MftState) (warning : NtfsWarning) :
    (st.markIncomplete warning).extensionData = st.extensionData := rfl

@[simp] theorem MftState.markIncomplete_isComplete (st : MftState) (warning : NtfsWarning) :
    (st.markIncomplete warning).ledger.isComplete = false := rfl

/-- The base records pass 1 retains: directories, and free records behind the
    reserved ones. -/
def Retains (record : FileRecord) (recordNo : Nat) : Prop :=
  record.baseRecord = 0 ∧
    (record.isDirectory = true ∨ record.inUse = false ∧ firstUserRecord ≤ recordNo)

/-- What pass 1 makes of a base record at `logicalOffset` of the MFT. -/
def parsedEntry (boot : NtfsBoot) (mftRuns : List RunElement) (record : FileRecord)
    (logicalOffset : Nat) : ParsedEntry × Bool :=
  parseEntry record boot ((streamPhysOffset mftRuns boot.clusterSize logicalOffset).getD 0)

theorem retainBaseEntry_cases (recordNo : Nat) (entry : ParsedEntry) (st : MftState) :
    (retainBaseEntry recordNo entry st).extensionData = st.extensionData ∧
    (((retainBaseEntry recordNo entry st).entries = st.entries.insert recordNo entry ∧
      (retainBaseEntry recordNo entry st).ledger.isComplete = st.ledger.isComplete) ∨
    ((retainBaseEntry recordNo entry st).entries = st.entries ∧
      (retainBaseEntry recordNo entry st).ledger.isComplete = false)) := by
  simp only [retainBaseEntry]
  split
  · exact ⟨rfl, .inr ⟨rfl, MftLedger.refuse_isComplete ..⟩⟩
  · next runElements _ =>
    rcases st.ledger.admitBaseRecord_cases entry.inUse entry.isDirectory
      ⟨entry.names.length, entry.streams.length, runElements⟩ with ⟨l', h, hl⟩ | ⟨l', h, hl⟩
    · simp only [h, if_true]
      exact ⟨trivial, .inl ⟨trivial, hl⟩⟩
    · simp only [h, Bool.false_eq_true, if_false]
      exact ⟨trivial, .inr ⟨trivial, hl⟩⟩

theorem retainExtensionReference_cases (recordNo baseRecord : Nat) (st : MftState) :
    (retainExtensionReference recordNo baseRecord st).entries = st.entries ∧
    (((retainExtensionReference recordNo baseRecord st).extensionData =
        st.extensionData.insert baseRecord
          ((st.extensionData.get? baseRecord).getD [] ++ [recordNo]) ∧
      (retainExtensionReference recordNo baseRecord st).ledger.isComplete =
        st.ledger.isComplete) ∨
    ((retainExtensionReference recordNo baseRecord st).extensionData = st.extensionData ∧
      (retainExtensionReference recordNo baseRecord st).ledger.isComplete = false)) := by
  simp only [retainExtensionReference]
  rcases st.ledger.admitExtensionReference_cases with ⟨l', h, hl⟩ | ⟨l', h, hl⟩
  · simp only [h, if_true]
    exact ⟨trivial, .inl ⟨trivial, hl⟩⟩
  · simp only [h, Bool.false_eq_true, if_false]
    exact ⟨trivial, .inr ⟨trivial, hl⟩⟩

/-- What a step of pass 1 did with the record `recordNo` it got `raw` for. -/
inductive RecordStep (boot : NtfsBoot) (mftRuns : List RunElement) (raw : Option Bytes)
    (recordNo : Nat) (st st' : MftState) : Prop where
  /-- Something was lost. -/
  | dropped (hentries : st'.entries = st.entries) (hrefs : st'.extensionData = st.extensionData)
      (hincomplete : st'.ledger.isComplete = false)
  /-- A blank record. -/
  | blank (bytes : Bytes) (hraw : raw = some bytes) (hzero : isZeroed bytes = true)
      (hst : st' = st)
  /-- A record that is not retained: in use, reserved, or an extension in use. -/
  | ignored (bytes : Bytes) (record : FileRecord) (hraw : raw = some bytes)
      (hrecord : parseFileRecord bytes boot.bytesPerSector = .ok record)
      (hretains : ¬Retains record recordNo) (hext : record.baseRecord ≠ 0 → record.inUse = true)
      (hst : st' = st)
  /-- A free extension record, whose reference is kept. -/
  | extension (bytes : Bytes) (record : FileRecord) (hraw : raw = some bytes)
      (hrecord : parseFileRecord bytes boot.bytesPerSector = .ok record)
      (hbase : record.baseRecord ≠ 0) (hfree : record.inUse = false)
      (hentries : st'.entries = st.entries)
      (hrefs : st'.extensionData = st.extensionData.insert record.baseRecord
        ((st.extensionData.get? record.baseRecord).getD [] ++ [recordNo]))
      (hcomplete : st'.ledger.isComplete = st.ledger.isComplete)
  /-- A retained base record; malformed attributes make the scan incomplete. -/
  | retained (bytes : Bytes) (record : FileRecord) (hraw : raw = some bytes)
      (hrecord : parseFileRecord bytes boot.bytesPerSector = .ok record)
      (hretains : Retains record recordNo)
      (hentries : st'.entries = st.entries.insert recordNo
        (parsedEntry boot mftRuns record (recordNo * boot.fileRecordSize)).1)
      (hrefs : st'.extensionData = st.extensionData)
      (hcomplete : st'.ledger.isComplete = (st.ledger.isComplete &&
        (parsedEntry boot mftRuns record (recordNo * boot.fileRecordSize)).2))

theorem deliverRecord_step (boot : NtfsBoot) (mftRuns : List RunElement)
    (raws : Nat → Option Bytes) (st : MftState) (recordNo : Nat) :
    RecordStep boot mftRuns (raws recordNo) recordNo st
      (deliverRecord boot mftRuns raws st recordNo) := by
  simp only [deliverRecord]
  -- a record that was not delivered, or not parsed, leaves the pass incomplete
  cases hraw : raws recordNo with
  | none => exact .dropped rfl rfl rfl
  | some bytes =>
    simp only [processMftRecord]
    cases hparse : parseFileRecord bytes boot.bytesPerSector with
    | error e =>
      cases e with
      | notAFileRecord =>
        simp only
        split
        · next hzero => exact .blank bytes rfl hzero rfl
        · exact .dropped rfl rfl rfl
      | corrupt message => exact .dropped rfl rfl rfl
      | fixupMismatch => exact .dropped rfl rfl rfl
    | ok record =>
      simp only
      -- a non-zero base reference makes it an extension record
      by_cases hbase : record.baseRecord ≠ 0
      · rw [if_pos hbase]
        split
        · next hinUse =>
          exact .ignored bytes record rfl hparse (fun h => hbase h.1) (fun _ => hinUse) rfl
        · next hfree =>
          obtain ⟨hentries, ⟨hrefs, hcomplete⟩ | ⟨hrefs, hincomplete⟩⟩ :=
            retainExtensionReference_cases recordNo record.baseRecord st
          · exact .extension bytes record rfl hparse hbase (by simpa using hfree) hentries hrefs
              hcomplete
          · exact .dropped hentries hrefs hincomplete
      · rw [if_neg hbase]
        have hbase := Decidable.not_not.mp hbase
        split
        · next hskip =>
          -- live files and early free records are skipped by design
          refine .ignored bytes record rfl hparse ?_ (fun h => absurd hbase h) rfl
          simp only [Bool.and_eq_true, Bool.not_eq_true', Bool.or_eq_true,
            decide_eq_true_eq] at hskip
          rintro ⟨_, hdirectory | ⟨hfree, hle⟩⟩
          · simp [hskip.1] at hdirectory
          · rcases hskip.2 with hinUse | hlt
            · simp [hinUse] at hfree
            · omega
        · next hkeep =>
          have hretains : Retains record recordNo := by
            refine ⟨hbase, ?_⟩
            simp only [Bool.and_eq_true, Bool.not_eq_true', Bool.or_eq_true, decide_eq_true_eq,
              not_and, not_or, Bool.not_eq_true] at hkeep
            cases hdirectory : record.isDirectory with
            | true => exact .inl rfl
            | false =>
              obtain ⟨hfree, hle⟩ := hkeep hdirectory
              exact .inr ⟨hfree, Nat.le_of_not_lt hle⟩
          rcases st.ledger.baseRecordSlotAvailable_cases record.inUse record.isDirectory with
            hslot | ⟨l', hslot, hincomplete⟩
          · simp only [hslot, Bool.not_true, Bool.false_eq_true, if_false]
            -- the entry is parsed before its admission, so its completeness counts either way
            generalize hentry : parseEntry record boot
              ((streamPhysOffset mftRuns boot.clusterSize
                (recordNo * boot.fileRecordSize)).getD 0) = parsed
            obtain ⟨entry, complete⟩ := parsed
            have hparsed : parsedEntry boot mftRuns record (recordNo * boot.fileRecordSize) =
              (entry, complete) := hentry
            obtain ⟨hrefs, ⟨hentries, hcomplete⟩ | ⟨hentries, hincomplete⟩⟩ :=
              retainBaseEntry_cases recordNo entry
                (if complete = true then st else st.markIncomplete (.recordIncomplete recordNo))
            · refine .retained bytes record rfl hparse hretains ?_ ?_ ?_
              · rw [hparsed, hentries]; cases complete <;> rfl
              · rw [hrefs]; cases complete <;> rfl
              · rw [hparsed, hcomplete]; cases complete <;> simp
            · refine .dropped ?_ ?_ hincomplete
              · rw [hentries]; cases complete <;> rfl
              · rw [hrefs]; cases complete <;> rfl
          · simp only [hslot, Bool.not_false, if_true]
            exact .dropped rfl rfl hincomplete

/-! ## Pass 1 -/

/-- The retained entry of record `recordNo` was parsed from what was delivered for it. -/
structure ParsedFrom (boot : NtfsBoot) (mftRuns : List RunElement) (raws : Nat → Option Bytes)
    (recordNo : Nat) (bytes : Bytes) (record : FileRecord) (entry : ParsedEntry) : Prop where
  raw : raws recordNo = some bytes
  parse : parseFileRecord bytes boot.bytesPerSector = .ok record
  retains : Retains record recordNo
  entry_eq : entry = (parsedEntry boot mftRuns record (recordNo * boot.fileRecordSize)).1

/-- Record `recordNo` is a free extension record of `baseRecord`. -/
structure ExtensionOf (boot : NtfsBoot) (raws : Nat → Option Bytes) (recordNo baseRecord : Nat)
    (bytes : Bytes) (record : FileRecord) : Prop where
  raw : raws recordNo = some bytes
  parse : parseFileRecord bytes boot.bytesPerSector = .ok record
  baseRecord_eq : record.baseRecord = baseRecord
  baseRecord_ne : baseRecord ≠ 0
  free : record.inUse = false

/-- The state of pass 1 after the records below `count`, when it started with an empty
    state whose `is_complete` flag was `initial`. -/
structure PassInv (boot : NtfsBoot) (mftRuns : List RunElement) (raws : Nat → Option Bytes)
    (initial : Bool) (count : Nat) (st : MftState) : Prop where
  entries : ∀ recordNo entry, st.entries.get? recordNo = some entry → recordNo < count ∧
    ∃ bytes record, ParsedFrom boot mftRuns raws recordNo bytes record entry
  references : ∀ baseRecord exts, st.extensionData.get? baseRecord = some exts →
    exts.Pairwise (· < ·) ∧ ∀ extNo ∈ exts, extNo < count ∧
      ∃ bytes record, ExtensionOf boot raws extNo baseRecord bytes record
  complete : st.ledger.isComplete = true → initial = true ∧ ∀ recordNo < count,
    ∃ bytes, raws recordNo = some bytes ∧ (isZeroed bytes = true ∨
      ∃ record, parseFileRecord bytes boot.bytesPerSector = .ok record ∧
        (Retains record recordNo →
          (parsedEntry boot mftRuns record (recordNo * boot.fileRecordSize)).2 = true ∧
          st.entries.get? recordNo =
            some (parsedEntry boot mftRuns record (recordNo * boot.fileRecordSize)).1))

variable {reader : SourceReader} {boot : NtfsBoot} {mftRuns : List RunElement}
  {raws : Nat → Option Bytes}

/-- Completeness carries over to one more record that was read and retained. -/
theorem PassInv.complete_succ {initial : Bool} {count : Nat} {st st' : MftState}
    (h : PassInv boot mftRuns raws initial count st)
    (hmono : st'.ledger.isComplete = true → st.ledger.isComplete = true)
    (hsame : ∀ recordNo < count, st'.entries.get? recordNo = st.entries.get? recordNo)
    (hlast : st'.ledger.isComplete = true →
      ∃ bytes, raws count = some bytes ∧ (isZeroed bytes = true ∨
        ∃ record, parseFileRecord bytes boot.bytesPerSector = .ok record ∧
          (Retains record count →
            (parsedEntry boot mftRuns record (count * boot.fileRecordSize)).2 = true ∧
            st'.entries.get? count =
              some (parsedEntry boot mftRuns record (count * boot.fileRecordSize)).1))) :
    st'.ledger.isComplete = true → initial = true ∧ ∀ recordNo < count + 1,
      ∃ bytes, raws recordNo = some bytes ∧ (isZeroed bytes = true ∨
        ∃ record, parseFileRecord bytes boot.bytesPerSector = .ok record ∧
          (Retains record recordNo →
            (parsedEntry boot mftRuns record (recordNo * boot.fileRecordSize)).2 = true ∧
            st'.entries.get? recordNo =
              some (parsedEntry boot mftRuns record (recordNo * boot.fileRecordSize)).1)) := by
  intro hcomplete
  obtain ⟨hinitial, hbefore⟩ := h.complete (hmono hcomplete)
  refine ⟨hinitial, fun recordNo hlt => ?_⟩
  -- the earlier records are as before, the last one is `hlast`
  by_cases hlast_no : recordNo = count
  · subst hlast_no; exact hlast hcomplete
  · rw [hsame recordNo (by omega)]
    exact hbefore recordNo (by omega)

/-- One more record. -/
theorem PassInv.step {initial : Bool} {count : Nat} {st st' : MftState}
    (h : PassInv boot mftRuns raws initial count st)
    (hstep : RecordStep boot mftRuns (raws count) count st st') :
    PassInv boot mftRuns raws initial (count + 1) st' := by
  have hlt : ∀ i, i < count → i < count + 1 := fun i hi => Nat.lt_succ_of_lt hi
  have hentries : ∀ recordNo entry, st.entries.get? recordNo = some entry →
      recordNo < count + 1 ∧
      ∃ bytes record, ParsedFrom boot mftRuns raws recordNo bytes record entry :=
    fun recordNo entry he => ⟨hlt _ (h.entries recordNo entry he).1, (h.entries _ _ he).2⟩
  have hrefs : ∀ baseRecord exts, st.extensionData.get? baseRecord = some exts →
      exts.Pairwise (· < ·) ∧ ∀ extNo ∈ exts, extNo < count + 1 ∧
        ∃ bytes record, ExtensionOf boot raws extNo baseRecord bytes record :=
    fun baseRecord exts he => ⟨(h.references _ _ he).1, fun extNo hx =>
      ⟨hlt _ ((h.references _ _ he).2 extNo hx).1, ((h.references _ _ he).2 extNo hx).2⟩⟩
  -- one case for each thing `deliver_record` can do
  cases hstep with
  | dropped he hr hincomplete =>
    refine ⟨by rw [he]; exact hentries, by rw [hr]; exact hrefs, fun hcomplete => ?_⟩
    rw [hincomplete] at hcomplete
    cases hcomplete
  | blank bytes hraw hzero hst =>
    subst hst
    exact ⟨hentries, hrefs, h.complete_succ id (fun _ _ => rfl) fun _ =>
      ⟨bytes, hraw, .inl hzero⟩⟩
  | ignored bytes record hraw hrecord hretains _ hst =>
    subst hst
    exact ⟨hentries, hrefs, h.complete_succ id (fun _ _ => rfl) fun _ =>
      ⟨bytes, hraw, .inr ⟨record, hrecord, fun hr => absurd hr hretains⟩⟩⟩
  | extension bytes record hraw hrecord hbase hfree he hr hcomplete =>
    refine ⟨by rw [he]; exact hentries, ?_, h.complete_succ (by rw [hcomplete]; exact id)
      (by rw [he]; exact fun _ _ => rfl) fun _ => ⟨bytes, hraw, .inr ⟨record, hrecord,
        fun hretains => absurd hretains.1 hbase⟩⟩⟩
    intro baseRecord exts hget
    rw [hr, RecordMap.get?_insert] at hget
    split at hget
    · -- the new reference comes after all earlier ones
      next hbase_eq =>
      cases hget
      have hold : ((st.extensionData.get? record.baseRecord).getD []).Pairwise (· < ·) ∧
          ∀ extNo ∈ (st.extensionData.get? record.baseRecord).getD [], extNo < count ∧
            ∃ bytes record', ExtensionOf boot raws extNo record.baseRecord bytes record' := by
        cases hold : st.extensionData.get? record.baseRecord with
        | none => simp
        | some exts => exact h.references _ _ hold
      refine ⟨List.pairwise_append.mpr ⟨hold.1, List.pairwise_singleton _ _, ?_⟩, ?_⟩
      · intro a ha b hb
        rw [List.mem_singleton.mp hb]
        exact (hold.2 a ha).1
      · intro extNo hext
        rcases List.mem_append.mp hext with hext | hext
        · rw [hbase_eq]
          exact ⟨hlt _ (hold.2 extNo hext).1, (hold.2 extNo hext).2⟩
        · rw [List.mem_singleton.mp hext]
          exact ⟨Nat.lt_succ_self _, bytes, record, hraw, hrecord, hbase_eq.symm,
            by rw [hbase_eq]; exact hbase, hfree⟩
    · exact hrefs baseRecord exts hget
  | retained bytes record hraw hrecord hretains he hr hcomplete =>
    refine ⟨?_, by rw [hr]; exact hrefs, h.complete_succ ?_ ?_ ?_⟩
    · intro recordNo entry hget
      rw [he, RecordMap.get?_insert] at hget
      split at hget
      · next hno =>
        subst hno
        cases hget
        exact ⟨Nat.lt_succ_self _, bytes, record, hraw, hrecord, hretains, rfl⟩
      · exact hentries recordNo entry hget
    · rw [hcomplete, Bool.and_eq_true]
      exact fun h => h.1
    · intro recordNo hno
      rw [he, RecordMap.get?_insert, if_neg (by omega)]
    · intro hdone
      rw [hcomplete, Bool.and_eq_true] at hdone
      exact ⟨bytes, hraw, .inr ⟨record, hrecord, fun _ => ⟨hdone.2, by
        rw [he, RecordMap.get?_insert, if_pos rfl]⟩⟩⟩

/-- Pass 1 over the records below `count`. -/
theorem deliverRecords_inv (count : Nat) (st : MftState) (hentries : st.entries = .empty)
    (hrefs : st.extensionData = .empty) :
    PassInv boot mftRuns raws st.ledger.isComplete count
      (deliverRecords boot mftRuns raws 0 count st) := by
  induction count with
  | zero =>
    constructor
    · intro recordNo entry h
      simp [deliverRecords, hentries] at h
    · intro baseRecord exts h
      simp [deliverRecords, hrefs] at h
    · intro h
      exact ⟨h, fun _ hlt => absurd hlt (Nat.not_lt_zero _)⟩
  | succ count ih =>
    rw [deliverRecords_add]
    have hone : ∀ st', deliverRecords boot mftRuns raws (0 + count) 1 st' =
        deliverRecord boot mftRuns raws st' count := by
      intro st'; simp [deliverRecords]
    rw [hone]
    exact ih.step (deliverRecord_step boot mftRuns raws _ count)

/-! ## Pass 2 -/

/-- The two states hold the same records, and nothing became complete. -/
structure SameRecords (st st' : MftState) : Prop where
  entries : st'.entries = st.entries
  references : st'.extensionData = st.extensionData
  isComplete : st'.ledger.isComplete = true → st.ledger.isComplete = true

theorem SameRecords.refl (st : MftState) : SameRecords st st := ⟨rfl, rfl, id⟩

theorem SameRecords.trans {st st' st'' : MftState} (h : SameRecords st st')
    (h' : SameRecords st' st'') : SameRecords st st'' :=
  ⟨h'.entries.trans h.entries, h'.references.trans h.references,
    fun hc => h.isComplete (h'.isComplete hc)⟩

theorem sameRecords_markIncomplete (st : MftState) (warning : NtfsWarning) :
    SameRecords st (st.markIncomplete warning) :=
  ⟨rfl, rfl, fun h => by simp at h⟩

/-- Record `recordNo` of the MFT, when it can be read alone and parsed. -/
def mftRecord (reader : SourceReader) (boot : NtfsBoot) (mftRuns : List RunElement)
    (recordNo : Nat) : Option FileRecord :=
  (recordRaw reader boot mftRuns recordNo).bind fun bytes =>
    (parseFileRecord bytes boot.bytesPerSector).toOption

/-- The attributes pass 2 finds in the extension record `extNo`. -/
def extensionAttributes (reader : SourceReader) (boot : NtfsBoot) (mftRuns : List RunElement)
    (extNo : Nat) : List Attribute :=
  (mftRecord reader boot mftRuns extNo).elim [] fun record => (iterAttributes record).1

/-- The streams pass 2 finds in the extension record `extNo`. -/
def extensionStreams (reader : SourceReader) (boot : NtfsBoot) (mftRuns : List RunElement)
    (extNo : Nat) : List DataStream :=
  (extractDataStreams boot.totalClusters (extensionAttributes reader boot mftRuns extNo)).1

/-- What a step of the merge pass may do, when it should append `streams`. -/
def MergeStep.Appends (st : MftState) (extra streams : List DataStream) :
    MergeStep (MftState × List DataStream) → Prop
  | .next (st', extra') => SameRecords st st' ∧ extra' = extra ++ streams
  | .stop st' => SameRecords st st' ∧ st'.ledger.isComplete = false

theorem MftLedger.admitExtensionStreams_cases (l : MftLedger) (count runElementCount : Nat) :
    (∃ l', l.admitExtensionStreams count runElementCount = (true, l') ∧
      l'.isComplete = l.isComplete) ∨
    (∃ l', l.admitExtensionStreams count runElementCount = (false, l') ∧
      l'.isComplete = false) := by
  simp only [admitExtensionStreams]
  split
  · exact .inr ⟨_, rfl, refuse_isComplete ..⟩
  · split
    · exact .inr ⟨_, rfl, refuse_isComplete ..⟩
    · split
      · split
        · exact .inr ⟨_, rfl, refuse_isComplete ..⟩
        · exact .inl ⟨_, rfl, rfl⟩
      · exact .inr ⟨_, rfl, refuse_isComplete ..⟩

theorem mergeExtensionRecord_appends (extNo : Nat) (record : FileRecord) (st : MftState)
    (extra : List DataStream) :
    MergeStep.Appends st extra
      (extractDataStreams boot.totalClusters (iterAttributes record).1).1
      (mergeExtensionRecord boot extNo record st extra) := by
  simp only [mergeExtensionRecord]
  generalize extractDataStreams boot.totalClusters (iterAttributes record).1 = extracted
  -- incomplete attributes and unusable streams mark the pass, they drop no record
  generalize hst₁ : (if (iterAttributes record).2 = true then st
    else st.markIncomplete (.extensionIncomplete extNo)) = st₁
  have hsame₁ : SameRecords st st₁ := by
    rw [← hst₁]
    split
    · exact SameRecords.refl st
    · exact sameRecords_markIncomplete st _
  generalize hst₂ : (if extracted.2.isEmpty = true then st₁
    else st₁.markIncomplete (.extensionUnusableStreams extNo)) = st₂
  have hsame₂ : SameRecords st st₂ := by
    rw [← hst₂]
    split
    · exact hsame₁
    · exact hsame₁.trans (sameRecords_markIncomplete st₁ _)
  split
  · have hincomplete : st₂.ledger.noteEntryEvidenceLimit.isComplete = false :=
      MftLedger.refuse_isComplete ..
    exact ⟨hsame₂.trans ⟨rfl, rfl, fun h => by simp [hincomplete] at h⟩, hincomplete⟩
  · next runElementCount _ =>
    -- refused streams end the merge, admitted ones are appended in order
    rcases st₂.ledger.admitExtensionStreams_cases extracted.1.length runElementCount with
      ⟨l', h, hl⟩ | ⟨l', h, hl⟩
    · simp only [h, if_true]
      exact ⟨hsame₂.trans ⟨rfl, rfl, fun hc => by rw [← hl]; exact hc⟩, rfl⟩
    · simp only [h, Bool.false_eq_true, if_false]
      exact ⟨hsame₂.trans ⟨rfl, rfl, fun hc => by simp [hl] at hc⟩, hl⟩

theorem mergeExtension_appends {extNo : Nat} (hext : extNo * boot.fileRecordSize < 2 ^ 64)
    (st : MftState) (extra : List DataStream) :
    MergeStep.Appends st extra (extensionStreams reader boot mftRuns extNo)
      (mergeExtension reader boot mftRuns extNo st extra) := by
  simp only [mergeExtension, U64.checkedMul_of_lt hext, extensionStreams, extensionAttributes,
    mftRecord, recordRaw]
  cases readStreamRange reader mftRuns boot.clusterSize (extNo * boot.fileRecordSize)
      boot.fileRecordSize with
  | error e =>
    exact ⟨sameRecords_markIncomplete st _, by simp [Except.toOption, extractDataStreams]⟩
  | ok bytes =>
    simp only [Except.toOption, Option.bind_some]
    cases parseFileRecord bytes boot.bytesPerSector with
    | error e => exact ⟨sameRecords_markIncomplete st _, by simp [extractDataStreams]⟩
    | ok record => exact mergeExtensionRecord_appends extNo record st extra

theorem mergeExtensions_appends {exts : List Nat}
    (hexts : ∀ extNo ∈ exts, extNo * boot.fileRecordSize < 2 ^ 64) (st : MftState)
    (extra : List DataStream) :
    MergeStep.Appends st extra (exts.flatMap (extensionStreams reader boot mftRuns))
      (mergeExtensions reader boot mftRuns exts st extra) := by
  induction exts generalizing st extra with
  | nil => exact ⟨SameRecords.refl st, by simp⟩
  | cons extNo exts ih =>
    have hstep := @mergeExtension_appends reader boot mftRuns extNo
      (hexts extNo List.mem_cons_self) st extra
    simp only [mergeExtensions]
    -- a stop skips the remaining extension records
    cases hresult : mergeExtension reader boot mftRuns extNo st extra with
    | stop st' =>
      rw [hresult] at hstep
      exact hstep
    | next result =>
      obtain ⟨st', extra'⟩ := result
      rw [hresult] at hstep
      obtain ⟨hsame, rfl⟩ := hstep
      have hrest := ih (fun x hx => hexts x (List.mem_cons_of_mem extNo hx)) st'
        (extra ++ extensionStreams reader boot mftRuns extNo)
      simp only
      cases hmerge : mergeExtensions reader boot mftRuns exts st'
        (extra ++ extensionStreams reader boot mftRuns extNo) with
      | stop st'' =>
        rw [hmerge] at hrest
        exact ⟨hsame.trans hrest.1, hrest.2⟩
      | next result' =>
        rw [hmerge] at hrest
        exact ⟨hsame.trans hrest.1, by rw [hrest.2, List.flatMap_cons, List.append_assoc]⟩

/-- The entry pass 2 makes of `entry`, when it gets to it. -/
def mergedEntry (reader : SourceReader) (boot : NtfsBoot) (mftRuns : List RunElement)
    (exts : List Nat) (entry : ParsedEntry) : ParsedEntry :=
  { entry with
    streams := entry.streams ++ exts.flatMap (extensionStreams reader boot mftRuns) }

/-- What pass 2 may do to the state: an entry stays, or gets the streams of its
    extension records. -/
structure Merged (reader : SourceReader) (boot : NtfsBoot) (mftRuns : List RunElement)
    (targets : List Nat) (st st' : MftState) : Prop where
  references : st'.extensionData = st.extensionData
  isComplete : st'.ledger.isComplete = true → st.ledger.isComplete = true
  get? : ∀ recordNo, st'.entries.get? recordNo = st.entries.get? recordNo ∨
    recordNo ∈ targets ∧ st'.entries.get? recordNo = (st.entries.get? recordNo).map
      (mergedEntry reader boot mftRuns ((st.extensionData.get? recordNo).getD []))

theorem mergeTargetsFrom_merged {targets : List Nat} (hnodup : targets.Nodup) {st : MftState}
    (hexts : ∀ baseRecord exts, st.extensionData.get? baseRecord = some exts →
      ∀ extNo ∈ exts, extNo * boot.fileRecordSize < 2 ^ 64) :
    Merged reader boot mftRuns targets st (mergeTargetsFrom reader boot mftRuns targets st) := by
  -- on the targets; each is merged once, as they are distinct
  induction targets generalizing st with
  | nil => exact ⟨rfl, id, fun _ => .inl rfl⟩
  | cons target targets ih =>
    obtain ⟨hnot, hrest⟩ := List.nodup_cons.mp hnodup
    have hbounds : ∀ extNo ∈ (st.extensionData.get? target).getD [],
        extNo * boot.fileRecordSize < 2 ^ 64 := by
      cases hget : st.extensionData.get? target with
      | none => simp
      | some exts => exact hexts target exts hget
    have happends := @mergeExtensions_appends reader boot mftRuns _ hbounds st []
    simp only [mergeTargetsFrom, mergeTarget]
    -- a stopped target keeps its entry, and so do all later ones
    cases hresult : mergeExtensions reader boot mftRuns
      ((st.extensionData.get? target).getD []) st [] with
    | stop st' =>
      rw [hresult] at happends
      obtain ⟨hsame, _⟩ := happends
      exact ⟨hsame.references, hsame.isComplete, fun _ => .inl (by rw [hsame.entries])⟩
    | next result =>
      obtain ⟨st', extra⟩ := result
      rw [hresult] at happends
      obtain ⟨hsame, rfl⟩ := happends
      simp only [List.nil_append]
      let exts := (st.extensionData.get? target).getD []
      let merged : MftState :=
        { st' with
          entries := st'.entries.modify target (mergedEntry reader boot mftRuns exts) }
      have hmerged : Merged reader boot mftRuns targets merged
          (mergeTargetsFrom reader boot mftRuns targets merged) :=
        ih hrest (by simp only [merged, hsame.references]; exact hexts)
      change Merged reader boot mftRuns (target :: targets) st
        (mergeTargetsFrom reader boot mftRuns targets merged)
      refine ⟨hmerged.references.trans hsame.references,
        fun h => hsame.isComplete (hmerged.isComplete h), fun recordNo => ?_⟩
      have hget := hmerged.get? recordNo
      have hfirst : merged.entries.get? recordNo =
          if recordNo = target then (st.entries.get? recordNo).map
            (mergedEntry reader boot mftRuns exts)
          else st.entries.get? recordNo := by
        simp only [merged, RecordMap.get?_modify, hsame.entries]
      have hrefs : merged.extensionData = st.extensionData := hsame.references
      rw [hfirst, hrefs] at hget
      -- the target was merged here, every other record by the rest
      by_cases hno : recordNo = target
      · subst hno
        rw [if_pos rfl] at hget
        rcases hget with hget | ⟨hmem, _⟩
        · exact .inr ⟨List.mem_cons_self, hget⟩
        · exact absurd hmem hnot
      · rw [if_neg hno] at hget
        rcases hget with hget | ⟨hmem, hget⟩
        · exact .inl hget
        · exact .inr ⟨List.mem_cons_of_mem target hmem, hget⟩

theorem nodup_mergeTargets (st : MftState) : (mergeTargets st).Nodup :=
  (List.perm_insertionSort _ _).nodup_iff.mpr (st.extensionData.nodup.filter _)

theorem mem_mergeTargets {st : MftState} {recordNo : Nat} :
    recordNo ∈ mergeTargets st ↔ (∃ exts, st.extensionData.get? recordNo = some exts) ∧
      ∃ entry, st.entries.get? recordNo = some entry ∧ dependsOnAttributeList entry = true := by
  simp only [mergeTargets, List.mem_insertionSort, List.mem_filter, RecordMap.mem_keys_iff,
    Option.any_eq_true]

theorem mergePass_merged {st : MftState}
    (hexts : ∀ baseRecord exts, st.extensionData.get? baseRecord = some exts →
      ∀ extNo ∈ exts, extNo * boot.fileRecordSize < 2 ^ 64) :
    Merged reader boot mftRuns (mergeTargets st) st (mergePass reader boot mftRuns st) :=
  mergeTargetsFrom_merged (nodup_mergeTargets st) hexts

/-! ## The records of a scan -/

/-- What the first pass of a scan delivers for a record. -/
def scanRaw (reader : SourceReader) (plan : ScanPlan) : Nat → Option Bytes :=
  passRaw reader plan.boot plan.mft.runs plan.recordCount
    (recordsPerBatch plan.boot.fileRecordSize)

/-- The state between the two passes. -/
def passedState (reader : SourceReader) (plan : ScanPlan) : MftState :=
  deliverRecords plan.boot plan.mft.runs (scanRaw reader plan) 0 plan.recordCount
    (initialMftState plan)

theorem recordsPerBatch_pos (recordSize : Nat) : 0 < recordsPerBatch recordSize := by
  simp only [recordsPerBatch]; omega

theorem passedState_inv (reader : SourceReader) (plan : ScanPlan) :
    PassInv plan.boot plan.mft.runs (scanRaw reader plan) plan.isComplete plan.recordCount
      (passedState reader plan) :=
  deliverRecords_inv plan.recordCount (initialMftState plan) rfl rfl

/-- The references that pass 1 kept point into the MFT. -/
theorem passedState_extensions_lt {plan : ScanPlan} (hplan : planScan reader = .ok plan)
    (baseRecord : Nat) (exts : List Nat)
    (hget : (passedState reader plan).extensionData.get? baseRecord = some exts) :
    ∀ extNo ∈ exts, extNo * plan.boot.fileRecordSize < 2 ^ 64 := by
  intro extNo hext
  have hlt := (((passedState_inv reader plan).references baseRecord exts hget).2 extNo hext).1
  exact Nat.lt_of_le_of_lt (Nat.mul_le_mul_right _ (Nat.le_of_lt hlt))
    (planScan_ok hplan).recordCount_lt

theorem scanRecords_eq {plan : ScanPlan} (hplan : planScan reader = .ok plan) :
    scanRecords reader plan =
      .ok (mergePass reader plan.boot plan.mft.runs (passedState reader plan)) := by
  have hok := planScan_ok hplan
  rw [scanRecords, mftPass_eq_deliverRecords (recordsPerBatch_pos _) hok.recordCount_lt
    hok.recordSize_pos]
  rfl

/-- Every retained entry was parsed from a delivered record; pass 2 may have appended the
    streams of its extension records. -/
theorem scanRecords_get? {plan : ScanPlan} {st : MftState} (hplan : planScan reader = .ok plan)
    (hscan : scanRecords reader plan = .ok st) {recordNo : Nat} {entry : ParsedEntry}
    (hentry : st.entries.get? recordNo = some entry) :
    recordNo < plan.recordCount ∧ ∃ bytes record parsed,
      ParsedFrom plan.boot plan.mft.runs (scanRaw reader plan) recordNo bytes record parsed ∧
      (entry = parsed ∨ dependsOnAttributeList parsed = true ∧
        ∃ exts, (passedState reader plan).extensionData.get? recordNo = some exts ∧
          entry = mergedEntry reader plan.boot plan.mft.runs exts parsed) := by
  have hinv := passedState_inv reader plan
  rw [scanRecords_eq hplan] at hscan
  cases hscan
  rcases (@mergePass_merged reader plan.boot plan.mft.runs _
      (passedState_extensions_lt hplan)).get? recordNo with
    hget | ⟨htarget, hget⟩
  · rw [hget] at hentry
    obtain ⟨hlt, bytes, record, hparsed⟩ := hinv.entries recordNo entry hentry
    exact ⟨hlt, bytes, record, entry, hparsed, .inl rfl⟩
  · obtain ⟨⟨exts, hrefs⟩, parsed, hentry', hdepends⟩ := mem_mergeTargets.mp htarget
    rw [hget, hentry', hrefs] at hentry
    cases hentry
    obtain ⟨hlt, bytes, record, hparsed⟩ := hinv.entries recordNo parsed hentry'
    exact ⟨hlt, bytes, record, parsed, hparsed, .inr ⟨hdepends, exts, hrefs, rfl⟩⟩

end Undelete.Ntfs
