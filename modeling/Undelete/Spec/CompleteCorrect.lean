import Mathlib.Data.List.ReduceOption
import Undelete.Spec.CandidateCorrect
import Undelete.Spec.NamespaceCorrect
import Undelete.Spec.StateCorrect

/-!
# Scans that count as complete

A complete scan has read and parsed every record of the MFT. What the records say about
their files is retained as well, except where a run list is rejected in a base record and
where an extension record belongs to a base record without an attribute list.

## Key results

- `iterAttributes_complete`: a record without malformed attributes.
- `parsedEntry_complete`: what such a record leaves in its entry.
- `scanNtfs_complete_iff`: when a complete scan has retained everything.
-/

namespace Undelete.Ntfs

open Except

/-! ## Records without malformed attributes -/

theorem attributesFrom_complete {data : Bytes} {fuel fuel' pos : Nat} {complete : Bool}
    (h : (attributesFrom data fuel pos complete).2 = true) (hfuel : data.length ≤ pos + fuel') :
    complete = true ∧ attributeHeadersFrom data fuel' pos =
      (attributesFrom data fuel pos complete).1.map fun a => ⟨a.typeId, a.name, some a⟩ := by
  induction fuel generalizing pos complete fuel' with
  | zero => cases h
  | succ fuel ih =>
    simp only [attributesFrom] at h ⊢
    split at h
    · cases h
    · next typeId htype =>
      obtain ⟨_, hrange, _⟩ := Bytes.getRange?_eq_some.mp
        (Option.map_eq_some_iff.mp htype).choose_spec.1
      obtain ⟨fuel', rfl⟩ : ∃ k, fuel' = k + 1 := ⟨fuel' - 1, by omega⟩
      split at h
      · next hend =>
        simp only [attributeHeadersFrom, htype, if_pos hend, List.map_nil]
        exact ⟨h, trivial⟩
      · next hend =>
        split at h
        · cases h
        · next attrLen hlen =>
          split at h
          · cases h
          · next hbounds =>
            simp only [attributeHeadersFrom, htype, if_neg hend, hlen, Option.getD_some,
              if_neg hbounds]
            split at h
            · obtain ⟨hfalse, _⟩ := @ih fuel' _ _ h (by omega)
              cases hfalse
            · next body hbody =>
              obtain ⟨hcomplete, hrest⟩ := @ih fuel' _ _ h (by omega)
              rw [Bool.and_eq_true] at hcomplete
              exact ⟨hcomplete.1, by rw [hbody, hrest]; rfl⟩

/-- A record counts as complete when every attribute header belongs to an attribute. -/
theorem iterAttributes_complete {record : FileRecord} (h : (iterAttributes record).2 = true) :
    attributeHeaders record =
      (iterAttributes record).1.map fun a => ⟨a.typeId, a.name, some a⟩ :=
  (attributesFrom_complete h (Nat.le_add_left _ _)).2

/-! ## What a complete record leaves in its entry -/

/-- A step of the attribute loop that keeps the draft complete. -/
theorem EntryDraft.add_complete {d : EntryDraft} {a : Attribute}
    (h : (d.add a).complete = true) :
    d.complete = true ∧ (d.add a).warnings = d.warnings ∧
      (d.add a).names.map some =
        d.names.map some ++ if a.typeId = attrFileName then [a.fileName] else [] := by
  simp only [add] at h ⊢
  split
  · next hinfo =>
    rw [if_pos hinfo] at h
    have hname : a.typeId ≠ attrFileName := by rw [hinfo]; decide
    rw [if_neg hname, List.append_nil]
    split at h
    · split at h
      · exact ⟨h, rfl, rfl⟩
      · cases h
    · cases h
  · next hinfo =>
    rw [if_neg hinfo] at h
    split
    · next hname =>
      rw [if_pos hname] at h
      split at h
      · next value _ hbody =>
        split at h
        · next name hparse =>
          refine ⟨h, rfl, ?_⟩
          simp [Attribute.fileName, hbody, hparse]
        · cases h
      · cases h
    · next hname =>
      rw [if_neg hname] at h
      rw [List.append_nil]
      split at h
      · split at h <;> cases h
      · next hlist =>
        rw [if_neg hlist]
        exact ⟨h, rfl, rfl⟩

theorem EntryDraft.foldl_complete {attrs : List Attribute} {d : EntryDraft}
    (h : (attrs.foldl EntryDraft.add d).complete = true) :
    d.complete = true ∧ (attrs.foldl EntryDraft.add d).warnings = d.warnings ∧
      (attrs.foldl EntryDraft.add d).names.map some =
        d.names.map some ++ (attrs.filter (·.typeId = attrFileName)).map Attribute.fileName := by
  induction attrs generalizing d with
  | nil => exact ⟨h, rfl, by simp⟩
  | cons a attrs ih =>
    rw [List.foldl_cons] at h ⊢
    obtain ⟨hcomplete, hwarnings, hnames⟩ := ih h
    obtain ⟨hcomplete', hwarnings', hnames'⟩ := add_complete hcomplete
    refine ⟨hcomplete', hwarnings.trans hwarnings', ?_⟩
    rw [hnames, hnames', List.filter_cons, List.append_assoc]
    by_cases hname : a.typeId = attrFileName <;> simp [hname]

/-- Rejected run lists do not look like an attribute list. -/
theorem malformedRunlist_startsWith (e : RunlistError) :
    (NtfsWarning.malformedRunlist e).startsWithHasAttributeList = false := by
  have hlist : "has attribute list".toList = 'h' :: "as attribute list".toList := by decide
  have hrunlist : "malformed runlist ignored: ".toList =
    'm' :: "alformed runlist ignored: ".toList := by decide
  change "has attribute list".toList.isPrefixOf
    ("malformed runlist ignored: " ++ e.text).toList = false
  rw [String.toList_append, hlist, hrunlist, List.cons_append, List.isPrefixOf_cons_cons]
  rfl

theorem extractDataStreams_warnings {totalClusters : Nat} {attrs : List Attribute} :
    ∀ w ∈ (extractDataStreams totalClusters attrs).2, w.startsWithHasAttributeList = false := by
  induction attrs with
  | nil => simp [extractDataStreams]
  | cons a attrs ih =>
    rw [extractDataStreams_cons]
    split
    · exact ih
    · split
      · exact ih
      · intro w hw
        rcases List.mem_cons.mp hw with rfl | hw
        · exact malformedRunlist_startsWith _
        · exact ih w hw

/-- The names a list of headers shows, malformed ones included as `none`. -/
def headerNames (headers : List AttributeHeader) : List (Option FileNameAttr) :=
  (headers.filter (·.typeId = attrFileName)).map AttributeHeader.fileName

/-- The streams a list of headers shows, unusable ones included as `none`. -/
def headerStreams (totalClusters : Nat) (headers : List AttributeHeader) :
    List (Option DataStream) :=
  (headers.filter (·.typeId = attrData)).map (AttributeHeader.dataStream totalClusters)

theorem filter_headers (typeId : Nat) (attrs : List Attribute) :
    (attrs.map fun a => (⟨a.typeId, a.name, some a⟩ : AttributeHeader)).filter
        (·.typeId = typeId) =
      (attrs.filter (·.typeId = typeId)).map fun a => ⟨a.typeId, a.name, some a⟩ := by
  rw [List.filter_map]
  rfl

/-- The entry of a complete record holds all its names and its usable streams, and does not
    depend on an attribute list. -/
theorem parsedEntry_complete {boot : NtfsBoot} {mftRuns : List RunElement} {record : FileRecord}
    {logicalOffset : Nat} (h : (parsedEntry boot mftRuns record logicalOffset).2 = true) :
    (parsedEntry boot mftRuns record logicalOffset).1.names.map some =
      headerNames (attributeHeaders record) ∧
    (parsedEntry boot mftRuns record logicalOffset).1.streams =
      (headerStreams boot.totalClusters (attributeHeaders record)).reduceOption ∧
    dependsOnAttributeList (parsedEntry boot mftRuns record logicalOffset).1 = false := by
  have hdraft : ((iterAttributes record).1.foldl EntryDraft.add
      ⟨[], {}, (iterAttributes record).2, []⟩).complete = true := h
  obtain ⟨hcomplete, hwarnings, hnames⟩ := EntryDraft.foldl_complete hdraft
  rw [iterAttributes_complete hcomplete]
  refine ⟨?_, ?_, ?_⟩
  · rw [headerNames, filter_headers, List.map_map]
    exact hnames
  · rw [headerStreams, filter_headers, List.map_map, List.reduceOption, List.filterMap_map]
    exact extractDataStreams_eq _
  · have hentry : (parsedEntry boot mftRuns record logicalOffset).1.warnings =
        (extractDataStreams boot.totalClusters (iterAttributes record).1).2 := by
      simp only [parsedEntry, parseEntry, hwarnings, List.nil_append]
    rw [dependsOnAttributeList, hentry, List.any_eq_false]
    intro w hw
    rw [extractDataStreams_warnings w hw]
    exact Bool.false_ne_true

/-! ## What a complete scan has seen -/

/-- Record `recordNo` as pass 1 got it. -/
def scanRecord (reader : SourceReader) (plan : ScanPlan) (recordNo : Nat) : Option FileRecord :=
  (scanRaw reader plan recordNo).bind fun bytes =>
    (parseFileRecord bytes plan.boot.bytesPerSector).toOption

/-- The attribute headers of the extension records that reference record `recordNo`. -/
def extensionHeaders (reader : SourceReader) (plan : ScanPlan) (recordNo : Nat) :
    List AttributeHeader :=
  (List.range plan.recordCount).flatMap fun extNo =>
    match scanRecord reader plan extNo with
    | none => []
    | some record =>
      if record.baseRecord ≠ 0 ∧ record.baseRecord = recordNo then attributeHeaders record else []

/-- The base records whose evidence a scan should retain. -/
structure Relevant (reader : SourceReader) (plan : ScanPlan) (recordNo : Nat)
    (record : FileRecord) : Prop where
  lt : recordNo < plan.recordCount
  get : scanRecord reader plan recordNo = some record
  retains : Retains record recordNo

/-- The entry holds every name and every stream that the base record and its extension
    records show. -/
def HoldsAll (reader : SourceReader) (plan : ScanPlan) (recordNo : Nat) (record : FileRecord)
    (entry : ParsedEntry) : Prop :=
  let headers := attributeHeaders record ++ extensionHeaders reader plan recordNo
  entry.names.map some = headerNames headers ∧
    entry.streams.map some = headerStreams plan.boot.totalClusters headers

/-- Every record of the declared MFT was read and, unless it is blank, parsed, and nothing
    that the relevant records show was dropped. -/
structure Exhaustive (reader : SourceReader) (plan : ScanPlan) (entries : RecordMap ParsedEntry) :
    Prop where
  declared : plan.recordCount * plan.boot.fileRecordSize = plan.mft.dataSize
  read : ∀ recordNo < plan.recordCount, ∃ bytes, scanRaw reader plan recordNo = some bytes ∧
    (isZeroed bytes = true ∨ ∃ record, scanRecord reader plan recordNo = some record)
  retained : ∀ recordNo record, Relevant reader plan recordNo record →
    ∃ entry, entries.get? recordNo = some entry ∧ HoldsAll reader plan recordNo record entry

/-- No relevant base record has a `$DATA` attribute that is no stream, and none is referenced
    by an extension record that holds names or data. -/
structure Unfragmented (reader : SourceReader) (plan : ScanPlan) : Prop where
  usable : ∀ recordNo record, Relevant reader plan recordNo record →
    ∀ h ∈ attributeHeaders record, h.typeId = attrData →
      h.usable plan.boot.totalClusters = true
  noExtension : ∀ recordNo record, Relevant reader plan recordNo record →
    ∀ h ∈ extensionHeaders reader plan recordNo,
      h.typeId ≠ attrFileName ∧ h.typeId ≠ attrData

variable {reader : SourceReader} {plan : ScanPlan} {st : MftState} {recordNo : Nat}
  {record : FileRecord}

/-- Between the passes of a complete scan, the relevant records have the entries that
    `parse_entry` made of them. -/
theorem passedState_complete (h : (passedState reader plan).ledger.isComplete = true)
    (hrelevant : Relevant reader plan recordNo record) :
    (parsedEntry plan.boot plan.mft.runs record (recordNo * plan.boot.fileRecordSize)).2 = true ∧
    (passedState reader plan).entries.get? recordNo =
      some (parsedEntry plan.boot plan.mft.runs record
        (recordNo * plan.boot.fileRecordSize)).1 := by
  obtain ⟨bytes, hraw, hparsed⟩ :=
    ((passedState_inv reader plan).complete h).2 recordNo hrelevant.lt
  have hget := hrelevant.get
  rw [scanRecord, hraw, Option.bind_some, toOption_eq_some] at hget
  rcases hparsed with hzero | ⟨record', hrecord', hretained⟩
  · rw [parseFileRecord_isZeroed hzero] at hget
    cases hget
  · obtain rfl := ok.inj (hget.symm.trans hrecord')
    exact hretained hrelevant.retains

/-- In a complete scan no entry depends on an attribute list, so pass 2 has no target. -/
theorem mergeTargets_complete (h : (passedState reader plan).ledger.isComplete = true) :
    mergeTargets (passedState reader plan) = [] := by
  refine List.eq_nil_iff_forall_not_mem.mpr fun recordNo htarget => ?_
  obtain ⟨_, entry, hentry, hdepends⟩ := mem_mergeTargets.mp htarget
  obtain ⟨hlt, bytes, record, hparsed⟩ :=
    (passedState_inv reader plan).entries recordNo entry hentry
  have hrelevant : Relevant reader plan recordNo record :=
    ⟨hlt, by rw [scanRecord, hparsed.raw, Option.bind_some, toOption_eq_some, hparsed.parse],
      hparsed.retains⟩
  obtain ⟨hcomplete, _⟩ := passedState_complete h hrelevant
  rw [hparsed.entry_eq, (parsedEntry_complete hcomplete).2.2] at hdepends
  cases hdepends

/-- What a complete scan knows about its records. -/
theorem scanRecords_complete (hplan : planScan reader = .ok plan)
    (hscan : scanRecords reader plan = .ok st) (h : st.ledger.isComplete = true) :
    st = passedState reader plan ∧ (passedState reader plan).ledger.isComplete = true := by
  have hinv := passedState_inv reader plan
  have hok := planScan_ok hplan
  rw [scanRecords_eq hplan] at hscan
  cases hscan
  have hcomplete := (@mergePass_merged reader plan.boot plan.mft.runs _
    (passedState_extensions_lt hplan)).isComplete h
  rw [mergePass, mergeTargets_complete hcomplete]
  exact ⟨rfl, hcomplete⟩

/-! ## What a complete scan retains -/

/-- Dropping the failures of `xs` gives `xs ++ ys` only if there is nothing to drop. -/
theorem reduceOption_map_some {α : Type} (xs ys : List (Option α)) :
    xs.reduceOption.map some = xs ++ ys ↔ (∀ x ∈ xs, x.isSome = true) ∧ ys = [] := by
  constructor
  · intro h
    have hlen := congrArg List.length h
    have hle := List.reduceOption_length_le xs
    rw [List.length_map, List.length_append] at hlen
    exact ⟨List.reduceOption_length_eq_iff.mp (by omega), List.length_eq_zero_iff.mp (by omega)⟩
  · rintro ⟨h, rfl⟩
    induction xs with
    | nil => rfl
    | cons x xs ih =>
      obtain ⟨hx, hxs⟩ := List.forall_mem_cons.mp h
      obtain ⟨a, rfl⟩ := Option.isSome_iff_exists.mp hx
      rw [List.reduceOption_cons_of_some, List.map_cons, ih hxs, List.cons_append]

theorem headerNames_append (headers headers' : List AttributeHeader) :
    headerNames (headers ++ headers') = headerNames headers ++ headerNames headers' := by
  simp only [headerNames, List.filter_append, List.map_append]

theorem headerStreams_append (totalClusters : Nat) (headers headers' : List AttributeHeader) :
    headerStreams totalClusters (headers ++ headers') =
      headerStreams totalClusters headers ++ headerStreams totalClusters headers' := by
  simp only [headerStreams, List.filter_append, List.map_append]

/-- The entry of a complete record holds all there is, unless a `$DATA` attribute of the
    record is no stream or an extension record has something to add. -/
theorem holdsAll_iff {logicalOffset : Nat}
    (h : (parsedEntry plan.boot plan.mft.runs record logicalOffset).2 = true) :
    HoldsAll reader plan recordNo record
        (parsedEntry plan.boot plan.mft.runs record logicalOffset).1 ↔
      (∀ h ∈ attributeHeaders record, h.typeId = attrData →
        h.usable plan.boot.totalClusters = true) ∧
      ∀ h ∈ extensionHeaders reader plan recordNo,
        h.typeId ≠ attrFileName ∧ h.typeId ≠ attrData := by
  obtain ⟨hnames, hstreams, _⟩ := parsedEntry_complete h
  simp only [HoldsAll, hnames, hstreams, headerNames_append, headerStreams_append,
    reduceOption_map_some, List.self_eq_append_right]
  simp only [headerNames, headerStreams, List.map_eq_nil_iff, List.filter_eq_nil_iff,
    List.forall_mem_map, List.mem_filter, decide_eq_true_eq, and_imp, AttributeHeader.usable]
  exact ⟨fun ⟨h₁, h₂, h₃⟩ => ⟨h₂, fun x hx => ⟨h₁ x hx, h₃ x hx⟩⟩,
    fun ⟨h₁, h₂⟩ => ⟨fun x hx => (h₂ x hx).1, h₁, fun x hx => (h₂ x hx).2⟩⟩

/-- A scan that counts as complete is exhaustive if and only if every `$DATA` attribute of
    the relevant base records can be turned into a stream and no extension record adds names
    or data to one of them. -/
theorem scanNtfs_complete_iff {out : NtfsScanOutput} (hplan : planScan reader = .ok plan)
    (hscan : scanRecords reader plan = .ok st) (hout : scanNtfs reader = .ok out)
    (hcomplete : out.isComplete = true) :
    Exhaustive reader plan st.entries ↔ Unfragmented reader plan := by
  obtain ⟨plan', st', hplan', hscan', _, hnamespace⟩ := scanNtfs_ok hout
  obtain rfl := ok.inj (hplan.symm.trans hplan')
  obtain rfl := ok.inj (hscan.symm.trans hscan')
  obtain ⟨rfl, hpassed⟩ := scanRecords_complete hplan hscan
    (buildNamespace_isComplete (hnamespace.symm.trans hcomplete))
  have hholds : ∀ {recordNo record}, Relevant reader plan recordNo record →
      ((∃ entry, (passedState reader plan).entries.get? recordNo = some entry ∧
        HoldsAll reader plan recordNo record entry) ↔
      (∀ h ∈ attributeHeaders record, h.typeId = attrData →
        h.usable plan.boot.totalClusters = true) ∧
      ∀ h ∈ extensionHeaders reader plan recordNo,
        h.typeId ≠ attrFileName ∧ h.typeId ≠ attrData) := by
    intro recordNo record hrelevant
    obtain ⟨hparsed, hget⟩ := passedState_complete hpassed hrelevant
    rw [← holdsAll_iff hparsed, hget]
    simp
  constructor
  · intro hexhaustive
    have hall := fun recordNo record hrelevant =>
      (hholds hrelevant).mp (hexhaustive.retained recordNo record hrelevant)
    exact ⟨fun recordNo record hrelevant => (hall recordNo record hrelevant).1,
      fun recordNo record hrelevant => (hall recordNo record hrelevant).2⟩
  · intro hunfragmented
    obtain ⟨hinitial, hread⟩ := (passedState_inv reader plan).complete hpassed
    refine ⟨(planScan_ok hplan).complete hinitial, fun recordNo hlt => ?_,
      fun recordNo record hrelevant => (hholds hrelevant).mpr
        ⟨hunfragmented.usable recordNo record hrelevant,
          hunfragmented.noExtension recordNo record hrelevant⟩⟩
    obtain ⟨bytes, hraw, hparsed⟩ := hread recordNo hlt
    refine ⟨bytes, hraw, hparsed.imp id fun ⟨record, hrecord, _⟩ => ⟨record, ?_⟩⟩
    rw [scanRecord, hraw, Option.bind_some, toOption_eq_some, hrecord]

/-! ## A complete scan that lost a stream -/

theorem lostRunlistVolume_isComplete :
    ∃ plan st out, planScan lostRunlistVolume.toSourceReader = .ok plan ∧
      scanRecords lostRunlistVolume.toSourceReader plan = .ok st ∧
      scanNtfs lostRunlistVolume.toSourceReader = .ok out ∧ out.isComplete = true := by
  have hrun : (scanNtfs lostRunlistVolume.toSourceReader).toOption.any (·.isComplete) = true := by
    decide +kernel
  obtain ⟨out, hout, hcomplete⟩ := (Option.any_eq_true _ _).mp hrun
  obtain ⟨plan, st, hplan, hscan, _⟩ := scanNtfs_ok (toOption_eq_some.mp hout)
  exact ⟨plan, st, out, hplan, hscan, toOption_eq_some.mp hout, hcomplete⟩

/-- The scan is complete, but the stream of record 16 is not among the entries. -/
theorem lostRunlistVolume_notExhaustive :
    ∃ plan st out, planScan lostRunlistVolume.toSourceReader = .ok plan ∧
      scanRecords lostRunlistVolume.toSourceReader plan = .ok st ∧
      scanNtfs lostRunlistVolume.toSourceReader = .ok out ∧ out.isComplete = true ∧
      ¬Exhaustive lostRunlistVolume.toSourceReader plan st.entries := by
  obtain ⟨plan, st, out, hplan, hscan, hout, hcomplete⟩ := lostRunlistVolume_isComplete
  refine ⟨plan, st, out, hplan, hscan, hout, hcomplete, fun hexhaustive => ?_⟩
  have hlost : (planScan lostRunlistVolume.toSourceReader).toOption.any (fun plan =>
      16 < plan.recordCount &&
      ((scanRecord lostRunlistVolume.toSourceReader plan 16).any fun record =>
        record.baseRecord = 0 && !record.inUse &&
          ((attributeHeaders record).any fun h => h.typeId = attrData)) &&
      (scanRecords lostRunlistVolume.toSourceReader plan).toOption.any fun st =>
        (st.entries.get? 16).any fun entry => entry.streams.isEmpty) = true := by
    decide +kernel
  obtain ⟨plan', hplan', hlost⟩ := (Option.any_eq_true _ _).mp hlost
  obtain rfl : plan = plan' := ok.inj (hplan.symm.trans (toOption_eq_some.mp hplan'))
  simp only [Bool.and_eq_true, decide_eq_true_eq, Option.any_eq_true, List.any_eq_true,
    Bool.not_eq_true', toOption_eq_some, List.isEmpty_iff] at hlost
  obtain ⟨⟨hlt, record, hrecord, ⟨hbase, hfree⟩, h, hh, hdata⟩, st', hscan', entry, hentry,
    hempty⟩ := hlost
  obtain rfl := ok.inj (hscan.symm.trans hscan')
  obtain ⟨entry', hentry', _, hstreams⟩ := hexhaustive.retained 16 record
    ⟨hlt, hrecord, hbase, .inr ⟨hfree, by decide⟩⟩
  obtain rfl := Option.some.inj (hentry.symm.trans hentry')
  -- the attribute is shown, but there is no stream
  rw [hempty, List.map_nil, eq_comm, headerStreams, List.map_eq_nil_iff,
    List.filter_eq_nil_iff] at hstreams
  exact hstreams h (List.mem_append_left _ hh) (by simpa using hdata)

theorem scanNtfs_complete_iff_lostRunlist :
    ∃ plan st, planScan lostRunlistVolume.toSourceReader = .ok plan ∧
      scanRecords lostRunlistVolume.toSourceReader plan = .ok st ∧
      (Exhaustive lostRunlistVolume.toSourceReader plan st.entries ↔
        Unfragmented lostRunlistVolume.toSourceReader plan) := by
  obtain ⟨plan, st, out, hplan, hscan, hout, hcomplete⟩ := lostRunlistVolume_isComplete
  exact ⟨plan, st, hplan, hscan, scanNtfs_complete_iff hplan hscan hout hcomplete⟩

end Undelete.Ntfs
