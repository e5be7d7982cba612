import Mathlib.Data.List.Sort
import Undelete.ForStd.RecordMap
import Undelete.Native.Ntfs.Boot
import Undelete.Native.Ntfs.Budget
import Undelete.Native.Ntfs.Stream

/-!
# The MFT passes

Model of pass 1 (parse the records) and pass 2 (merge the `$DATA` streams of
extension records) of `scan_ntfs_with_progress` in `crates/fs-ntfs/src/scan.rs`.
-/

namespace Undelete.Ntfs

def rootRecord : Nat := 5
def bitmapRecord : Nat := 6
def firstUserRecord : Nat := 16

/-- What the scanner retains of a base record. -/
structure ParsedEntry where
  sequence : Nat
  inUse : Bool
  isDirectory : Bool
  bestName : Option FileNameAttr
  names : List FileNameAttr
  attributesComplete : Bool
  stdInfo : StandardInformation
  streams : List DataStream
  recordPhysOffset : Nat
  warnings : List NtfsWarning
deriving DecidableEq, Repr

/-! ## Parsing one record -/

/-- The entry loop of `attribute_list_extensions`. -/
def attributeListFrom (value : Bytes) (baseRecord : Nat) :
    Nat → Nat → List Nat → List Nat × Bool
  | 0, _, refs => (refs, false)
  | fuel + 1, pos, refs =>
    if pos = value.length then (refs, true)
    else if pos + 26 > value.length then (refs, false)
    else
      let entryLen := (Le.u16At value (pos + 4)).getD 0
      let entryStop := pos + entryLen
      if entryLen < 26 ∨ entryStop > value.length then (refs, false)
      else
        let fileRef := (Le.u64At value (pos + 16)).getD 0 &&& 0x0000FFFFFFFFFFFF
        let refs := if fileRef ≠ baseRecord ∧ fileRef ∉ refs then refs ++ [fileRef] else refs
        attributeListFrom value baseRecord fuel entryStop refs

/-- Parses a resident `$ATTRIBUTE_LIST` value: the referenced extension records
    (excluding the base record itself) and whether the list was well formed. -/
def attributeListExtensions (value : Bytes) (baseRecord : Nat) : List Nat × Bool :=
  attributeListFrom value baseRecord 1024 0 []

/-- `min_by_key` over the namespaces: the first name that is not a DOS name, else
    the first name. -/
def pickBestName (names : List FileNameAttr) : Option FileNameAttr :=
  (names.find? fun n => n.namespaceId ≠ nsDos).or names.head?

/-- What `parse_entry` has gathered from the attributes seen so far. -/
structure EntryDraft where
  names : List FileNameAttr
  stdInfo : StandardInformation
  complete : Bool
  warnings : List NtfsWarning
deriving DecidableEq, Repr

/-- One step of the attribute loop of `parse_entry`. -/
def EntryDraft.add (d : EntryDraft) (a : Attribute) : EntryDraft :=
  if a.typeId = attrStandardInformation then
    match a.body with
    | .resident value _ => match parseStandardInformation value with
      | some si => { d with stdInfo := si }
      | none => { d with complete := false }
    -- this attribute is resident in every valid record
    | .nonResident .. => { d with complete := false }
  else if a.typeId = attrFileName then
    match a.body with
    | .resident value _ => match parseFileName value with
      | some name => { d with names := d.names ++ [name] }
      | none => { d with complete := false }
    | .nonResident .. => { d with complete := false }
  else if a.typeId = attrAttributeList then
    match a.body with
    | .resident value _ =>
      let (exts, listComplete) := attributeListExtensions value 0
      let malformed := if listComplete then [] else [.attributeListMalformed]
      -- the merge pass takes only data streams from the listed records
      { d with
        complete := false
        warnings := d.warnings ++ malformed ++ [.hasAttributeList exts.length] }
    | .nonResident .. =>
      { d with complete := false, warnings := d.warnings ++ [.hasNonResidentAttributeList] }
  else d

def parseEntry (record : FileRecord) (boot : NtfsBoot) (recordPhysOffset : Nat) :
    ParsedEntry × Bool :=
  let (attrs, attributesComplete) := iterAttributes record
  let draft := attrs.foldl EntryDraft.add ⟨[], {}, attributesComplete, []⟩
  let (streams, dropped) := extractDataStreams boot.totalClusters attrs
  ({ sequence := record.sequence
     inUse := record.inUse
     isDirectory := record.isDirectory
     bestName := pickBestName draft.names
     names := draft.names
     attributesComplete := draft.complete
     stdInfo := draft.stdInfo
     streams
     recordPhysOffset
     warnings := draft.warnings ++ dropped }, draft.complete)

/-! ## Pass 1 -/

/-- The state that the MFT passes thread through the records. -/
structure MftState where
  entries : RecordMap ParsedEntry
  extensionData : RecordMap (List Nat)
  ledger : MftLedger
  warningBudget : MftWarningBudget

namespace MftState

/-- `warning_budget.push(warnings, warning)`. -/
def warn (st : MftState) (warning : NtfsWarning) : MftState :=
  let (budget, warnings) := st.warningBudget.push st.ledger.warnings warning
  { st with warningBudget := budget, ledger := { st.ledger with warnings } }

/-- Clears `is_complete` and pushes a budgeted warning. -/
def markIncomplete (st : MftState) (warning : NtfsWarning) : MftState :=
  { st with ledger := { st.ledger with isComplete := false } }.warn warning

end MftState

def retainBaseEntry (recordNo : Nat) (entry : ParsedEntry) (st : MftState) : MftState :=
  match retainedRunElementCount entry.streams with
  | none => { st with ledger := st.ledger.noteEntryEvidenceLimit }
  | some runElements =>
    let (admitted, ledger) := st.ledger.admitBaseRecord entry.inUse entry.isDirectory
      ⟨entry.names.length, entry.streams.length, runElements⟩
    if admitted then { st with ledger, entries := st.entries.insert recordNo entry }
    else { st with ledger }

/-- Keeps the reference of a deleted extension record to its base record. -/
def retainExtensionReference (recordNo baseRecord : Nat) (st : MftState) : MftState :=
  let (admitted, ledger) := st.ledger.admitExtensionReference
  if admitted then
    let references := (st.extensionData.get? baseRecord).getD []
    { st with
      ledger
      extensionData := st.extensionData.insert baseRecord (references ++ [recordNo]) }
  else { st with ledger }

def isZeroed (raw : Bytes) : Bool := raw.all (· == 0)

def processMftRecord (raw : Bytes) (recordNo logicalOffset : Nat) (boot : NtfsBoot)
    (mftRuns : List RunElement) (st : MftState) : MftState :=
  match parseFileRecord raw boot.bytesPerSector with
  | .error .notAFileRecord =>
    -- an unused slot of the table
    if isZeroed raw then st else st.markIncomplete (.recordNoSignature recordNo)
  | .error .fixupMismatch => st.markIncomplete (.recordTorn recordNo)
  | .error (.corrupt message) => st.markIncomplete (.recordCorrupt recordNo message)
  | .ok record =>
    if record.baseRecord ≠ 0 then
      -- extension records matter only when their base record is deleted
      if record.inUse then st else retainExtensionReference recordNo record.baseRecord st
    else if !record.isDirectory && (record.inUse || recordNo < firstUserRecord) then st
    else
      let (slotAvailable, ledger) :=
        st.ledger.baseRecordSlotAvailable record.inUse record.isDirectory
      let st := { st with ledger }
      -- the budget is asked before the record is parsed
      if !slotAvailable then st
      else
        let physicalOffset := (streamPhysOffset mftRuns boot.clusterSize logicalOffset).getD 0
        let (entry, attributesComplete) := parseEntry record boot physicalOffset
        let st := if attributesComplete then st else st.markIncomplete (.recordIncomplete recordNo)
        retainBaseEntry recordNo entry st

/-- One record of a batch that was read in one go. -/
def processBatchRecord (boot : NtfsBoot) (mftRuns : List RunElement) (batch : Bytes)
    (batchStart logical : Nat) (st : MftState) (batchIndex : Nat) : Except ScanError MftState := do
  let start ← okOr (U64.checkedMul batchIndex boot.fileRecordSize)
    (.corrupt "MFT batch record offset overflow")
  let stop ← okOr (U64.checkedAdd start boot.fileRecordSize)
    (.corrupt "MFT batch record end overflow")
  let recordLogical ← okOr (U64.checkedAdd logical start)
    (.corrupt "MFT record logical offset overflow")
  return processMftRecord (batch.slice start stop) (batchStart + batchIndex) recordLogical boot
    mftRuns st

/-- One record of a batch that could not be read in one go. -/
def isolateRecord (reader : SourceReader) (boot : NtfsBoot) (mftRuns : List RunElement)
    (st : MftState) (recordNo : Nat) : Except ScanError MftState := do
  let recordLogical ← okOr (U64.checkedMul recordNo boot.fileRecordSize)
    (.corrupt "MFT record offset overflow")
  match readStreamRange reader mftRuns boot.clusterSize recordLogical boot.fileRecordSize with
  | .ok raw => return processMftRecord raw recordNo recordLogical boot mftRuns st
  | .error _ => return st.markIncomplete (.recordUnreadable recordNo)

/-- One batch of records. -/
def processBatch (reader : SourceReader) (boot : NtfsBoot) (mftRuns : List RunElement)
    (batchStart batchCount : Nat) (st : MftState) : Except ScanError MftState := do
  let logical ← okOr (U64.checkedMul batchStart boot.fileRecordSize)
    (.corrupt "MFT record offset overflow")
  let batchLen ← okOr (U64.checkedMul batchCount boot.fileRecordSize)
    (.corrupt "MFT batch length overflow")
  match readStreamRange reader mftRuns boot.clusterSize logical batchLen with
  | .ok batch =>
    if isZeroed batch then return st
    List.foldlM (processBatchRecord boot mftRuns batch batchStart logical) st
      (List.range batchCount)
  | .error _ =>
    -- isolate a bad range rather than losing the whole batch
    List.foldlM (isolateRecord reader boot mftRuns) st
      ((List.range batchCount).map (batchStart + ·))

/-- The batch loop. Every batch has at least one record, so the number of records
    is enough fuel. -/
def mftBatches (reader : SourceReader) (boot : NtfsBoot) (mftRuns : List RunElement)
    (recordCount recordsPerBatch : Nat) : Nat → Nat → MftState → Except ScanError MftState
  | 0, _, st => .ok st
  | fuel + 1, batchStart, st =>
    if batchStart < recordCount then do
      let batchCount := min (recordCount - batchStart) recordsPerBatch
      let st ← processBatch reader boot mftRuns batchStart batchCount st
      let next ← okOr (U64.checkedAdd batchStart batchCount) (.corrupt "MFT batch cursor overflow")
      mftBatches reader boot mftRuns recordCount recordsPerBatch fuel next st
    else .ok st

/-- Pass 1: parses the trusted MFT in batches of `recordsPerBatch` records. -/
def mftPass (reader : SourceReader) (boot : NtfsBoot) (mftRuns : List RunElement)
    (recordCount recordsPerBatch : Nat) (st : MftState) : Except ScanError MftState :=
  mftBatches reader boot mftRuns recordCount recordsPerBatch recordCount 0 st

/-! ## Pass 2 -/

/-- The outcome of a step of the merge pass: go on, or leave the labelled loop. -/
inductive MergeStep (α : Type) where
  | next (a : α)
  | stop (st : MftState)

/-- Merges the streams of the parsed extension record `extNo` into `extra`. -/
def mergeExtensionRecord (boot : NtfsBoot) (extNo : Nat) (record : FileRecord)
    (st : MftState) (extra : List DataStream) : MergeStep (MftState × List DataStream) :=
  let (attrs, attrsComplete) := iterAttributes record
  let st := if attrsComplete then st else st.markIncomplete (.extensionIncomplete extNo)
  let (streams, dropped) := extractDataStreams boot.totalClusters attrs
  let st := if dropped.isEmpty then st else st.markIncomplete (.extensionUnusableStreams extNo)
  match retainedRunElementCount streams with
  | none => .stop { st with ledger := st.ledger.noteEntryEvidenceLimit }
  | some runElementCount =>
    let (admitted, ledger) := st.ledger.admitExtensionStreams streams.length runElementCount
    let st := { st with ledger }
    if admitted then .next (st, extra ++ streams) else .stop st

/-- One extension record of a merge target. -/
def mergeExtension (reader : SourceReader) (boot : NtfsBoot) (mftRuns : List RunElement)
    (extNo : Nat) (st : MftState) (extra : List DataStream) :
    MergeStep (MftState × List DataStream) :=
  match U64.checkedMul extNo boot.fileRecordSize with
  | none => .next (st.markIncomplete (.extensionOffsetOverflow extNo), extra)
  | some logical =>
    match readStreamRange reader mftRuns boot.clusterSize logical boot.fileRecordSize with
    | .error _ => .next (st.markIncomplete (.extensionUnreadable extNo), extra)
    | .ok raw =>
      match parseFileRecord raw boot.bytesPerSector with
      | .error _ => .next (st.markIncomplete (.extensionCorrupt extNo), extra)
      | .ok record => mergeExtensionRecord boot extNo record st extra

/-- The extension records of one merge target. -/
def mergeExtensions (reader : SourceReader) (boot : NtfsBoot) (mftRuns : List RunElement) :
    List Nat → MftState → List DataStream → MergeStep (MftState × List DataStream)
  | [], st, extra => .next (st, extra)
  | extNo :: exts, st, extra =>
    match mergeExtension reader boot mftRuns extNo st extra with
    | .next (st, extra) => mergeExtensions reader boot mftRuns exts st extra
    | .stop st => .stop st

/-- One merge target: appends the streams of its extension records to the entry. -/
def mergeTarget (reader : SourceReader) (boot : NtfsBoot) (mftRuns : List RunElement)
    (recordNo : Nat) (st : MftState) : MergeStep MftState :=
  let exts := (st.extensionData.get? recordNo).getD []
  match mergeExtensions reader boot mftRuns exts st [] with
  | .next (st, extra) =>
    .next { st with entries :=
      st.entries.modify recordNo fun entry => { entry with streams := entry.streams ++ extra } }
  | .stop st => .stop st

/-- The loop over the merge targets. -/
def mergeTargetsFrom (reader : SourceReader) (boot : NtfsBoot) (mftRuns : List RunElement) :
    List Nat → MftState → MftState
  | [], st => st
  | recordNo :: rest, st =>
    match mergeTarget reader boot mftRuns recordNo st with
    | .next st => mergeTargetsFrom reader boot mftRuns rest st
    | .stop st => st

/-- The retained entries that depend on a resident attribute list. -/
def dependsOnAttributeList (entry : ParsedEntry) : Bool :=
  entry.warnings.any NtfsWarning.startsWithHasAttributeList

def mergeTargets (st : MftState) : List Nat :=
  (st.extensionData.keys.filter fun recordNo =>
    (st.entries.get? recordNo).any dependsOnAttributeList).insertionSort (· ≤ ·)

/-- Pass 2: merges `$DATA` streams from extension records. -/
def mergePass (reader : SourceReader) (boot : NtfsBoot) (mftRuns : List RunElement)
    (st : MftState) : MftState :=
  mergeTargetsFrom reader boot mftRuns (mergeTargets st) st

end Undelete.Ntfs
