import Undelete.Native.Ntfs.Attr

/-!
# Retention and warning budgets

Model of `MftWarningBudget` and `MftRetentionBudget` in `crates/fs-ntfs/src/scan.rs`.
Every method of the retention budget takes the budget, the `is_complete` flag and
the warning list by mutable reference; `MftLedger` is these three together.

Allocations succeed here: the branches behind a `try_reserve` that fails, and
`note_allocation_failure` with the flag `allocation_warning_emitted` that only they
use, are left out.
-/

namespace Undelete.Ntfs

def maxMftDetailedWarnings : Nat := 16

structure MftWarningBudget where
  retained : Nat := 0
  suppressed : Nat := 0
deriving DecidableEq, Repr

namespace MftWarningBudget

def push (budget : MftWarningBudget) (warnings : List NtfsWarning) (warning : NtfsWarning) :
    MftWarningBudget × List NtfsWarning :=
  if budget.retained < maxMftDetailedWarnings then
    ({ budget with retained := U64.saturatingAdd budget.retained 1 }, warnings ++ [warning])
  else ({ budget with suppressed := U64.saturatingAdd budget.suppressed 1 }, warnings)

def finish (budget : MftWarningBudget) (warnings : List NtfsWarning) : List NtfsWarning :=
  if budget.suppressed > 0 then warnings ++ [.recordWarningsSuppressed budget.suppressed]
  else warnings

end MftWarningBudget

structure MftRetentionBudget where
  deletedEntries : Nat := 0
  directoryEntries : Nat := 0
  extensionReferences : Nat := 0
  extensionStreams : Nat := 0
  entryNames : Nat := 0
  entryStreams : Nat := 0
  entryRunElements : Nat := 0
  deletedWarningEmitted : Bool := false
  directoryWarningEmitted : Bool := false
  extensionWarningEmitted : Bool := false
  extensionStreamWarningEmitted : Bool := false
  entryEvidenceWarningEmitted : Bool := false
deriving DecidableEq, Repr

structure EntryRetentionCost where
  names : Nat
  streams : Nat
  runElements : Nat
deriving DecidableEq, Repr

structure MftLedger where
  budget : MftRetentionBudget
  isComplete : Bool
  warnings : List NtfsWarning
deriving DecidableEq, Repr

namespace MftLedger

/-- Records that a budget refused something: the scan is incomplete, and `warning`
    is emitted unless the flag `emitted` says it was before. -/
def refuse (l : MftLedger) (emitted : Bool) (warning : NtfsWarning)
    (mark : MftRetentionBudget → MftRetentionBudget) : MftLedger :=
  if emitted then { l with isComplete := false }
  else { budget := mark l.budget, isComplete := false, warnings := l.warnings ++ [warning] }

def noteEntryEvidenceLimit (l : MftLedger) : MftLedger :=
  l.refuse l.budget.entryEvidenceWarningEmitted .entryEvidenceBudget
    fun b => { b with entryEvidenceWarningEmitted := true }

def noteDeletedLimit (l : MftLedger) : MftLedger :=
  l.refuse l.budget.deletedWarningEmitted .deletedEntryBudget
    fun b => { b with deletedWarningEmitted := true }

def noteDirectoryLimit (l : MftLedger) : MftLedger :=
  l.refuse l.budget.directoryWarningEmitted .directoryBudget
    fun b => { b with directoryWarningEmitted := true }

def noteExtensionLimit (l : MftLedger) : MftLedger :=
  l.refuse l.budget.extensionWarningEmitted .extensionReferenceBudget
    fun b => { b with extensionWarningEmitted := true }

def noteExtensionStreamLimit (l : MftLedger) (warning : NtfsWarning) : MftLedger :=
  l.refuse l.budget.extensionStreamWarningEmitted warning
    fun b => { b with extensionStreamWarningEmitted := true }

/-- `is_none_or(|next| next > limit)`. -/
def limitReached (next : Option Nat) (limit : Nat) : Bool := next.all fun n => n > limit

def plannedBaseRecordCounts (l : MftLedger) (inUse isDirectory : Bool) :
    Option (Nat × Nat) × MftLedger :=
  let nextDeleted :=
    if inUse then some l.budget.deletedEntries else U64.checkedAdd l.budget.deletedEntries 1
  let nextDirectory :=
    if isDirectory then U64.checkedAdd l.budget.directoryEntries 1
    else some l.budget.directoryEntries
  let deletedLimitReached := limitReached nextDeleted maxRetainedDeletedEntries
  let directoryLimitReached := limitReached nextDirectory maxRetainedDirectoryEntries
  let l := if deletedLimitReached then l.noteDeletedLimit else l
  let l := if directoryLimitReached then l.noteDirectoryLimit else l
  if deletedLimitReached || directoryLimitReached then (none, l)
  else (nextDeleted.bind fun d => nextDirectory.map fun n => (d, n), l)

def baseRecordSlotAvailable (l : MftLedger) (inUse isDirectory : Bool) : Bool × MftLedger :=
  let (counts, l) := l.plannedBaseRecordCounts inUse isDirectory
  (counts.isSome, l)

/-- The nested-evidence counters after admitting `cost`, unless one passes its limit. -/
def nextEvidenceCounts (b : MftRetentionBudget) (cost : EntryRetentionCost) :
    Option (Nat × Nat × Nat) := do
  let nextNames ← U64.checkedAdd b.entryNames cost.names
  let nextStreams ← U64.checkedAdd b.entryStreams cost.streams
  let nextRunElements ← U64.checkedAdd b.entryRunElements cost.runElements
  if nextNames > maxRetainedEntryNames ∨ nextStreams > maxRetainedEntryStreams ∨
      nextRunElements > maxRetainedEntryRunElements then none
  else some (nextNames, nextStreams, nextRunElements)

def admitBaseRecord (l : MftLedger) (inUse isDirectory : Bool) (cost : EntryRetentionCost) :
    Bool × MftLedger :=
  match l.plannedBaseRecordCounts inUse isDirectory with
  | (none, l) => (false, l)
  | (some (nextDeleted, nextDirectory), l) =>
    match nextEvidenceCounts l.budget cost with
    | none => (false, l.noteEntryEvidenceLimit)
    | some (nextNames, nextStreams, nextRunElements) =>
      (true, { l with budget := { l.budget with
        deletedEntries := nextDeleted
        directoryEntries := nextDirectory
        entryNames := nextNames
        entryStreams := nextStreams
        entryRunElements := nextRunElements } })

def admitExtensionReference (l : MftLedger) : Bool × MftLedger :=
  if l.budget.extensionReferences ≥ maxRetainedExtensionReferences then
    (false, l.noteExtensionLimit)
  else
    (true, { l with budget := { l.budget with
      extensionReferences := U64.saturatingAdd l.budget.extensionReferences 1 } })

def admitExtensionStreams (l : MftLedger) (count runElementCount : Nat) : Bool × MftLedger :=
  match U64.checkedAdd l.budget.extensionStreams count with
  | none => (false, l.noteExtensionStreamLimit .extensionStreamOverflow)
  | some next =>
    if next > maxRetainedExtensionStreams then
      (false, l.noteExtensionStreamLimit .extensionStreamBudget)
    else
      match U64.checkedAdd l.budget.entryStreams count,
          U64.checkedAdd l.budget.entryRunElements runElementCount with
      | some nextEntryStreams, some nextEntryRunElements =>
        if nextEntryStreams > maxRetainedEntryStreams ∨
            nextEntryRunElements > maxRetainedEntryRunElements then
          (false, l.noteEntryEvidenceLimit)
        else
          (true, { l with budget := { l.budget with
            extensionStreams := next
            entryStreams := nextEntryStreams
            entryRunElements := nextEntryRunElements } })
      | _, _ => (false, l.noteEntryEvidenceLimit)

end MftLedger

/-- The number of run elements the streams retain. -/
def retainedRunElementCount (streams : List DataStream) : Option Nat :=
  streams.foldlM (fun total stream =>
    match stream.kind with
    | .resident _ _ => U64.checkedAdd total 0
    | .nonResident _ _ runs => U64.checkedAdd total runs.length) 0

end Undelete.Ntfs
