import Undelete.ForStd.RecordTotal
import Undelete.Spec.PassInvariant

/-!
# What the MFT passes retain

The counters of the retention budget dominate what the entries hold, whatever records arrive and
whatever extensions are merged, in whatever order. A refusal changes no counter and no entry: it
makes the scan incomplete, and says so once for each kind of budget.

## Key results

- `MftLedger.admitBaseRecord_spec`, `MftLedger.admitExtensionStreams_spec`: an admission adds its
  cost to the counters, a refusal leaves them.
- `processMftRecord_accounted`, `mergeTarget_accounted`: a step keeps the counters dominant.
- `runMftOps_retention`: the counters and the refusals of every run.
- `scanRecords_accounted`: a scan is such a run.
-/

namespace Undelete.Ntfs

/-! ## Kinds of budgets -/

/-- The kinds of refusals, each with a flag of its own. -/
inductive BudgetKind where
  | deletedEntries | directories | extensionReferences | extensionStreams | entryEvidence
deriving DecidableEq, Repr

def NtfsWarning.budgetKind : NtfsWarning → Option BudgetKind
  | .deletedEntryBudget => some .deletedEntries
  | .directoryBudget => some .directories
  | .extensionReferenceBudget => some .extensionReferences
  | .extensionStreamOverflow => some .extensionStreams
  | .extensionStreamBudget => some .extensionStreams
  | .entryEvidenceBudget => some .entryEvidence
  | _ => none

/-- The warnings of one kind. -/
def warningsOf (kind : BudgetKind) (warnings : List NtfsWarning) : Nat :=
  warnings.countP fun warning => warning.budgetKind = some kind

namespace MftRetentionBudget

def emitted (b : MftRetentionBudget) : BudgetKind → Bool
  | .deletedEntries => b.deletedWarningEmitted
  | .directories => b.directoryWarningEmitted
  | .extensionReferences => b.extensionWarningEmitted
  | .extensionStreams => b.extensionStreamWarningEmitted
  | .entryEvidence => b.entryEvidenceWarningEmitted

def counters (b : MftRetentionBudget) : List Nat :=
  [b.deletedEntries, b.directoryEntries, b.extensionReferences, b.extensionStreams, b.entryNames,
    b.entryStreams, b.entryRunElements]

/-- The limits of the counters, in their order. -/
def limits : List Nat :=
  [maxRetainedDeletedEntries, maxRetainedDirectoryEntries, maxRetainedExtensionReferences,
    maxRetainedExtensionStreams, maxRetainedEntryNames, maxRetainedEntryStreams,
    maxRetainedEntryRunElements]

def WithinLimits (b : MftRetentionBudget) : Prop := List.Forall₂ (· ≤ ·) b.counters limits

end MftRetentionBudget

/-! ## Admissions -/

namespace MftLedger

/-- The counters are within their limits, and behind the warnings `before` every kind of budget
    has been reported once at most. -/
structure Sound (before : List NtfsWarning) (l : MftLedger) : Prop where
  limits : l.budget.WithinLimits
  warned : ∃ later, l.warnings = before ++ later ∧
    ∀ kind, warningsOf kind later ≤ (l.budget.emitted kind).toNat

/-- What a refusal does to the ledger. -/
structure Refusal (l l' : MftLedger) : Prop where
  counters : l'.budget.counters = l.budget.counters
  incomplete : l'.isComplete = false
  sound : ∀ before, l.Sound before → l'.Sound before

theorem Refusal.trans {l l' l'' : MftLedger} (h : l.Refusal l') (h' : l'.Refusal l'') :
    l.Refusal l'' where
  counters := h'.counters.trans h.counters
  incomplete := h'.incomplete
  sound before hsound := h'.sound before (h.sound before hsound)

theorem warningsOf_append (kind : BudgetKind) (warnings : List NtfsWarning)
    (warning : NtfsWarning) : warningsOf kind (warnings ++ [warning]) =
      warningsOf kind warnings + if warning.budgetKind = some kind then 1 else 0 := by
  unfold warningsOf
  rw [List.countP_append, List.countP_singleton]
  simp only [decide_eq_true_eq]

section Refuse

variable (l : MftLedger)

/-- A refusal of one kind raises the flag of that kind and no other. -/
theorem refuse_refusal (kind : BudgetKind) {warning : NtfsWarning}
    {mark : MftRetentionBudget → MftRetentionBudget} (hkind : warning.budgetKind = some kind)
    (hcounters : (mark l.budget).counters = l.budget.counters)
    (hflags : ∀ other, (mark l.budget).emitted other =
      (decide (other = kind) || l.budget.emitted other)) :
    l.Refusal (l.refuse (l.budget.emitted kind) warning mark) := by
  unfold refuse
  -- a limit already reported changes nothing, the first one adds its warning
  split
  · exact ⟨rfl, rfl, fun before hsound => ⟨hsound.limits, hsound.warned⟩⟩
  · next hfirst =>
    refine ⟨hcounters, rfl, fun before hsound => ⟨?_, ?_⟩⟩
    · show List.Forall₂ _ _ _
      rw [hcounters]
      exact hsound.limits
    · obtain ⟨later, hwarnings, honce⟩ := hsound.warned
      refine ⟨later ++ [warning], ?_, fun other => ?_⟩
      · show l.warnings ++ [warning] = _
        rw [hwarnings, List.append_assoc]
      · have hle := honce other
        rw [warningsOf_append, hkind, hflags]
        -- only the kind of this warning counts once more, and its flag is now set
        by_cases hother : other = kind
        · rw [hother, Bool.eq_false_of_not_eq_true hfirst] at hle
          rw [hother, if_pos rfl, decide_eq_true rfl, Bool.true_or]
          exact Nat.succ_le_succ hle
        · rw [if_neg (fun heq => hother (Option.some.inj heq).symm), decide_eq_false hother,
            Bool.false_or]
          exact hle

theorem noteDeletedLimit_refusal : l.Refusal l.noteDeletedLimit :=
  refuse_refusal l .deletedEntries rfl rfl fun other => by cases other <;> rfl

theorem noteDirectoryLimit_refusal : l.Refusal l.noteDirectoryLimit :=
  refuse_refusal l .directories rfl rfl fun other => by cases other <;> rfl

theorem noteExtensionLimit_refusal : l.Refusal l.noteExtensionLimit :=
  refuse_refusal l .extensionReferences rfl rfl fun other => by cases other <;> rfl

theorem noteExtensionStreamLimit_refusal {warning : NtfsWarning}
    (hkind : warning.budgetKind = some .extensionStreams) :
    l.Refusal (l.noteExtensionStreamLimit warning) :=
  refuse_refusal l .extensionStreams hkind rfl fun other => by cases other <;> rfl

theorem noteEntryEvidenceLimit_refusal : l.Refusal l.noteEntryEvidenceLimit :=
  refuse_refusal l .entryEvidence rfl rfl fun other => by cases other <;> rfl

end Refuse

section Admit

variable (l : MftLedger)

/-- What an unreached limit says of the count behind it. -/
theorem limitReached_eq_false {next : Option Nat} {limit : Nat}
    (h : limitReached next limit = false) : ∃ n, next = some n ∧ n ≤ limit := by
  cases next with
  | none => exact absurd h Bool.noConfusion
  | some n =>
    rw [limitReached, Option.all_some, decide_eq_false_iff_not] at h
    exact ⟨n, rfl, Nat.not_lt.mp h⟩

/-- A planned base record is refused, or its counts are within their limits. -/
theorem plannedBaseRecordCounts_spec (inUse isDirectory : Bool) :
    (∃ l', l.plannedBaseRecordCounts inUse isDirectory = (none, l') ∧ l.Refusal l') ∨
    (l.plannedBaseRecordCounts inUse isDirectory =
        (some (l.budget.deletedEntries + (!inUse).toNat,
          l.budget.directoryEntries + isDirectory.toNat), l) ∧
      l.budget.deletedEntries + (!inUse).toNat ≤ maxRetainedDeletedEntries ∧
      l.budget.directoryEntries + isDirectory.toNat ≤ maxRetainedDirectoryEntries) := by
  unfold plannedBaseRecordCounts
  -- the deleted counter moves only for a free record
  have hdeleted : ∀ n, (if inUse = true then some l.budget.deletedEntries
      else U64.checkedAdd l.budget.deletedEntries 1) = some n →
      n = l.budget.deletedEntries + (!inUse).toNat := by
    intro n h
    cases inUse with
    | true => exact (Option.some.inj h).symm
    | false => exact (U64.checkedAdd_eq_some.mp h).2.symm
  -- the directory counter moves only for a directory
  have hdirectory : ∀ n, (if isDirectory = true then U64.checkedAdd l.budget.directoryEntries 1
      else some l.budget.directoryEntries) = some n →
      n = l.budget.directoryEntries + isDirectory.toNat := by
    intro n h
    cases isDirectory with
    | true => exact (U64.checkedAdd_eq_some.mp h).2.symm
    | false => exact (Option.some.inj h).symm
  generalize (if inUse = true then some l.budget.deletedEntries
    else U64.checkedAdd l.budget.deletedEntries 1) = deleted at hdeleted ⊢
  generalize (if isDirectory = true then U64.checkedAdd l.budget.directoryEntries 1
    else some l.budget.directoryEntries) = directory at hdirectory ⊢
  -- both limits are looked at, so both warnings can come from one record
  cases hd : limitReached deleted maxRetainedDeletedEntries with
  | true =>
    left
    cases hn : limitReached directory maxRetainedDirectoryEntries with
    | true =>
      refine ⟨l.noteDeletedLimit.noteDirectoryLimit, ?_,
        (noteDeletedLimit_refusal l).trans (noteDirectoryLimit_refusal _)⟩
      simp only [hd, hn, if_true, Bool.or_self]
    | false =>
      refine ⟨l.noteDeletedLimit, ?_, noteDeletedLimit_refusal l⟩
      simp only [hd, hn, if_true, Bool.or_false, Bool.false_eq_true, if_false]
  | false =>
    cases hn : limitReached directory maxRetainedDirectoryEntries with
    | true =>
      left
      refine ⟨l.noteDirectoryLimit, ?_, noteDirectoryLimit_refusal l⟩
      simp only [hd, hn, if_true, Bool.or_true, Bool.false_eq_true, if_false]
    | false =>
      right
      obtain ⟨d, rfl, hdle⟩ := limitReached_eq_false hd
      obtain ⟨n, rfl, hnle⟩ := limitReached_eq_false hn
      rw [← hdeleted d rfl, ← hdirectory n rfl]
      refine ⟨?_, hdle, hnle⟩
      simp only [hd, hn, Bool.or_self, Bool.false_eq_true, if_false]
      rfl

/-- The evidence counts behind an admission are within their limits. -/
theorem nextEvidenceCounts_eq_some {b : MftRetentionBudget} {cost : EntryRetentionCost}
    {counts : Nat × Nat × Nat} (h : nextEvidenceCounts b cost = some counts) :
    counts = (b.entryNames + cost.names, b.entryStreams + cost.streams,
        b.entryRunElements + cost.runElements) ∧
      counts.1 ≤ maxRetainedEntryNames ∧ counts.2.1 ≤ maxRetainedEntryStreams ∧
      counts.2.2 ≤ maxRetainedEntryRunElements := by
  unfold nextEvidenceCounts at h
  simp only [Option.bind_eq_bind, Option.bind_eq_some_iff, U64.checkedAdd_eq_some] at h
  obtain ⟨names, ⟨_, rfl⟩, streams, ⟨_, rfl⟩, runElements, ⟨_, rfl⟩, h⟩ := h
  split at h
  · cases h
  · next hlimits =>
    cases h
    rw [not_or, not_or] at hlimits
    exact ⟨rfl, Nat.not_lt.mp hlimits.1, Nat.not_lt.mp hlimits.2.1, Nat.not_lt.mp hlimits.2.2⟩

/-- The counters behind an admitted base record. -/
def admittedBase (b : MftRetentionBudget) (inUse isDirectory : Bool) (cost : EntryRetentionCost) :
    MftRetentionBudget :=
  { b with
    deletedEntries := b.deletedEntries + (!inUse).toNat
    directoryEntries := b.directoryEntries + isDirectory.toNat
    entryNames := b.entryNames + cost.names
    entryStreams := b.entryStreams + cost.streams
    entryRunElements := b.entryRunElements + cost.runElements }

/-- A base record is refused, or adds its cost to the counters. -/
theorem admitBaseRecord_spec (inUse isDirectory : Bool) (cost : EntryRetentionCost) :
    (∃ l', l.admitBaseRecord inUse isDirectory cost = (false, l') ∧ l.Refusal l') ∨
    (l.admitBaseRecord inUse isDirectory cost =
        (true, { l with budget := admittedBase l.budget inUse isDirectory cost }) ∧
      (l.budget.WithinLimits → (admittedBase l.budget inUse isDirectory cost).WithinLimits)) := by
  unfold admitBaseRecord
  -- the record counters come first, the evidence counters only after them
  obtain ⟨l', hplan, hrefusal⟩ | ⟨hplan, hdeleted, hdirectory⟩ :=
    l.plannedBaseRecordCounts_spec inUse isDirectory
  · rw [hplan]
    exact .inl ⟨l', rfl, hrefusal⟩
  · rw [hplan]
    cases hnext : nextEvidenceCounts l.budget cost with
    | none =>
      left
      refine ⟨l.noteEntryEvidenceLimit, ?_, noteEntryEvidenceLimit_refusal l⟩
      simp only [hnext]
    | some counts =>
      right
      obtain ⟨rfl, hnames, hstreams, hruns⟩ := nextEvidenceCounts_eq_some hnext
      simp only [hnext]
      refine ⟨rfl, fun hlimits => ?_⟩
      unfold MftRetentionBudget.WithinLimits MftRetentionBudget.counters
        MftRetentionBudget.limits at hlimits ⊢
      simp only [List.forall₂_cons, List.forall₂_nil_left_iff] at hlimits ⊢
      exact ⟨hdeleted, hdirectory, hlimits.2.2.1, hlimits.2.2.2.1, hnames, hstreams, hruns, trivial⟩

/-- A slot is refused, or nothing changes. -/
theorem baseRecordSlotAvailable_spec (inUse isDirectory : Bool) :
    (∃ l', l.baseRecordSlotAvailable inUse isDirectory = (false, l') ∧ l.Refusal l') ∨
    l.baseRecordSlotAvailable inUse isDirectory = (true, l) := by
  unfold baseRecordSlotAvailable
  obtain ⟨l', hplan, hrefusal⟩ | ⟨hplan, _⟩ := l.plannedBaseRecordCounts_spec inUse isDirectory
  · exact .inl ⟨l', by rw [hplan]; rfl, hrefusal⟩
  · exact .inr (by rw [hplan]; rfl)

/-- An extension reference is refused, or counted. -/
theorem admitExtensionReference_spec :
    (∃ l', l.admitExtensionReference = (false, l') ∧ l.Refusal l') ∨
    (l.admitExtensionReference = (true, { l with budget := { l.budget with
        extensionReferences := l.budget.extensionReferences + 1 } }) ∧
      l.budget.extensionReferences + 1 ≤ maxRetainedExtensionReferences) := by
  unfold admitExtensionReference
  split
  · exact .inl ⟨_, rfl, noteExtensionLimit_refusal l⟩
  · next hlt =>
    have hbound : maxRetainedExtensionReferences < 2 ^ 64 - 1 := by decide
    rw [U64.saturatingAdd_of_lt (by omega)]
    exact .inr ⟨rfl, by omega⟩

/-- The counters behind admitted extension streams. -/
def admittedStreams (b : MftRetentionBudget) (count runElementCount : Nat) : MftRetentionBudget :=
  { b with
    extensionStreams := b.extensionStreams + count
    entryStreams := b.entryStreams + count
    entryRunElements := b.entryRunElements + runElementCount }

/-- Extension streams are refused, or add their cost to the counters. -/
theorem admitExtensionStreams_spec (count runElementCount : Nat) :
    (∃ l', l.admitExtensionStreams count runElementCount = (false, l') ∧ l.Refusal l') ∨
    (l.admitExtensionStreams count runElementCount =
        (true, { l with budget := admittedStreams l.budget count runElementCount }) ∧
      (l.budget.WithinLimits →
        (admittedStreams l.budget count runElementCount).WithinLimits)) := by
  unfold admitExtensionStreams
  -- the count may pass 64 bits, then the extension limit, then the evidence limits
  cases hnext : U64.checkedAdd l.budget.extensionStreams count with
  | none => exact .inl ⟨_, rfl, noteExtensionStreamLimit_refusal l rfl⟩
  | some next =>
    obtain ⟨_, rfl⟩ := U64.checkedAdd_eq_some.mp hnext
    simp only
    split
    · exact .inl ⟨_, rfl, noteExtensionStreamLimit_refusal l rfl⟩
    · next hextension =>
      split
      · next streams runElements hstreams hruns =>
        obtain ⟨_, rfl⟩ := U64.checkedAdd_eq_some.mp hstreams
        obtain ⟨_, rfl⟩ := U64.checkedAdd_eq_some.mp hruns
        split
        · exact .inl ⟨_, rfl, noteEntryEvidenceLimit_refusal l⟩
        · next hevidence =>
          rw [not_or] at hevidence
          refine .inr ⟨rfl, fun hlimits => ?_⟩
          unfold MftRetentionBudget.WithinLimits MftRetentionBudget.counters
            MftRetentionBudget.limits at hlimits ⊢
          simp only [List.forall₂_cons, List.forall₂_nil_left_iff] at hlimits ⊢
          exact ⟨hlimits.1, hlimits.2.1, hlimits.2.2.1, Nat.not_lt.mp hextension,
            hlimits.2.2.2.2.1, Nat.not_lt.mp hevidence.1, Nat.not_lt.mp hevidence.2, trivial⟩
      · exact .inl ⟨_, rfl, noteEntryEvidenceLimit_refusal l⟩

end Admit

end MftLedger

/-! ## What the entries hold -/

/-- The run elements of the streams. -/
def runElementsOf (streams : List DataStream) : Nat :=
  (streams.map fun stream => match stream.kind with
    | .resident _ _ => 0
    | .nonResident _ _ runs => runs.length).sum

theorem runElementsOf_append (streams streams' : List DataStream) :
    runElementsOf (streams ++ streams') = runElementsOf streams + runElementsOf streams' := by
  unfold runElementsOf
  rw [List.map_append, List.sum_append]

theorem retainedRunElementCount_eq_some {streams : List DataStream} {n : Nat}
    (h : retainedRunElementCount streams = some n) : n = runElementsOf streams := by
  -- the fold for any start value; resident streams add nothing
  have key : ∀ total, streams.foldlM (fun total stream =>
      match stream.kind with
      | .resident _ _ => U64.checkedAdd total 0
      | .nonResident _ _ runs => U64.checkedAdd total runs.length) total = some n →
      n = total + runElementsOf streams := by
    intro total hfold
    clear h
    induction streams generalizing total with
    | nil => exact (Option.some.inj hfold).symm
    | cons stream streams ih =>
      rw [List.foldlM_cons, Option.bind_eq_bind, Option.bind_eq_some_iff] at hfold
      obtain ⟨next, hnext, hrest⟩ := hfold
      have hcons : runElementsOf (stream :: streams) = (match stream.kind with
          | .resident _ _ => 0
          | .nonResident _ _ runs => runs.length) + runElementsOf streams := by
        unfold runElementsOf
        rw [List.map_cons, List.sum_cons]
      rw [ih next hrest, hcons]
      split at hnext
      · next hkind =>
        rw [← (U64.checkedAdd_eq_some.mp hnext).2]
        omega
      · next hkind =>
        rw [← (U64.checkedAdd_eq_some.mp hnext).2]
        omega
  have hcount := key 0 h
  rwa [Nat.zero_add] at hcount

/-- The counters dominate what the entries and the streams of a running merge hold. -/
structure Accounted (before : List NtfsWarning) (pending : List DataStream) (st : MftState) :
    Prop where
  ledger : st.ledger.Sound before
  names : st.entries.total (fun entry => entry.names.length) ≤ st.ledger.budget.entryNames
  streams : st.entries.total (fun entry => entry.streams.length) + pending.length ≤
    st.ledger.budget.entryStreams
  runElements : st.entries.total (fun entry => runElementsOf entry.streams) +
    runElementsOf pending ≤ st.ledger.budget.entryRunElements
  deleted : st.entries.total (fun entry => (!entry.inUse).toNat) ≤
    st.ledger.budget.deletedEntries
  directories : st.entries.total (fun entry => entry.isDirectory.toNat) ≤
    st.ledger.budget.directoryEntries

/-- What a refusal does to the state. -/
structure Refused (st st' : MftState) : Prop where
  entries : st'.entries = st.entries
  references : st'.extensionData = st.extensionData
  ledger : st.ledger.Refusal st'.ledger

section Step

variable {before : List NtfsWarning} {pending : List DataStream} {st st' : MftState}

/-- The streams of a merge can be dropped. -/
theorem Accounted.drop (h : Accounted before pending st) : Accounted before [] st where
  ledger := h.ledger
  names := h.names
  streams := Nat.le_trans (Nat.add_le_add_left (Nat.zero_le _) _) h.streams
  runElements := Nat.le_trans (Nat.add_le_add_left (Nat.zero_le _) _) h.runElements
  deleted := h.deleted
  directories := h.directories

/-- A state with the same entries and counters is accounted for as well. -/
theorem Accounted.of_counters (h : Accounted before pending st)
    (hentries : st'.entries = st.entries)
    (hcounters : st'.ledger.budget.counters = st.ledger.budget.counters)
    (hsound : st'.ledger.Sound before) : Accounted before pending st' := by
  unfold MftRetentionBudget.counters at hcounters
  simp only [List.cons.injEq] at hcounters
  obtain ⟨hdeleted, hdirectories, _, _, hnames, hstreams, hruns, _⟩ := hcounters
  exact {
    ledger := hsound
    names := by rw [hentries, hnames]; exact h.names
    streams := by rw [hentries, hstreams]; exact h.streams
    runElements := by rw [hentries, hruns]; exact h.runElements
    deleted := by rw [hentries, hdeleted]; exact h.deleted
    directories := by rw [hentries, hdirectories]; exact h.directories }

theorem Accounted.refused (h : Accounted before pending st) (hrefused : Refused st st') :
    Accounted before pending st' :=
  h.of_counters hrefused.entries hrefused.ledger.counters (hrefused.ledger.sound before h.ledger)

/-- Other warnings do not count. -/
theorem markIncomplete_sound {warning : NtfsWarning} (hkind : warning.budgetKind = none)
    (h : st.ledger.Sound before) : (st.markIncomplete warning).ledger.Sound before := by
  obtain ⟨later, hwarnings, honce⟩ := h.warned
  have hpush : (st.markIncomplete warning).ledger.warnings = st.ledger.warnings ++ [warning] ∨
      (st.markIncomplete warning).ledger.warnings = st.ledger.warnings := by
    unfold MftState.markIncomplete MftState.warn
    simp only [MftWarningBudget.push]
    split
    · exact .inl rfl
    · exact .inr rfl
  obtain hpush | hpush := hpush
  · refine ⟨h.limits, later ++ [warning], ?_, fun kind => ?_⟩
    · rw [hpush, hwarnings, List.append_assoc]
    · rw [MftLedger.warningsOf_append, hkind]
      exact honce kind
  · exact ⟨h.limits, later, hpush.trans hwarnings, honce⟩

theorem Accounted.markIncomplete {warning : NtfsWarning} (hkind : warning.budgetKind = none)
    (h : Accounted before pending st) : Accounted before pending (st.markIncomplete warning) :=
  h.of_counters rfl rfl (markIncomplete_sound hkind h.ledger)

/-- The budget admits the base record: its run elements can be counted, and every counter has
    room for its cost. -/
def BaseAdmitted (st : MftState) (entry : ParsedEntry) : Prop :=
  ∃ runElements, retainedRunElementCount entry.streams = some runElements ∧
    (st.ledger.admitBaseRecord entry.inUse entry.isDirectory
      ⟨entry.names.length, entry.streams.length, runElements⟩).1 = true

/-- A base record is refused, or retained at its cost. -/
theorem retainBaseEntry_spec (recordNo : Nat) (entry : ParsedEntry) (st : MftState) :
    Refused st (retainBaseEntry recordNo entry st) ∨ BaseAdmitted st entry ∧
      ∀ before, Accounted before [] st →
        Accounted before [] (retainBaseEntry recordNo entry st) := by
  unfold retainBaseEntry
  cases hcount : retainedRunElementCount entry.streams with
  | none => exact .inl ⟨rfl, rfl, MftLedger.noteEntryEvidenceLimit_refusal st.ledger⟩
  | some runElements =>
    have hruns := retainedRunElementCount_eq_some hcount
    obtain ⟨l', hadmission, hrefusal⟩ | ⟨hadmission, hlimits⟩ :=
      st.ledger.admitBaseRecord_spec entry.inUse
      entry.isDirectory ⟨entry.names.length, entry.streams.length, runElements⟩
    · left
      simp only [hadmission, Bool.false_eq_true, if_false]
      exact ⟨rfl, rfl, hrefusal⟩
    · right
      refine ⟨⟨runElements, hcount, by rw [hadmission]⟩, fun before h => ?_⟩
      simp only [hadmission, if_true]
      exact {
        ledger := ⟨hlimits h.ledger.limits, h.ledger.warned⟩
        -- each total grows by at most what the admission added to its counter
        names := (RecordMap.total_insert_le _ st.entries recordNo entry).trans
          (Nat.add_le_add_right h.names _)
        streams := (RecordMap.total_insert_le (fun e => e.streams.length) st.entries recordNo
          entry).trans (Nat.add_le_add_right h.streams _)
        runElements := by
          have hle := RecordMap.total_insert_le (fun e => runElementsOf e.streams) st.entries
            recordNo entry
          rw [← hruns] at hle
          exact hle.trans (Nat.add_le_add_right h.runElements runElements)
        deleted := (RecordMap.total_insert_le _ st.entries recordNo entry).trans
          (Nat.add_le_add_right h.deleted _)
        directories := (RecordMap.total_insert_le _ st.entries recordNo entry).trans
          (Nat.add_le_add_right h.directories _) }

/-- A reference to an extension record is refused, or counted. -/
theorem retainExtensionReference_spec (recordNo baseRecord : Nat) (st : MftState) :
    Refused st (retainExtensionReference recordNo baseRecord st) ∨
      st.ledger.admitExtensionReference.1 = true ∧ ∀ before, Accounted before [] st →
        Accounted before [] (retainExtensionReference recordNo baseRecord st) := by
  unfold retainExtensionReference
  obtain ⟨l', hadmission, hrefusal⟩ | ⟨hadmission, hle⟩ := st.ledger.admitExtensionReference_spec
  · left
    simp only [hadmission, Bool.false_eq_true, if_false]
    exact ⟨rfl, rfl, hrefusal⟩
  · right
    refine ⟨by rw [hadmission], fun before h => ?_⟩
    simp only [hadmission, if_true]
    have hlimits := h.ledger.limits
    refine ⟨⟨?_, h.ledger.warned⟩, h.names, h.streams, h.runElements, h.deleted, h.directories⟩
    unfold MftRetentionBudget.WithinLimits MftRetentionBudget.counters
      MftRetentionBudget.limits at hlimits ⊢
    simp only [List.forall₂_cons, List.forall₂_nil_left_iff] at hlimits ⊢
    exact ⟨hlimits.1, hlimits.2.1, hle, hlimits.2.2.2⟩

theorem retainBaseEntry_accounted (recordNo : Nat) (entry : ParsedEntry)
    (h : Accounted before [] st) : Accounted before [] (retainBaseEntry recordNo entry st) := by
  obtain hrefused | ⟨_, hadmitted⟩ := retainBaseEntry_spec recordNo entry st
  · exact h.refused hrefused
  · exact hadmitted before h

theorem retainExtensionReference_accounted (recordNo baseRecord : Nat)
    (h : Accounted before [] st) :
    Accounted before [] (retainExtensionReference recordNo baseRecord st) := by
  obtain hrefused | ⟨_, hadmitted⟩ := retainExtensionReference_spec recordNo baseRecord st
  · exact h.refused hrefused
  · exact hadmitted before h

/-- One record of pass 1. -/
theorem processMftRecord_accounted (raw : Bytes) (recordNo logicalOffset : Nat) (boot : NtfsBoot)
    (mftRuns : List RunElement) (h : Accounted before [] st) :
    Accounted before [] (processMftRecord raw recordNo logicalOffset boot mftRuns st) := by
  unfold processMftRecord
  -- a record that cannot be parsed costs nothing, only the completeness flag
  cases hparse : parseFileRecord raw boot.bytesPerSector with
  | error e =>
    cases e with
    | notAFileRecord =>
      simp only
      split
      · exact h
      · exact h.markIncomplete rfl
    | corrupt message => exact h.markIncomplete rfl
    | fixupMismatch => exact h.markIncomplete rfl
  | ok record =>
    simp only
    -- an extension record keeps its reference, a base record its entry
    split
    · split
      · exact h
      · exact retainExtensionReference_accounted recordNo record.baseRecord h
    · split
      · exact h
      · obtain ⟨l', hslot, hrefusal⟩ | hslot :=
          st.ledger.baseRecordSlotAvailable_spec record.inUse record.isDirectory
        · simp only [hslot, Bool.not_false, if_true]
          exact h.refused ⟨rfl, rfl, hrefusal⟩
        · simp only [hslot, Bool.not_true, Bool.false_eq_true, if_false]
          apply retainBaseEntry_accounted
          split
          · exact h
          · exact h.markIncomplete rfl

/-! ## Merging -/

/-- Warnings of other kinds in front of an admission. -/
structure Marked (st st' : MftState) : Prop where
  entries : st'.entries = st.entries
  references : st'.extensionData = st.extensionData
  budget : st'.ledger.budget = st.ledger.budget
  sound : ∀ before, st.ledger.Sound before → st'.ledger.Sound before

theorem Marked.refl (st : MftState) : Marked st st := ⟨rfl, rfl, rfl, fun _ h => h⟩

theorem Marked.markIncomplete {warning : NtfsWarning} (hkind : warning.budgetKind = none)
    (h : Marked st st') : Marked st (st'.markIncomplete warning) :=
  ⟨h.entries, h.references, h.budget, fun before hsound =>
    markIncomplete_sound hkind (h.sound before hsound)⟩

theorem Marked.refused {l : MftLedger} (h : Marked st st') (hrefusal : st'.ledger.Refusal l) :
    Refused st { st' with ledger := l } where
  entries := h.entries
  references := h.references
  ledger := {
    counters := by rw [hrefusal.counters, h.budget]
    incomplete := hrefusal.incomplete
    sound := fun before hsound => hrefusal.sound before (h.sound before hsound) }

theorem Accounted.marked (h : Accounted before pending st) (hmarked : Marked st st') :
    Accounted before pending st' :=
  h.of_counters hmarked.entries (by rw [hmarked.budget]) (hmarked.sound before h.ledger)

/-- Admitted streams wait for the end of their target. -/
theorem Accounted.admitStreams {streams : List DataStream}
    (h : Accounted before pending st)
    (hlimits : st.ledger.budget.WithinLimits → (MftLedger.admittedStreams st.ledger.budget
      streams.length (runElementsOf streams)).WithinLimits) :
    Accounted before (pending ++ streams) { st with ledger := { st.ledger with
      budget := MftLedger.admittedStreams st.ledger.budget streams.length
        (runElementsOf streams) } } where
  ledger := ⟨hlimits h.ledger.limits, h.ledger.warned⟩
  names := h.names
  streams := by
    rw [List.length_append, ← Nat.add_assoc]
    exact Nat.add_le_add_right h.streams _
  runElements := by
    rw [runElementsOf_append, ← Nat.add_assoc]
    exact Nat.add_le_add_right h.runElements _
  deleted := h.deleted
  directories := h.directories

/-- What a step of the merge leaves is accounted for. -/
def MergeAccounted (before : List NtfsWarning) : MergeStep (MftState × List DataStream) → Prop
  | .next (st, extra) => Accounted before extra st
  | .stop st => Accounted before [] st

/-- One parsed extension record: its streams are refused and the merge ends, or they wait for the
    end of their target. -/
theorem mergeExtensionRecord_spec (boot : NtfsBoot) (extNo : Nat) (record : FileRecord)
    (st : MftState) (extra : List DataStream) :
    (∃ st', mergeExtensionRecord boot extNo record st extra = .stop st' ∧ Refused st st') ∨
    ∃ st' extra', mergeExtensionRecord boot extNo record st extra = .next (st', extra') ∧
      ∀ before, Accounted before extra st → Accounted before extra' st' := by
  unfold mergeExtensionRecord
  -- the two completeness marks before the admission change no counter
  have hattributes : Marked st (if (iterAttributes record).2 = true then st
      else st.markIncomplete (.extensionIncomplete extNo)) := by
    split
    · exact .refl st
    · exact (Marked.refl st).markIncomplete rfl
  simp only
  generalize (if (iterAttributes record).2 = true then st
    else st.markIncomplete (.extensionIncomplete extNo)) = first at hattributes ⊢
  have hstreams : Marked st
      (if (extractDataStreams boot.totalClusters (iterAttributes record).1).2.isEmpty = true then
        first else first.markIncomplete (.extensionUnusableStreams extNo)) := by
    split
    · exact hattributes
    · exact hattributes.markIncomplete rfl
  generalize (if (extractDataStreams boot.totalClusters (iterAttributes record).1).2.isEmpty = true
    then first else first.markIncomplete (.extensionUnusableStreams extNo)) = second at hstreams ⊢
  generalize (extractDataStreams boot.totalClusters (iterAttributes record).1).1 = streams
  cases hcount : retainedRunElementCount streams with
  | none =>
    exact .inl ⟨_, rfl, hstreams.refused (MftLedger.noteEntryEvidenceLimit_refusal _)⟩
  | some runElementCount =>
    rw [retainedRunElementCount_eq_some hcount]
    obtain ⟨l', hadmission, hrefusal⟩ | ⟨hadmission, hlimits⟩ :=
      second.ledger.admitExtensionStreams_spec streams.length (runElementsOf streams)
    · left
      simp only [hadmission, Bool.false_eq_true, if_false]
      exact ⟨_, rfl, hstreams.refused hrefusal⟩
    · right
      simp only [hadmission, if_true]
      exact ⟨_, _, rfl, fun before h => (h.marked hstreams).admitStreams hlimits⟩

/-- One extension record of a merge target. -/
theorem mergeExtension_accounted (reader : SourceReader) (boot : NtfsBoot)
    (mftRuns : List RunElement) (extNo : Nat) (h : Accounted before pending st) :
    MergeAccounted before (mergeExtension reader boot mftRuns extNo st pending) := by
  unfold mergeExtension
  split
  · exact h.markIncomplete rfl
  · split
    · exact h.markIncomplete rfl
    · split
      · exact h.markIncomplete rfl
      · next record _ =>
        obtain ⟨st', hstop, hrefused⟩ | ⟨st', extra', hnext, hadmitted⟩ :=
          mergeExtensionRecord_spec boot extNo record st pending
        · rw [hstop]
          exact h.drop.refused hrefused
        · rw [hnext]
          exact hadmitted before h

theorem mergeExtensions_accounted (reader : SourceReader) (boot : NtfsBoot)
    (mftRuns : List RunElement) (exts : List Nat) (h : Accounted before pending st) :
    MergeAccounted before (mergeExtensions reader boot mftRuns exts st pending) := by
  induction exts generalizing st pending with
  | nil => exact h
  | cons extNo exts ih =>
    have hone := mergeExtension_accounted reader boot mftRuns extNo h
    unfold mergeExtensions
    cases hstep : mergeExtension reader boot mftRuns extNo st pending with
    | next result =>
      rw [hstep] at hone
      exact ih hone
    | stop st' =>
      rw [hstep] at hone
      exact hone

/-- The streams that waited reach their entry. -/
theorem Accounted.merge (recordNo : Nat) (h : Accounted before pending st) :
    Accounted before [] { st with entries := st.entries.modify recordNo fun entry =>
      { entry with streams := entry.streams ++ pending } } := by
  have hkept := fun measure => @RecordMap.total_modify_le_self ParsedEntry measure st.entries
    recordNo fun entry => { entry with streams := entry.streams ++ pending }
  have hgrown := fun measure n => @RecordMap.total_modify_le ParsedEntry measure st.entries
    recordNo (fun entry => { entry with streams := entry.streams ++ pending }) n
  exact {
    ledger := h.ledger
    names := (hkept (fun e => e.names.length) fun _ => Nat.le_refl _).trans h.names
    streams := (hgrown (fun e => e.streams.length) pending.length fun _ =>
      Nat.le_of_eq List.length_append).trans h.streams
    runElements := (hgrown (fun e => runElementsOf e.streams) (runElementsOf pending) fun _ =>
      Nat.le_of_eq (runElementsOf_append _ _)).trans h.runElements
    deleted := (hkept (fun e => (!e.inUse).toNat) fun _ => Nat.le_refl _).trans h.deleted
    directories := (hkept (fun e => e.isDirectory.toNat) fun _ => Nat.le_refl _).trans
      h.directories }

/-- The state behind a step of the merge, whether it goes on or not. -/
def MergeStep.state : MergeStep MftState → MftState
  | .next st => st
  | .stop st => st

/-- One merge target. -/
theorem mergeTarget_accounted (reader : SourceReader) (boot : NtfsBoot)
    (mftRuns : List RunElement) (recordNo : Nat) (h : Accounted before [] st) :
    Accounted before [] (mergeTarget reader boot mftRuns recordNo st).state := by
  have hexts := mergeExtensions_accounted reader boot mftRuns
    ((st.extensionData.get? recordNo).getD []) h
  unfold mergeTarget
  simp only
  cases hstep : mergeExtensions reader boot mftRuns ((st.extensionData.get? recordNo).getD []) st []
    with
  | next result =>
    rw [hstep] at hexts
    simp only
    exact Accounted.merge recordNo hexts
  | stop st' =>
    rw [hstep] at hexts
    simp only
    exact hexts

end Step

/-! ## Runs -/

/-- What can happen to the retained state: a record arrives, or was unreadable, or the extensions
    of a target are merged. -/
inductive MftOp where
  | record (raw : Bytes) (recordNo logicalOffset : Nat)
  | unreadable (recordNo : Nat)
  | merge (recordNo : Nat)

section Run

variable (reader : SourceReader) (boot : NtfsBoot) (mftRuns : List RunElement)

def MftOp.apply (st : MftState) : MftOp → MftState
  | .record raw recordNo logicalOffset =>
    processMftRecord raw recordNo logicalOffset boot mftRuns st
  | .unreadable recordNo => st.markIncomplete (.recordUnreadable recordNo)
  | .merge recordNo => (mergeTarget reader boot mftRuns recordNo st).state

def runMftOps (st : MftState) (ops : List MftOp) : MftState :=
  ops.foldl (MftOp.apply reader boot mftRuns) st

/-- The state of a scan in front of the first record, behind the warnings `before`. -/
def startState (isComplete : Bool) (before : List NtfsWarning) : MftState :=
  ⟨.empty, .empty, ⟨{}, isComplete, before⟩, {}⟩

theorem startState_accounted (isComplete : Bool) (before : List NtfsWarning) :
    Accounted before [] (startState isComplete before) where
  ledger := {
    limits := by
      unfold MftRetentionBudget.WithinLimits MftRetentionBudget.counters MftRetentionBudget.limits
      simp only [List.forall₂_cons, startState, Nat.zero_le, true_and]
      exact .nil
    warned := ⟨[], (List.append_nil _).symm, fun kind => Nat.zero_le _⟩ }
  names := Nat.le_refl _
  streams := Nat.le_refl _
  runElements := Nat.le_refl _
  deleted := Nat.le_refl _
  directories := Nat.le_refl _

theorem apply_accounted {before : List NtfsWarning} {st : MftState} (op : MftOp)
    (h : Accounted before [] st) :
    Accounted before [] (MftOp.apply reader boot mftRuns st op) := by
  cases op with
  | record raw recordNo logicalOffset =>
    exact processMftRecord_accounted raw recordNo logicalOffset boot mftRuns h
  | unreadable recordNo => exact h.markIncomplete rfl
  | merge recordNo => exact mergeTarget_accounted reader boot mftRuns recordNo h

theorem runMftOps_accounted {before : List NtfsWarning} {st : MftState} (ops : List MftOp)
    (h : Accounted before [] st) :
    Accounted before [] (runMftOps reader boot mftRuns st ops) := by
  induction ops generalizing st with
  | nil => exact h
  | cons op ops ih => exact ih (apply_accounted reader boot mftRuns op h)

/-- In every state of every run the counters are within their limits and dominate what the
    entries hold, and no kind of budget was reported twice. A refused admission changes no
    counter and no entry, makes the scan incomplete and keeps to the one report. -/
theorem runMftOps_retention (isComplete : Bool) (before : List NtfsWarning) (ops : List MftOp)
    {st : MftState} (hst : st = runMftOps reader boot mftRuns (startState isComplete before) ops) :
    Accounted before [] st ∧
      (∀ inUse isDirectory, (st.ledger.baseRecordSlotAvailable inUse isDirectory).1 = false →
        Refused st
          { st with ledger := (st.ledger.baseRecordSlotAvailable inUse isDirectory).2 }) ∧
      (∀ recordNo entry, ¬BaseAdmitted st entry →
        Refused st (retainBaseEntry recordNo entry st)) ∧
      (∀ recordNo baseRecord, st.ledger.admitExtensionReference.1 = false →
        Refused st (retainExtensionReference recordNo baseRecord st)) ∧
      ∀ extNo record extra st',
        mergeExtensionRecord boot extNo record st extra = .stop st' → Refused st st' := by
  -- the totals come from the run, the refusals from the state it ends in
  refine ⟨?_, ?_, ?_, ?_, ?_⟩
  · rw [hst]
    exact runMftOps_accounted reader boot mftRuns ops (startState_accounted isComplete before)
  · intro inUse isDirectory hslot
    obtain ⟨l', hrefused, hrefusal⟩ | havailable :=
      st.ledger.baseRecordSlotAvailable_spec inUse isDirectory
    · rw [hrefused]
      exact ⟨rfl, rfl, hrefusal⟩
    · rw [havailable] at hslot
      cases hslot
  · intro recordNo entry hnot
    obtain hrefused | ⟨hadmitted, _⟩ := retainBaseEntry_spec recordNo entry st
    · exact hrefused
    · exact absurd hadmitted hnot
  · intro recordNo baseRecord hnot
    obtain hrefused | ⟨hadmitted, _⟩ := retainExtensionReference_spec recordNo baseRecord st
    · exact hrefused
    · rw [hnot] at hadmitted
      cases hadmitted
  · intro extNo record extra st' hstop
    obtain ⟨st'', hstop', hrefused⟩ | ⟨_, _, hnext, _⟩ :=
      mergeExtensionRecord_spec boot extNo record st extra
    · rw [hstop'] at hstop
      cases hstop
      exact hrefused
    · rw [hnext] at hstop
      cases hstop

end Run

/-- A directory with one name more than the entries may hold. -/
def crowdedEntry : ParsedEntry :=
  { sequence := 1, inUse := true, isDirectory := true, bestName := none
    names := List.replicate 400001 ⟨5, 5, 1, "a", 0, 0⟩
    attributesComplete := true, stdInfo := {}, streams := [], recordPhysOffset := 0
    warnings := [] }

/-- Record 16 is a deleted file, and record 12 holds a stream of it. -/
def mergedVolume : FaultySource :=
  smallVolume [0x11, 0x11, 0x04] [(12, encodeRecord 0 16 [encodeResident attrData [1, 2, 3]]),
    (16, encodeRecord 0 0 [encodeFileName 5 [0x61]])]

def mergedBoot : NtfsBoot where
  bytesPerSector := 256
  sectorsPerCluster := 1
  clusterSize := 256
  totalSectors := 64
  totalClusters := 64
  mftLcn := 4
  mftmirrLcn := 4
  fileRecordSize := 256
  indexRecordSize := 256
  volumeSerial := 0

/-- Record 12 arrives, record 13 is unreadable, record 16 arrives, and its extension is merged. -/
def mergedOps : List MftOp :=
  [.record (Bytes.window mergedVolume.byte 4096 256) 12 3072, .unreadable 13,
    .record (Bytes.window mergedVolume.byte 5120 256) 16 4096, .merge 16]

def mergedState : MftState :=
  runMftOps mergedVolume.toSourceReader mergedBoot [⟨17, some 4⟩] (startState true []) mergedOps

theorem mergedState_seen :
    (mergedState.entries.get? 16).map (·.streams.length) = some 1 ∧
      (mergedState.ledger.admitBaseRecord true true ⟨400001, 0, 0⟩).1 = false := by
  decide +kernel

/-- The entry holds the merged stream, and what it holds is counted. The refusal of the directory
    changes nothing but the report. -/
theorem runMftOps_retention_merged :
    (mergedState.entries.get? 16).map (·.streams.length) = some 1 ∧
      mergedState.entries.total (fun entry => entry.streams.length) ≤
        mergedState.ledger.budget.entryStreams ∧
      Refused mergedState (retainBaseEntry 30 crowdedEntry mergedState) := by
  obtain ⟨haccounted, _, hbase, _⟩ := runMftOps_retention mergedVolume.toSourceReader mergedBoot
    [⟨17, some 4⟩] true [] mergedOps (rfl : mergedState = _)
  refine ⟨mergedState_seen.1,
    Nat.le_trans (Nat.le_add_right _ _) haccounted.streams, hbase 30 crowdedEntry ?_⟩
  intro ⟨runElements, hcount, hadmitted⟩
  have hlength : crowdedEntry.names.length = 400001 := List.length_replicate
  have hzero : 0 = runElements := Option.some.inj hcount
  rw [hlength, ← hzero] at hadmitted
  exact absurd (hadmitted.symm.trans mergedState_seen.2) Bool.noConfusion

/-! ## Scans -/

/-- The operation a delivered record is. -/
def recordOp (boot : NtfsBoot) (raws : Nat → Option Bytes) (recordNo : Nat) : MftOp :=
  match raws recordNo with
  | some raw => .record raw recordNo (recordNo * boot.fileRecordSize)
  | none => .unreadable recordNo

section Scan

variable (reader : SourceReader) (boot : NtfsBoot) (mftRuns : List RunElement)

theorem apply_recordOp (raws : Nat → Option Bytes) (st : MftState) (recordNo : Nat) :
    MftOp.apply reader boot mftRuns st (recordOp boot raws recordNo) =
      deliverRecord boot mftRuns raws st recordNo := by
  unfold recordOp deliverRecord
  cases raws recordNo with
  | none => rfl
  | some raw => rfl

theorem deliverRecords_eq_run (raws : Nat → Option Bytes) (start count : Nat) (st : MftState) :
    deliverRecords boot mftRuns raws start count st = runMftOps reader boot mftRuns st
      ((List.range' start count).map (recordOp boot raws)) := by
  unfold deliverRecords runMftOps
  rw [List.foldl_map]
  apply List.foldl_ext
  intro st recordNo _
  exact (apply_recordOp reader boot mftRuns raws st recordNo).symm

/-- The loop over the targets merges some of them, and all unless a budget stops it. -/
theorem mergeTargetsFrom_eq_run (targets : List Nat) (st : MftState) :
    ∃ merged, merged <+: targets ∧ mergeTargetsFrom reader boot mftRuns targets st =
      runMftOps reader boot mftRuns st (merged.map .merge) := by
  induction targets generalizing st with
  | nil => exact ⟨[], List.prefix_refl _, rfl⟩
  | cons recordNo targets ih =>
    unfold mergeTargetsFrom
    cases hstep : mergeTarget reader boot mftRuns recordNo st with
    | next st' =>
      obtain ⟨merged, hprefix, hrun⟩ := ih st'
      refine ⟨recordNo :: merged, List.cons_prefix_cons.mpr ⟨rfl, hprefix⟩, ?_⟩
      show mergeTargetsFrom reader boot mftRuns targets st' =
        runMftOps reader boot mftRuns (mergeTarget reader boot mftRuns recordNo st).state
          (merged.map .merge)
      rw [hrun, hstep]
      rfl
    | stop st' =>
      refine ⟨[recordNo], List.cons_prefix_cons.mpr ⟨rfl, List.nil_prefix⟩, ?_⟩
      show st' = (mergeTarget reader boot mftRuns recordNo st).state
      rw [hstep]
      rfl

end Scan

/-- The two passes of a scan are a run, so what they retain is accounted for. -/
theorem scanRecords_accounted {reader : SourceReader} {plan : ScanPlan} {st : MftState}
    (hplan : planScan reader = .ok plan) (hscan : scanRecords reader plan = .ok st) :
    Accounted plan.warnings [] st := by
  rw [scanRecords_eq hplan] at hscan
  cases hscan
  obtain ⟨merged, _, hrun⟩ := mergeTargetsFrom_eq_run reader plan.boot plan.mft.runs
    (mergeTargets (passedState reader plan)) (passedState reader plan)
  unfold mergePass
  rw [hrun]
  apply runMftOps_accounted
  unfold passedState
  rw [deliverRecords_eq_run reader]
  exact runMftOps_accounted reader plan.boot plan.mft.runs _
    (startState_accounted plan.isComplete plan.warnings)

end Undelete.Ntfs
