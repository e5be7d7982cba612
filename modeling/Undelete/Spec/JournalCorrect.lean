import Undelete.Spec.AuditCorrect

/-!
# Runs of the journal

The appends to a journal and its audit step together: a record that is appended is accepted
by the auditor, in the state it has after the records before it (`auditRecord_of_prepare`),
and a line the auditor accepts is the one an append writes, provided that its job identity
is spelled as `append` spells it (`prepareRecord_of_audit`).

## Key results

- `appendRun_durable`: what a sink that may fail holds after any run of appends.
-/

namespace Undelete.Restore

open Except

variable {Value : Type} {json : Json Value} {sha256 : Bytes → Digest}

/-! ## One append -/

/-- The record an append serializes. -/
def JobJournal.record (journal : JobJournal) (kind : String) (payload : Value)
    (payloadBytes : Bytes) (hash : String) : JournalRecord Value where
  version := journalVersion
  jobIdSha256 := hexLower journal.jobIdSha256.toList
  sequence := journal.nextSequence
  previousHash := journal.previousHash
  kind
  payloadLength := payloadBytes.length
  payload
  recordHash := hash

theorem prepareRecord_eq_ok {journal : JobJournal} {kind hash : String}
    {payload : Except String Value} {bytes : Bytes} :
    prepareRecord json sha256 journal kind payload = .ok (bytes, hash) ↔
      journal.poisoned = false ∧ journal.nextSequence < maxJournalRecords ∧
        ∃ value payloadBytes line, payload = .ok value ∧ json.valueToVec value = .ok payloadBytes ∧
          payloadBytes.length ≤ maxJournalPayloadBytes ∧
          recordHash sha256 journal.jobIdSha256 journal.nextSequence journal.previousHash kind
            payloadBytes = .ok hash ∧
          json.recordToVec (journal.record kind value payloadBytes hash) = .ok line ∧
          bytes = line ++ [10] ∧ bytes.length ≤ maxJournalRecordBytes := by
  simp only [prepareRecord, serialization, bind_eq_ok, throw_bind, ite_throw_eq_ok, mapError_eq_ok,
    pure_eq_ok, Prod.mk.injEq, Bool.not_eq_true, ge_iff_le, gt_iff_lt, not_le, not_lt]
  constructor
  · rintro ⟨hpoisoned, hlimit, value, hvalue, payloadBytes, hpayload, hbound, hash', hhash, line,
      hline, hlength, rfl, rfl⟩
    exact ⟨hpoisoned, hlimit, value, payloadBytes, line, hvalue, hpayload, hbound, hhash, hline,
      rfl, hlength⟩
  · rintro ⟨hpoisoned, hlimit, value, payloadBytes, line, hvalue, hpayload, hbound, hhash, hline,
      rfl, hlength⟩
    exact ⟨hpoisoned, hlimit, value, hvalue, payloadBytes, hpayload, hbound, hash, hhash, line,
      hline, hlength, rfl, rfl⟩

/-- The journal after an append that succeeds. -/
def JobJournal.accept (journal : JobJournal) (bytes : Bytes) (hash : String) : JobJournal :=
  { journal with
    sink := journal.sink ++ bytes
    nextSequence := journal.nextSequence + 1
    previousHash := hash }

/-- The journal after an append whose sink failed behind the bytes `written`. -/
def JobJournal.poison (journal : JobJournal) (written : Bytes) : JobJournal :=
  { journal with sink := journal.sink ++ written, poisoned := true }

/-- The arguments of one append, and how the sink fails during it. -/
structure AppendCall (Value : Type) where
  kind : String
  payload : Except String Value
  fault : Option SinkFault

/-- The append of one call. -/
def JobJournal.call (json : Json Value) (sha256 : Bytes → Digest) (journal : JobJournal)
    (call : AppendCall Value) : Except Fault Unit × JobJournal :=
  journal.append json sha256 call.kind call.payload call.fault

/-- What a call prepares for the sink. -/
def AppendCall.prepared (json : Json Value) (sha256 : Bytes → Digest) (journal : JobJournal)
    (call : AppendCall Value) : Except Fault (Bytes × String) :=
  prepareRecord json sha256 journal call.kind call.payload

theorem call_refused {journal : JobJournal} {call : AppendCall Value} {e : Fault}
    (h : call.prepared json sha256 journal = .error e) :
    journal.call json sha256 call = (.error e, journal) := by
  unfold JobJournal.call JobJournal.append
  rw [AppendCall.prepared] at h
  rw [h]

theorem call_accepted {journal : JobJournal} {call : AppendCall Value} {bytes : Bytes}
    {hash : String} (h : call.prepared json sha256 journal = .ok (bytes, hash))
    (hfault : call.fault = none) :
    journal.call json sha256 call = (.ok (), journal.accept bytes hash) := by
  have hlimit := (prepareRecord_eq_ok.mp h).2.1
  have hnext : U64.checkedAdd journal.nextSequence 1 = some (journal.nextSequence + 1) := by
    apply U64.checkedAdd_of_lt
    unfold maxJournalRecords at hlimit
    omega
  unfold JobJournal.call JobJournal.append
  rw [AppendCall.prepared] at h
  rw [h, hfault]
  dsimp only
  rw [hnext]
  rfl

/-- A call whose sink fails leaves a part of its record. -/
theorem call_failed {journal : JobJournal} {call : AppendCall Value} {bytes : Bytes}
    {hash : String} {fault : SinkFault} (h : call.prepared json sha256 journal = .ok (bytes, hash))
    (hfault : call.fault = some fault) :
    ∃ operation error written, written <+: bytes ∧
      journal.call json sha256 call =
        (.error (journalIo operation error), journal.poison written) := by
  unfold JobJournal.call JobJournal.append
  rw [AppendCall.prepared] at h
  rw [h, hfault]
  cases fault with
  | write written error => exact ⟨"write", error, bytes.take written, List.take_prefix _ _, rfl⟩
  | flush error => exact ⟨"flush", error, bytes, List.prefix_refl _, rfl⟩
  | sync error => exact ⟨"sync", error, bytes, List.prefix_refl _, rfl⟩

theorem prepared_poisoned {journal : JobJournal} (h : journal.poisoned = true)
    (call : AppendCall Value) :
    call.prepared json sha256 journal = .error (.error .journalPoisoned) := by
  rw [AppendCall.prepared, prepareRecord, if_pos h]
  rfl

/-! ## Runs -/

/-- The journal after a run of appends. -/
def appendRun (json : Json Value) (sha256 : Bytes → Digest) (journal : JobJournal)
    (calls : List (AppendCall Value)) : JobJournal :=
  calls.foldl (fun journal call => (journal.call json sha256 call).2) journal

/-- The acknowledged appends of a run: their kinds, and the complete records they wrote. -/
def acknowledged (json : Json Value) (sha256 : Bytes → Digest) :
    JobJournal → List (AppendCall Value) → List (String × Bytes)
  | _, [] => []
  | journal, call :: calls =>
    let (result, next) := journal.call json sha256 call
    match result, call.prepared json sha256 journal with
    | .ok (), .ok (bytes, _) => (call.kind, bytes) :: acknowledged json sha256 next calls
    | _, _ => acknowledged json sha256 next calls

@[simp] theorem appendRun_nil (journal : JobJournal) :
    appendRun json sha256 journal [] = journal := rfl

theorem appendRun_cons (journal : JobJournal) (call : AppendCall Value)
    (calls : List (AppendCall Value)) : appendRun json sha256 journal (call :: calls) =
      appendRun json sha256 (journal.call json sha256 call).2 calls := rfl

theorem appendRun_append (journal : JobJournal) (calls calls' : List (AppendCall Value)) :
    appendRun json sha256 journal (calls ++ calls') =
      appendRun json sha256 (appendRun json sha256 journal calls) calls' :=
  List.foldl_append

theorem acknowledged_refused {journal : JobJournal} {call : AppendCall Value} {e : Fault}
    (h : call.prepared json sha256 journal = .error e) (calls : List (AppendCall Value)) :
    acknowledged json sha256 journal (call :: calls) = acknowledged json sha256 journal calls := by
  rw [acknowledged, call_refused h]

theorem acknowledged_accepted {journal : JobJournal} {call : AppendCall Value} {bytes : Bytes}
    {hash : String} (h : call.prepared json sha256 journal = .ok (bytes, hash))
    (hfault : call.fault = none) (calls : List (AppendCall Value)) :
    acknowledged json sha256 journal (call :: calls) =
      (call.kind, bytes) :: acknowledged json sha256 (journal.accept bytes hash) calls := by
  rw [acknowledged, call_accepted h hfault, h]

/-- After a fault of the sink nothing changes any more. -/
theorem run_poisoned {journal : JobJournal} (h : journal.poisoned = true)
    (calls : List (AppendCall Value)) :
    appendRun json sha256 journal calls = journal ∧
    acknowledged json sha256 journal calls = [] := by
  induction calls with
  | nil => exact ⟨rfl, rfl⟩
  | cons call calls ih =>
    have hrefused := @prepared_poisoned Value json sha256 journal h call
    rw [appendRun_cons, call_refused hrefused, acknowledged_refused hrefused]
    exact ih

theorem acknowledged_failed {journal : JobJournal} {call : AppendCall Value} {bytes : Bytes}
    {hash : String} {fault : SinkFault} (h : call.prepared json sha256 journal = .ok (bytes, hash))
    (hfault : call.fault = some fault) (calls : List (AppendCall Value)) :
    acknowledged json sha256 journal (call :: calls) = [] := by
  obtain ⟨operation, error, written, _, hcall⟩ := call_failed h hfault
  have hrest : acknowledged json sha256 (journal.poison written) calls = [] :=
    (run_poisoned rfl calls).2
  rw [acknowledged, hcall]
  exact hrest

/-- The sink fails during this call. -/
def AppendCall.Fails (json : Json Value) (sha256 : Bytes → Digest) (journal : JobJournal)
    (call : AppendCall Value) : Prop :=
  (∃ record, call.prepared json sha256 journal = .ok record) ∧ call.fault ≠ none

/-- A part of the record of one call whose sink failed. -/
def UnacknowledgedTail (json : Json Value) (sha256 : Bytes → Digest) (journal : JobJournal)
    (calls : List (AppendCall Value)) (tail : Bytes) : Prop :=
  ∃ before call after bytes hash, calls = before ++ call :: after ∧
    call.prepared json sha256 (appendRun json sha256 journal before) = .ok (bytes, hash) ∧
    call.fault ≠ none ∧ tail <+: bytes

theorem UnacknowledgedTail.cons {journal : JobJournal} {call : AppendCall Value}
    {calls : List (AppendCall Value)} {tail : Bytes}
    (h : UnacknowledgedTail json sha256 (journal.call json sha256 call).2 calls tail) :
    UnacknowledgedTail json sha256 journal (call :: calls) tail := by
  obtain ⟨before, failing, after, bytes, hash, rfl, hprepared, hfault, htail⟩ := h
  exact ⟨call :: before, failing, after, bytes, hash, rfl, hprepared, hfault, htail⟩

/-- The sink holds the complete records of the acknowledged appends, and at most a part of one
    more. -/
theorem appendRun_sink (journal : JobJournal) (calls : List (AppendCall Value)) :
    ∃ tail, (appendRun json sha256 journal calls).sink =
        journal.sink ++ ((acknowledged json sha256 journal calls).map (·.2)).flatten ++ tail ∧
      (tail = [] ∨ UnacknowledgedTail json sha256 journal calls tail) := by
  induction calls generalizing journal with
  | nil =>
    refine ⟨[], ?_, .inl rfl⟩
    rw [appendRun_nil, acknowledged, List.map_nil, List.flatten_nil, List.append_nil,
      List.append_nil]
  | cons call calls ih =>
    cases hprepared : call.prepared json sha256 journal with
    | error e =>
      obtain ⟨tail, hsink, htail⟩ := ih (journal.call json sha256 call).2
      refine ⟨tail, ?_, htail.imp_right UnacknowledgedTail.cons⟩
      rw [appendRun_cons, hsink, call_refused hprepared, acknowledged_refused hprepared]
    | ok prepared =>
      obtain ⟨bytes, hash⟩ := prepared
      cases hfault : call.fault with
      | none =>
        obtain ⟨tail, hsink, htail⟩ := ih (journal.call json sha256 call).2
        refine ⟨tail, ?_, htail.imp_right UnacknowledgedTail.cons⟩
        rw [appendRun_cons, hsink, call_accepted hprepared hfault,
          acknowledged_accepted hprepared hfault, List.map_cons, List.flatten_cons,
          JobJournal.accept, List.append_assoc journal.sink]
      | some fault =>
        obtain ⟨operation, error, written, hwritten, hcall⟩ := call_failed hprepared hfault
        refine ⟨written, ?_, .inr ⟨[], call, calls, bytes, hash, rfl, hprepared, ?_, hwritten⟩⟩
        · rw [appendRun_cons, hcall, acknowledged_failed hprepared hfault,
            (run_poisoned rfl calls).1, JobJournal.poison, List.map_nil, List.flatten_nil,
            List.append_nil]
        · rw [hfault]
          exact Option.some_ne_none fault

/-- After a fault of the sink every append is refused, and the journal stays as it is. -/
theorem run_after_failure {journal : JobJournal} {call : AppendCall Value}
    (h : call.Fails json sha256 journal) (between : List (AppendCall Value))
    (later : AppendCall Value) :
    appendRun json sha256 journal (call :: between) = (journal.call json sha256 call).2 ∧
      (journal.call json sha256 call).2.call json sha256 later =
        (.error (.error .journalPoisoned), (journal.call json sha256 call).2) := by
  obtain ⟨⟨⟨bytes, hash⟩, hprepared⟩, hfault⟩ := h
  obtain ⟨fault, hfault⟩ := Option.ne_none_iff_exists'.mp hfault
  obtain ⟨operation, error, written, _, hcall⟩ := call_failed hprepared hfault
  rw [appendRun_cons, hcall]
  exact ⟨(run_poisoned rfl between).1, call_refused (prepared_poisoned rfl later)⟩

/-- The refusals that concern a bound. -/
def Fault.isBound : Fault → Bool
  | .error (.journalRecordLimit _) => true
  | .error (.journalPayloadTooLarge _ _) => true
  | .error (.journalRecordTooLarge _ _) => true
  | _ => false

theorem call_bound {journal : JobJournal} {call : AppendCall Value} {e : Fault}
    (h : (journal.call json sha256 call).1 = .error e) (hbound : e.isBound = true) :
    (journal.call json sha256 call).2 = journal := by
  cases hprepared : call.prepared json sha256 journal with
  | error e' => rw [call_refused hprepared]
  | ok prepared =>
    obtain ⟨bytes, hash⟩ := prepared
    cases hfault : call.fault with
    | none =>
      rw [call_accepted hprepared hfault] at h
      cases h
    | some fault =>
      obtain ⟨operation, error, written, _, hcall⟩ := call_failed hprepared hfault
      rw [hcall] at h
      cases h
      cases hbound

/-! ## The auditor follows the journal -/

/-- What the journal relies on in `serde_json`: a record is written as one line of text. -/
def Json.Lawful (json : Json Value) : Prop :=
  ∀ record line, json.recordToVec record = .ok line →
    line ≠ [] ∧ 10 ∉ line ∧ ∃ text, line = Bytes.ofString text

/-- Records with this payload are read back as they were written. -/
def Json.ReadsBack (json : Json Value) (payload : Value) : Prop :=
  ∀ record line, record.payload = payload → json.recordToVec record = .ok line →
    json.recordFromSlice line = .ok record

/-- The auditor expects what the journal appends next. -/
structure Synced (st : AuditState Value) (journal : JobJournal) : Prop where
  sequence : st.expectedSequence = journal.nextSequence
  previous : st.expectedPrevious = journal.previousHash
  identity : ∀ expected ∈ st.expectedJobIdSha256, expected = journal.jobIdSha256

theorem synced_withSink (digest : Digest) :
    Synced ({} : AuditState Value) (JobJournal.withSink digest) :=
  ⟨rfl, rfl, fun _ h => (by cases h)⟩

theorem Synced.next {st : AuditState Value} {journal : JobJournal} (h : Synced st journal)
    (bytes : Bytes) (record : JournalRecord Value) :
    Synced (st.next record journal.jobIdSha256) (journal.accept bytes record.recordHash) where
  sequence := congrArg (· + 1) h.sequence
  previous := rfl
  identity := fun _ hexpected => (Option.some.inj hexpected).symm

/-- A prepared record passes the audit. -/
theorem auditRecord_of_prepare (hjson : json.Lawful) {st : AuditState Value} {journal : JobJournal}
    (hsynced : Synced st journal) {kind hash : String} {value : Value} {bytes : Bytes}
    (hreads : json.ReadsBack value)
    (h : prepareRecord json sha256 journal kind (.ok value) = .ok (bytes, hash)) :
    ∃ record, record.kind = kind ∧ record.sequence = journal.nextSequence ∧
      record.recordHash = hash ∧
      auditRecord json sha256 maxJournalRecords st bytes =
        .ok (st.next record journal.jobIdSha256) := by
  obtain ⟨_, hlimit, value', payloadBytes, line, hvalue, hpayload, hbound, hhash, hline, hbytes,
    hlength⟩ := prepareRecord_eq_ok.mp h
  cases hvalue
  refine ⟨journal.record kind value payloadBytes hash, rfl, rfl, rfl, ?_⟩
  rw [auditRecord_eq_ok]
  refine ⟨journal.record kind value payloadBytes hash, payloadBytes, journal.jobIdSha256, ?_,
    decodeHash_hexLower _, hsynced.identity, hhash, ?_, rfl⟩
  · rw [auditEnvelope_eq_ok]
    exact ⟨line, hbytes, hsynced.sequence ▸ hlimit, hlength, (hjson _ _ hline).1,
      hreads _ _ rfl hline, hline, rfl, hsynced.sequence.symm, hsynced.previous.symm, hpayload,
      hbound, rfl⟩
  · rw [hsynced.sequence]
    unfold maxJournalRecords at hlimit
    omega

/-- An accepted line is the one an append prepares, provided that its job identity is spelled
    as `append` spells it. -/
theorem prepareRecord_of_audit {st : AuditState Value} {journal : JobJournal}
    (hsynced : Synced st journal) (hpoisoned : journal.poisoned = false) {terminatedLine : Bytes}
    {record : JournalRecord Value} {payload : Bytes}
    (h : auditEnvelope json maxJournalRecords st terminatedLine = .ok (record, payload))
    (hidentity : record.jobIdSha256 = hexLower journal.jobIdSha256.toList)
    (hhash : recordHash sha256 journal.jobIdSha256 record.sequence record.previousHash record.kind
      payload = .ok record.recordHash) :
    prepareRecord json sha256 journal record.kind (.ok record.payload) =
      .ok (terminatedLine, record.recordHash) := by
  obtain ⟨line, hline, hlimit, hlength, _, _, hwrite, hversion, hsequence, hprevious, hpayload,
    hbound, hsame⟩ := auditEnvelope_eq_ok.mp h
  rw [hsynced.sequence] at hsequence hlimit
  rw [hsynced.previous] at hprevious
  have hrecord : journal.record record.kind record.payload payload record.recordHash = record := by
    cases record
    dsimp only at hversion hsequence hprevious hidentity hsame
    subst hversion hsequence hprevious hidentity hsame
    rfl
  rw [hsequence, hprevious] at hhash
  rw [prepareRecord_eq_ok]
  exact ⟨hpoisoned, hlimit, record.payload, payload, line, rfl, hpayload, hbound, hhash,
    hrecord.symm ▸ hwrite, hline, hlength⟩

/-- The auditor accepts the acknowledged records of a run. -/
theorem acknowledged_audited (hjson : json.Lawful) {st : AuditState Value} {journal : JobJournal}
    (hsynced : Synced st journal) {calls : List (AppendCall Value)}
    (hreads : ∀ call ∈ calls, ∀ value, call.payload = .ok value → json.ReadsBack value) :
    ∃ st' new, ((acknowledged json sha256 journal calls).map (·.2)).foldlM
        (auditRecord json sha256 maxJournalRecords) st = .ok st' ∧
      st'.records = st.records ++ new ∧
      new.map (·.kind) = (acknowledged json sha256 journal calls).map (·.1) ∧
      new.map (·.sequence) =
        List.range' journal.nextSequence (acknowledged json sha256 journal calls).length := by
  induction calls generalizing st journal with
  | nil => exact ⟨st, [], rfl, (List.append_nil _).symm, rfl, rfl⟩
  | cons call calls ih =>
    have hreads' := fun call' hcall' => hreads call' (List.mem_cons_of_mem call hcall')
    cases hprepared : call.prepared json sha256 journal with
    | error e =>
      rw [acknowledged_refused hprepared]
      exact ih hsynced hreads'
    | ok prepared =>
      obtain ⟨bytes, hash⟩ := prepared
      cases hfault : call.fault with
      | some fault =>
        rw [acknowledged_failed hprepared hfault]
        exact ⟨st, [], rfl, (List.append_nil _).symm, rfl, rfl⟩
      | none =>
        obtain ⟨_, _, value, _, _, hvalue, _⟩ := prepareRecord_eq_ok.mp hprepared
        rw [AppendCall.prepared, hvalue] at hprepared
        obtain ⟨record, hkind, hsequence, rfl, hstep⟩ := auditRecord_of_prepare hjson hsynced
          (hreads call List.mem_cons_self value hvalue) hprepared
        obtain ⟨st', new, hfold, hrecords, hkinds, hsequences⟩ :=
          ih (hsynced.next bytes record) hreads'
        rw [← hvalue] at hprepared
        rw [acknowledged_accepted hprepared hfault]
        refine ⟨st', record :: new, ?_, ?_, ?_, ?_⟩
        · rw [List.map_cons, List.foldlM_cons, hstep, bind_ok]
          exact hfold
        · rw [hrecords, AuditState.next, List.append_assoc]
          rfl
        · rw [List.map_cons, List.map_cons, hkind, hkinds]
        · rw [List.map_cons, List.length_cons, List.range'_succ, hsequence, hsequences]
          rfl

/-- An acknowledged record is the text of a record, and a newline. -/
theorem acknowledged_line {journal : JobJournal} {calls : List (AppendCall Value)}
    {entry : String × Bytes} (h : entry ∈ acknowledged json sha256 journal calls) :
    ∃ record body, json.recordToVec record = .ok body ∧ entry.2 = body ++ [10] ∧
      record.jobIdSha256 = hexLower journal.jobIdSha256.toList := by
  induction calls generalizing journal with
  | nil => cases h
  | cons call calls ih =>
    cases hprepared : call.prepared json sha256 journal with
    | error e =>
      rw [acknowledged_refused hprepared] at h
      exact ih h
    | ok prepared =>
      obtain ⟨bytes, hash⟩ := prepared
      cases hfault : call.fault with
      | some fault =>
        rw [acknowledged_failed hprepared hfault] at h
        cases h
      | none =>
        rw [acknowledged_accepted hprepared hfault] at h
        rcases List.mem_cons.mp h with rfl | h
        · obtain ⟨_, _, value, payloadBytes, line, _, _, _, _, hline, hbytes, _⟩ :=
            prepareRecord_eq_ok.mp hprepared
          exact ⟨_, line, hline, hbytes, rfl⟩
        · obtain ⟨record, body, hwrite, hbody, hidentity⟩ := ih h
          exact ⟨record, body, hwrite, hbody, hidentity⟩

/-- The acknowledged records are cut apart again. -/
theorem splitInclusive_acknowledged (hjson : json.Lawful) (journal : JobJournal)
    (calls : List (AppendCall Value)) :
    Bytes.splitInclusive 10 ((acknowledged json sha256 journal calls).map (·.2)).flatten =
      (acknowledged json sha256 journal calls).map (·.2) := by
  have hlines : (acknowledged json sha256 journal calls).map (·.2) =
      ((acknowledged json sha256 journal calls).map (·.2.dropLast)).map (· ++ [10]) := by
    rw [List.map_map]
    apply List.map_congr_left
    intro entry hentry
    obtain ⟨record, body, _, hbody, _⟩ := acknowledged_line hentry
    rw [Function.comp_apply, hbody, List.dropLast_concat]
  rw [hlines]
  apply Bytes.splitInclusive_flatten
  intro body hbody
  obtain ⟨entry, hentry, rfl⟩ := List.mem_map.mp hbody
  obtain ⟨record, body, hwrite, hbody, _⟩ := acknowledged_line hentry
  rw [hbody, List.dropLast_concat]
  exact (hjson _ _ hwrite).2.1

theorem flatten_isText {pieces : List Bytes}
    (h : ∀ piece ∈ pieces, ∃ text, piece = Bytes.ofString text) :
    ∃ text, pieces.flatten = Bytes.ofString text := by
  induction pieces with
  | nil => exact ⟨"", by decide⟩
  | cons piece pieces ih =>
    obtain ⟨text, rfl⟩ := h piece List.mem_cons_self
    obtain ⟨rest, hrest⟩ := ih fun piece hpiece => h piece (List.mem_cons_of_mem _ hpiece)
    exact ⟨text ++ rest, by rw [List.flatten_cons, hrest, Bytes.ofString_append]⟩

theorem acknowledged_isText (hjson : json.Lawful) (journal : JobJournal)
    (calls : List (AppendCall Value)) :
    (Bytes.toString? ((acknowledged json sha256 journal calls).map (·.2)).flatten).isSome := by
  have htext : ∀ piece ∈ (acknowledged json sha256 journal calls).map (·.2),
      ∃ text, piece = Bytes.ofString text := by
    intro piece hpiece
    obtain ⟨entry, hentry, rfl⟩ := List.mem_map.mp hpiece
    obtain ⟨record, body, hwrite, hbody, _⟩ := acknowledged_line hentry
    obtain ⟨text, rfl⟩ := (hjson _ _ hwrite).2.2
    have hnewline : ([10] : Bytes) = Bytes.ofString "\n" := by decide
    exact ⟨text ++ "\n", by rw [hbody, Bytes.ofString_append, hnewline]⟩
  obtain ⟨text, htext⟩ := flatten_isText htext
  rw [htext, Bytes.toString?_eq_some.mpr rfl]
  rfl

theorem acknowledged_getLast? (journal : JobJournal) (calls : List (AppendCall Value))
    (h : ((acknowledged json sha256 journal calls).map (·.2)).flatten ≠ []) :
    ((acknowledged json sha256 journal calls).map (·.2)).flatten.getLast? = some 10 := by
  rcases List.eq_nil_or_concat (acknowledged json sha256 journal calls) with
    hnil | ⟨init, entry, hlast⟩
  · rw [hnil] at h
    exact absurd rfl h
  · have hentry : entry ∈ acknowledged json sha256 journal calls := by
      rw [hlast, List.concat_eq_append]
      exact List.mem_concat_self
    obtain ⟨record, body, _, hbody, _⟩ := acknowledged_line hentry
    rw [hlast, List.concat_eq_append, List.map_append, List.flatten_append, List.map_singleton,
      List.flatten_singleton, hbody, ← List.append_assoc, List.getLast?_concat]

/-! ## A sink that may fail -/

/-- What a run of appends on a new journal leaves behind. -/
theorem appendRun_durable (hjson : json.Lawful) (sha256 : Bytes → Digest) (digest : Digest)
    (calls : List (AppendCall Value))
    (hreads : ∀ call ∈ calls, ∀ value, call.payload = .ok value → json.ReadsBack value) :
    let start := JobJournal.withSink digest
    let records := acknowledged json sha256 start calls
    -- the sink holds the acknowledged records and at most a part of one more,
    (∃ tail, (appendRun json sha256 start calls).sink = (records.map (·.2)).flatten ++ tail ∧
      (tail = [] ∨ UnacknowledgedTail json sha256 start calls tail)) ∧
    -- after a fault of the sink nothing is written, and every append says so,
    (∀ before call between later after, calls = before ++ call :: between ++ later :: after →
      call.Fails json sha256 (appendRun json sha256 start before) →
      let journal := appendRun json sha256 start (before ++ call :: between)
      journal = appendRun json sha256 start (before ++ [call]) ∧
        journal.call json sha256 later = (.error (.error .journalPoisoned), journal)) ∧
    -- an append refused by a bound changes nothing,
    (∀ before call after e, calls = before ++ call :: after →
      let journal := appendRun json sha256 start before
      (journal.call json sha256 call).1 = .error e → e.isBound = true →
        (journal.call json sha256 call).2 = journal) ∧
    -- and the acknowledged records pass the audit.
    ∃ audit, auditJournal json sha256 (records.map (·.2)).flatten = .ok audit ∧
      audit.kinds = records.map (·.1) ∧ audit.sequences = List.range records.length := by
  intro start records
  refine ⟨?_, ?_, ?_, ?_⟩
  · exact appendRun_sink start calls
  · intro before call between later after _ hfails
    obtain ⟨hrun, hcall⟩ := run_after_failure hfails between later
    dsimp only
    rw [appendRun_append, appendRun_append, hrun, appendRun_cons, appendRun_nil]
    exact ⟨rfl, hcall⟩
  · intro before call after e _ journal he hbound
    exact call_bound he hbound
  · obtain ⟨st, new, hfold, hrecords, hkinds, hsequences⟩ :=
      acknowledged_audited hjson (synced_withSink digest) hreads
    refine ⟨⟨st.records⟩, ?_, ?_, ?_⟩
    · rw [auditJournal_eq_ok]
      refine ⟨acknowledged_isText hjson start calls, acknowledged_getLast? start calls, st, ?_, rfl⟩
      rw [splitInclusive_acknowledged hjson start calls]
      exact hfold
    · rw [JournalAudit.kinds, hrecords]
      exact hkinds
    · rw [JournalAudit.sequences, hrecords, List.range_eq_range']
      exact hsequences

/-! ## A journal of one record -/

def jobDigest : Digest := Vector.replicate 32 0xab

/-- The SHA-256 of the hash input of the record below. -/
def startDigest : Digest :=
  #v[70, 26, 163, 153, 209, 82, 134, 69, 52, 51, 164, 12, 92, 175, 123, 155,
    0, 19, 106, 47, 1, 187, 43, 159, 200, 125, 197, 204, 221, 150, 231, 76]

/-- The first record of the job `jobDigest`, with its identity spelled in some way. -/
def startRecord (identity : String) : JournalRecord Unit where
  version := 1
  jobIdSha256 := identity
  sequence := 0
  previousHash := zeroHash
  kind := "jobStarted"
  payloadLength := 2
  payload := ()
  recordHash := "461aa399d15286453433a40c5caf7b9b00136a2f01bb2b9fc87dc5ccdd96e74c"

def startText (identity : String) : String :=
  "\x7b\"version\":1,\"jobIdSha256\":\"" ++ identity ++ "\",\"sequence\":0,\"previousHash\":" ++
  "\"0000000000000000000000000000000000000000000000000000000000000000\"," ++
  "\"kind\":\"jobStarted\",\"payloadLength\":2,\"payload\":\x7b\x7d,\"recordHash\":" ++
  "\"461aa399d15286453433a40c5caf7b9b00136a2f01bb2b9fc87dc5ccdd96e74c\"\x7d"

def startJson (identity : String) : Json Unit :=
  oneRecordJson (startRecord identity) (startText identity)

def startIdentity : String := "abababababababababababababababababababababababababababababababab"

theorem oneRecordJson_eq_ok {record r : JournalRecord Unit} {text : String} {line : Bytes}
    (h : (oneRecordJson record text).recordToVec r = .ok line) :
    r = record ∧ line = Bytes.ofString text := by
  unfold oneRecordJson at h
  dsimp only at h
  split at h
  · next hrecord => exact ⟨hrecord, (ok.inj h).symm⟩
  · cases h

theorem oneRecordJson_lawful {record : JournalRecord Unit} {text : String}
    (hne : Bytes.ofString text ≠ []) (hline : 10 ∉ Bytes.ofString text) :
    (oneRecordJson record text).Lawful := by
  intro r line h
  obtain ⟨_, rfl⟩ := oneRecordJson_eq_ok h
  exact ⟨hne, hline, text, rfl⟩

theorem recordHash_start : recordHash (fun _ => startDigest) jobDigest 0 zeroHash "jobStarted"
    (Bytes.ofString "\x7b\x7d") = .ok (startRecord startIdentity).recordHash := by
  rw [recordHash_eq_ok]
  refine ⟨Vector.replicate 32 0, ?_, by decide +kernel, by decide +kernel, ?_⟩
  · rw [zeroHash_eq]
    exact decodeHash_hexLower _
  · rw [← String.toList_inj]
    decide +kernel

theorem hexLower_jobDigest : hexLower jobDigest.toList = startIdentity := by
  rw [← String.toList_inj]
  decide +kernel

/-! ## A journal whose third append fails -/

def jsonString (text : String) : String := "\"" ++ text ++ "\""

/-- An object of `serde_json`, from the texts of its values. -/
def jsonObject (fields : List (String × String)) : String :=
  "\x7b" ++ ",".intercalate (fields.map fun field => jsonString field.1 ++ ":" ++ field.2) ++ "\x7d"

/-- A record whose payload is a text. -/
def recordText (record : JournalRecord String) : String :=
  jsonObject [("version", toString record.version),
    ("jobIdSha256", jsonString record.jobIdSha256),
    ("sequence", toString record.sequence),
    ("previousHash", jsonString record.previousHash),
    ("kind", jsonString record.kind),
    ("payloadLength", toString record.payloadLength),
    ("payload", record.payload),
    ("recordHash", jsonString record.recordHash)]

/-- `serde_json` on these records. -/
def tableJson (records : List (JournalRecord String)) : Json String where
  valueToVec payload := .ok (Bytes.ofString payload)
  recordToVec record :=
    if record ∈ records then .ok (Bytes.ofString (recordText record)) else .error "another record"
  recordFromSlice line :=
    okOr (records.find? fun record => Bytes.ofString (recordText record) = line) "another text"

theorem tableJson_lawful {records : List (JournalRecord String)}
    (h : ∀ record ∈ records,
      Bytes.ofString (recordText record) ≠ [] ∧ 10 ∉ Bytes.ofString (recordText record)) :
    (tableJson records).Lawful := by
  intro record line hline
  unfold tableJson at hline
  dsimp only at hline
  split at hline
  · next hmem =>
    cases hline
    exact ⟨(h record hmem).1, (h record hmem).2, _, rfl⟩
  · cases hline

theorem tableJson_readsBack {records : List (JournalRecord String)} (payload : String)
    (h : ∀ record ∈ records, (records.find? fun record' =>
      Bytes.ofString (recordText record') = Bytes.ofString (recordText record)) = some record) :
    (tableJson records).ReadsBack payload := by
  intro record line _ hline
  unfold tableJson at hline ⊢
  dsimp only at hline ⊢
  split at hline
  · next hmem =>
    cases hline
    rw [h record hmem]
    rfl
  · cases hline

/-- A record of a chain: its payload, and the SHA-256 of its hash input. -/
structure ChainEntry where
  kind : String
  payload : String
  digest : Digest

def chainRecords (job : Digest) : List ChainEntry → Nat → Digest → List (JournalRecord String)
  | [], _, _ => []
  | entry :: entries, sequence, previous =>
    { version := journalVersion
      jobIdSha256 := hexLower job.toList
      sequence
      previousHash := hexLower previous.toList
      kind := entry.kind
      payloadLength := entry.payload.utf8ByteSize
      payload := entry.payload
      recordHash := hexLower entry.digest.toList } ::
        chainRecords job entries (sequence + 1) entry.digest

/-- The hash inputs of a chain, with their hashes. -/
def chainHashes (job : Digest) : List ChainEntry → Nat → Digest → List (Bytes × Digest)
  | [], _, _ => []
  | entry :: entries, sequence, previous =>
    (hashInput job sequence previous entry.kind (Bytes.ofString entry.payload), entry.digest) ::
      chainHashes job entries (sequence + 1) entry.digest

/-- SHA-256 on the inputs of a table. -/
def tableSha256 (table : List (Bytes × Digest)) (bytes : Bytes) : Digest :=
  (table.lookup bytes).getD (Vector.replicate 32 0)

/-- The SHA-256 of `a`, the identity of the job. -/
def docsDigest : Digest :=
  #v[202, 151, 129, 18, 202, 27, 189, 202, 250, 194, 49, 179, 154, 35, 220, 77,
    167, 134, 239, 248, 20, 124, 78, 114, 185, 128, 119, 133, 175, 238, 72, 187]

def docsItem : List (String × String) :=
  [("itemKey", jsonString "000000-0000000000000007"), ("itemKind", jsonString "directory")]

/-- The first records of a job that restores the directory `docs`. -/
def docsEntries : List ChainEntry :=
  [{ kind := "jobStarted"
     payload := jsonObject [("itemCount", "1"), ("rootIdentityRevalidated", "true")]
     digest :=
       #v[227, 107, 167, 21, 89, 67, 77, 171, 62, 245, 34, 15, 251, 132, 85, 153,
         29, 163, 2, 209, 243, 169, 122, 234, 158, 13, 49, 181, 44, 114, 195, 84] },
   { kind := "itemPrepared"
     payload := jsonObject ([("candidateId", "7")] ++ docsItem ++
       [("requestedPath", jsonString "docs")])
     digest :=
       #v[139, 116, 238, 165, 81, 163, 16, 201, 41, 241, 166, 14, 109, 237, 67, 238,
         148, 228, 75, 75, 93, 175, 119, 212, 28, 123, 85, 102, 228, 48, 38, 103] },
   { kind := "directoryPublicationPlanned"
     payload := jsonObject ([("candidateId", "7"), ("collisionIndex", "0")] ++ docsItem ++
       [("publishedName", jsonString "docs"), ("publishedPath", jsonString "docs")])
     digest :=
       #v[108, 28, 133, 213, 188, 248, 244, 104, 211, 112, 5, 4, 56, 155, 41, 251,
         46, 143, 155, 238, 85, 212, 221, 122, 243, 237, 108, 191, 188, 107, 21, 37] }]

def docsRecords : List (JournalRecord String) :=
  chainRecords docsDigest docsEntries 0 (Vector.replicate 32 0)

def docsSha256 : Bytes → Digest :=
  tableSha256 (chainHashes docsDigest docsEntries 0 (Vector.replicate 32 0))

/-- An append of a record, whose sink fails as `fault` says. -/
def ChainEntry.call (entry : ChainEntry) (fault : Option SinkFault) : AppendCall String where
  kind := entry.kind
  payload := .ok entry.payload
  fault

/-- The disk is full behind ten bytes. -/
def diskFull : SinkFault := .write 10 ⟨.other 28, "No space left on device (os error 28)"⟩

/-- Two records, a third whose append fails, and the same once more. -/
def docsCalls : List (AppendCall String) :=
  (docsEntries.take 2).map (·.call none) ++ (docsEntries.drop 2).map (·.call (some diskFull)) ++
    (docsEntries.drop 2).map (·.call none)

theorem acknowledged_docs :
    (acknowledged (tableJson docsRecords) docsSha256 (JobJournal.withSink docsDigest) docsCalls).map
      (·.1) = ["jobStarted", "itemPrepared"] := by
  decide +kernel

theorem docsRecords_lawful : (tableJson docsRecords).Lawful :=
  tableJson_lawful (by decide +kernel)

theorem docsRecords_readsBack (payload : String) : (tableJson docsRecords).ReadsBack payload :=
  tableJson_readsBack payload (by decide +kernel)

theorem appendRun_durable_torn :
    ∃ records tail audit,
      (appendRun (tableJson docsRecords) docsSha256 (JobJournal.withSink docsDigest)
        docsCalls).sink = records ++ tail ∧
      auditJournal (tableJson docsRecords) docsSha256 records = .ok audit ∧
      audit.kinds = ["jobStarted", "itemPrepared"] ∧ audit.sequences = [0, 1] := by
  obtain ⟨⟨tail, hsink, _⟩, _, _, audit, haudit, hkinds, hsequences⟩ :=
    appendRun_durable docsRecords_lawful docsSha256 docsDigest docsCalls
      fun _ _ payload _ => docsRecords_readsBack payload
  have hlength := congrArg List.length acknowledged_docs
  rw [List.length_map] at hlength
  rw [acknowledged_docs] at hkinds
  rw [hlength] at hsequences
  exact ⟨_, tail, audit, hsink, haudit, hkinds, hsequences⟩

end Undelete.Restore
