import Undelete.Spec.HashCorrect

/-!
# Panics of the journal auditor

The auditor slices the job identity of a record two bytes at a time, so an identity of 64
bytes with a character across such a border makes it panic. No other input does: the hash
it decodes besides is one it has encoded itself.

## Key results

- `auditRecord_panics_iff`: when one line makes the auditor panic.
- `auditJournal_returns_iff`: when a journal does not.
-/

namespace Undelete.Restore

open Except

variable {Value : Type} {json : Json Value} {sha256 : Bytes → Digest}

/-! ## Hashes of records -/

/-- The encoding of a digest. -/
def IsHash (encoded : String) : Prop := ∃ digest : Digest, encoded = hexLower digest.toList

theorem isHash_hexLower (digest : Digest) : IsHash (hexLower digest.toList) := ⟨digest, rfl⟩

theorem zeroHash_eq : zeroHash = hexLower (Vector.replicate 32 (0 : UInt8)).toList := by
  rw [← String.toList_inj]
  decide

theorem isHash_zeroHash : IsHash zeroHash := ⟨_, zeroHash_eq⟩

theorem IsHash.decodeHash {encoded : String} (h : IsHash encoded) :
    ∃ digest : Digest, decodeHash encoded = .ok digest ∧ encoded = hexLower digest.toList := by
  obtain ⟨digest, rfl⟩ := h
  exact ⟨digest, decodeHash_hexLower digest, rfl⟩

theorem recordHash_eq_ok {jobIdSha256 : Digest} {sequence : Nat} {previousHash kind hash : String}
    {payload : Bytes} :
    recordHash sha256 jobIdSha256 sequence previousHash kind payload = .ok hash ↔
      ∃ previous, decodeHash previousHash = .ok previous ∧ kind.utf8ByteSize < 2 ^ 32 ∧
        payload.length < 2 ^ 64 ∧
        hexLower (sha256 (hashInput jobIdSha256 sequence previous kind payload)).toList = hash := by
  simp only [recordHash, bind_eq_ok, throw_bind, ite_throw_eq_ok, pure_eq_ok, ge_iff_le, not_le]

theorem recordHash_isHash {jobIdSha256 : Digest} {sequence : Nat} {previousHash kind hash : String}
    {payload : Bytes}
    (h : recordHash sha256 jobIdSha256 sequence previousHash kind payload = .ok hash) :
    IsHash hash := by
  obtain ⟨_, _, _, _, rfl⟩ := recordHash_eq_ok.mp h
  exact isHash_hexLower _

theorem recordHash_ne_panic {jobIdSha256 : Digest} {sequence : Nat} {previousHash kind : String}
    {payload : Bytes} (h : IsHash previousHash) :
    recordHash sha256 jobIdSha256 sequence previousHash kind payload ≠ .error .panic := by
  intro hpanic
  obtain ⟨digest, hdecode, _⟩ := h.decodeHash
  simp only [recordHash, hdecode, bind_ok, throw_bind, ite_throw_eq_error, pure_eq_error,
    reduceCtorEq, and_false, or_self] at hpanic

/-! ## One line -/

theorem auditEnvelope_eq_ok {maximum : Nat} {st : AuditState Value} {terminatedLine : Bytes}
    {record : JournalRecord Value} {payload : Bytes} :
    auditEnvelope json maximum st terminatedLine = .ok (record, payload) ↔
      ∃ line, terminatedLine = line ++ [10] ∧ st.expectedSequence < maximum ∧
        terminatedLine.length ≤ maxJournalRecordBytes ∧ line ≠ [] ∧
        json.recordFromSlice line = .ok record ∧ json.recordToVec record = .ok line ∧
        record.version = journalVersion ∧ record.sequence = st.expectedSequence ∧
        record.previousHash = st.expectedPrevious ∧ json.valueToVec record.payload = .ok payload ∧
        payload.length ≤ maxJournalPayloadBytes ∧ payload.length = record.payloadLength := by
  simp only [auditEnvelope, bind_eq_ok, throw_bind, ite_throw_eq_ok, okOr_eq_ok, pure_eq_ok,
    mapError_eq_ok, Bytes.stripSuffix_eq_some, Prod.mk.injEq]
  constructor
  · rintro ⟨hsequence, hlength, line, hline, hempty, record', hparse, canonical, hwrite, hcanonical,
      hchain, payload', hpayload, hbound, hsame, rfl, rfl⟩
    simp only [Bool.or_eq_true, decide_eq_true_eq, not_or, Decidable.not_not] at hchain
    obtain ⟨⟨hversion, hnext⟩, hprevious⟩ := hchain
    rw [Decidable.not_not] at hcanonical hsame
    subst hcanonical
    exact ⟨canonical, hline, by omega, by omega, by simpa using hempty, hparse, hwrite, hversion,
      hnext, hprevious, hpayload, by omega, hsame⟩
  · rintro ⟨line, hline, hsequence, hlength, hempty, hparse, hwrite, hversion, hnext, hprevious,
      hpayload, hbound, hsame⟩
    exact ⟨by omega, by omega, line, hline, by simpa using hempty, record, hparse, line, hwrite,
      by simp, by simp [hversion, hnext, hprevious], payload, hpayload, by omega, by simp [hsame],
      rfl, rfl⟩

theorem auditEnvelope_ne_panic {maximum : Nat} {st : AuditState Value} {terminatedLine : Bytes} :
    auditEnvelope json maximum st terminatedLine ≠ .error .panic := by
  intro h
  simp only [auditEnvelope, bind_eq_error, throw_bind, ite_throw_eq_error, pure_eq_error,
    okOr_eq_error, mapError_eq_error, auditError, reduceCtorEq, and_false, exists_false,
    or_self] at h

/-- The state after a line that was accepted. -/
def AuditState.next (st : AuditState Value) (record : JournalRecord Value) (jobIdSha256 : Digest) :
    AuditState Value where
  records := st.records ++ [record]
  expectedSequence := st.expectedSequence + 1
  expectedPrevious := record.recordHash
  expectedJobIdSha256 := some jobIdSha256

theorem auditRecord_eq_ok {maximum : Nat} {st st' : AuditState Value} {line : Bytes} :
    auditRecord json sha256 maximum st line = .ok st' ↔
      ∃ record payload digest, auditEnvelope json maximum st line = .ok (record, payload) ∧
        decodeHash record.jobIdSha256 = .ok digest ∧
        (∀ expected ∈ st.expectedJobIdSha256, expected = digest) ∧
        recordHash sha256 digest record.sequence record.previousHash record.kind payload =
          .ok record.recordHash ∧
        st.expectedSequence + 1 < 2 ^ 64 ∧ st' = st.next record digest := by
  simp only [auditRecord, bind_eq_ok, throw_bind, ite_throw_eq_ok, okOr_eq_ok, pure_eq_ok,
    Prod.exists, Option.any_eq_true, decide_eq_true_eq, not_exists, not_and, Decidable.not_not,
    U64.checkedAdd_eq_some]
  constructor
  · rintro ⟨record, payload, henvelope, digest, hdigest, hidentity, hash, hhash, rfl, next,
      ⟨hnext, rfl⟩, rfl⟩
    exact ⟨record, payload, digest, henvelope, hdigest, hidentity, hhash, hnext, rfl⟩
  · rintro ⟨record, payload, digest, henvelope, hdigest, hidentity, hhash, hnext, rfl⟩
    exact ⟨record, payload, henvelope, digest, hdigest, hidentity, record.recordHash, hhash, rfl,
      st.expectedSequence + 1, ⟨hnext, rfl⟩, rfl⟩

theorem auditRecord_isHash {maximum : Nat} {st st' : AuditState Value} {line : Bytes}
    (h : auditRecord json sha256 maximum st line = .ok st') : IsHash st'.expectedPrevious := by
  obtain ⟨record, payload, digest, _, _, _, hhash, _, rfl⟩ := auditRecord_eq_ok.mp h
  exact recordHash_isHash hhash

theorem auditRecord_panics_iff {maximum : Nat} {st : AuditState Value} {line : Bytes}
    (h : IsHash st.expectedPrevious) :
    auditRecord json sha256 maximum st line = .error .panic ↔
      ∃ record payload, auditEnvelope json maximum st line = .ok (record, payload) ∧
        CutsCharacter record.jobIdSha256 := by
  simp only [auditRecord, bind_eq_error, throw_bind, ite_throw_eq_error, pure_eq_error,
    okOr_eq_error, auditError, reduceCtorEq, and_false, exists_false, or_false, false_or,
    Prod.exists, auditEnvelope_ne_panic, decodeHash_panics_iff]
  constructor
  · rintro ⟨record, payload, henvelope, hcut | ⟨digest, _, _, hpanic⟩⟩
    · exact ⟨record, payload, henvelope, hcut⟩
    · obtain ⟨_, _, _, _, _, _, _, _, _, hprevious, _⟩ := auditEnvelope_eq_ok.mp henvelope
      rw [← hprevious] at h
      exact absurd hpanic (recordHash_ne_panic h)
  · rintro ⟨record, payload, henvelope, hcut⟩
    exact ⟨record, payload, henvelope, .inl hcut⟩

/-! ## Whole journals -/

theorem auditJournal_eq_ok {bytes : Bytes} {audit : JournalAudit Value} :
    auditJournal json sha256 bytes = .ok audit ↔
      bytes.toString?.isSome ∧ (bytes ≠ [] → bytes.getLast? = some 10) ∧
        ∃ st : AuditState Value, (bytes.splitInclusive 10).foldlM
          (auditRecord json sha256 maxJournalRecords) {} = .ok st ∧ st.records = audit.records := by
  simp only [auditJournal, auditJournalWithRecordLimit, bind_eq_ok, throw_bind, ite_throw_eq_ok,
    pure_eq_ok]
  constructor
  · rintro ⟨hutf8, hnewline, st, hfold, rfl⟩
    refine ⟨?_, ?_, st, hfold, rfl⟩
    · simpa [Option.isSome_iff_ne_none] using hutf8
    · intro hne
      simpa [hne] using hnewline
  · rintro ⟨hutf8, hnewline, st, hfold, hrecords⟩
    refine ⟨?_, ?_, st, hfold, congrArg JournalAudit.mk hrecords⟩
    · simpa [Option.isSome_iff_ne_none] using hutf8
    · by_cases hne : bytes = []
      · simp [hne]
      · simp [hnewline hne]

/-- After lines that the auditor accepts comes one that it accepts up to its job identity,
    and this identity cuts a character. -/
def CutsIdentity (json : Json Value) (sha256 : Bytes → Digest) (bytes : Bytes) : Prop :=
  bytes.toString?.isSome ∧ (bytes ≠ [] → bytes.getLast? = some 10) ∧
    ∃ before line after st record payload, bytes.splitInclusive 10 = before ++ line :: after ∧
      before.foldlM (auditRecord json sha256 maxJournalRecords) {} = .ok st ∧
      auditEnvelope json maxJournalRecords st line = .ok (record, payload) ∧
      CutsCharacter record.jobIdSha256

theorem auditLines_isHash {maximum : Nat} {lines : List Bytes} {st : AuditState Value}
    (h : lines.foldlM (auditRecord json sha256 maximum) {} = .ok st) :
    IsHash st.expectedPrevious :=
  foldlM_keeps (P := fun st => IsHash st.expectedPrevious)
    (fun _ _ _ _ hstep => auditRecord_isHash hstep) isHash_zeroHash h

/-- The auditor panics exactly on the journals that cut a character in a job identity. -/
theorem auditJournal_panics_iff {bytes : Bytes} :
    auditJournal json sha256 bytes = .error .panic ↔ CutsIdentity json sha256 bytes := by
  simp only [auditJournal, auditJournalWithRecordLimit, CutsIdentity, bind_eq_error, throw_bind,
    ite_throw_eq_error, pure_eq_error, auditError, reduceCtorEq, and_false, exists_false, or_false,
    false_or, foldlM_eq_error]
  constructor
  · rintro ⟨hutf8, hnewline, before, line, after, st, hlines, hbefore, hpanic⟩
    obtain ⟨record, payload, henvelope, hcut⟩ :=
      (auditRecord_panics_iff (auditLines_isHash hbefore)).mp hpanic
    refine ⟨?_, ?_, before, line, after, st, record, payload, hlines, hbefore, henvelope, hcut⟩
    · simpa [Option.isSome_iff_ne_none] using hutf8
    · intro hne
      simpa [hne] using hnewline
  · rintro ⟨hutf8, hnewline, before, line, after, st, record, payload, hlines, hbefore, henvelope,
      hcut⟩
    refine ⟨?_, ?_, before, line, after, st, hlines, hbefore,
      (auditRecord_panics_iff (auditLines_isHash hbefore)).mpr ⟨record, payload, henvelope, hcut⟩⟩
    · simpa [Option.isSome_iff_ne_none] using hutf8
    · by_cases hne : bytes = []
      · simp [hne]
      · simp [hnewline hne]

/-- The auditor returns exactly on the other journals. -/
theorem auditJournal_returns_iff (json : Json Value) (sha256 : Bytes → Digest) (bytes : Bytes) :
    auditJournal json sha256 bytes ≠ .error .panic ↔ ¬CutsIdentity json sha256 bytes :=
  not_congr auditJournal_panics_iff

/-! ## A journal that cuts a character -/

/-- `serde_json` on one record and its text; payloads are empty objects. -/
def oneRecordJson (record : JournalRecord Unit) (text : String) : Json Unit where
  valueToVec _ := .ok (Bytes.ofString "\x7b\x7d")
  recordToVec r := if r = record then .ok (Bytes.ofString text) else .error "another record"
  recordFromSlice line :=
    if line = Bytes.ofString text then .ok record else .error "another text"

theorem oneRecordJson_recordToVec (record : JournalRecord Unit) (text : String) :
    (oneRecordJson record text).recordToVec record = .ok (Bytes.ofString text) := if_pos rfl

theorem oneRecordJson_recordFromSlice (record : JournalRecord Unit) (text : String) :
    (oneRecordJson record text).recordFromSlice (Bytes.ofString text) = .ok record := if_pos rfl

/-- The second character of this job identity takes two bytes. -/
def cutRecord : JournalRecord Unit where
  version := 1
  jobIdSha256 := "aé0000000000000000000000000000000000000000000000000000000000000"
  sequence := 0
  previousHash := zeroHash
  kind := "jobStarted"
  payloadLength := 2
  payload := ()
  recordHash := zeroHash

def cutText : String :=
  "\x7b\"version\":1,\"jobIdSha256\":" ++
  "\"aé0000000000000000000000000000000000000000000000000000000000000\"," ++
  "\"sequence\":0,\"previousHash\":" ++
  "\"0000000000000000000000000000000000000000000000000000000000000000\"," ++
  "\"kind\":\"jobStarted\",\"payloadLength\":2,\"payload\":\x7b\x7d,\"recordHash\":" ++
  "\"0000000000000000000000000000000000000000000000000000000000000000\"\x7d"

theorem cutsCharacter_cutRecord : CutsCharacter cutRecord.jobIdSha256 := by
  refine ⟨by decide +kernel, 0, by decide, ?_, ?_⟩
  · unfold WholePair
    decide +kernel
  · intro j hj
    cases hj

/-- The text of this record makes the auditor panic, whatever SHA-256 is. -/
theorem auditJournal_panics (sha256 : Bytes → Digest) :
    auditJournal (oneRecordJson cutRecord cutText) sha256 (Bytes.ofString (cutText ++ "\n")) =
      .error .panic := by
  apply auditJournal_panics_iff.mpr
  have htext : Bytes.ofString (cutText ++ "\n") = Bytes.ofString cutText ++ [10] := by
    decide +kernel
  refine ⟨?_, ?_, [], Bytes.ofString cutText ++ [10], [], {}, cutRecord,
    Bytes.ofString "\x7b\x7d", ?_, rfl, ?_, cutsCharacter_cutRecord⟩
  · rw [Bytes.toString?_eq_some.mpr rfl]
    rfl
  · intro _
    rw [htext, List.getLast?_concat]
  · rw [htext]
    exact Bytes.splitInclusive_line [] (by decide +kernel)
  · rw [auditEnvelope_eq_ok]
    refine ⟨Bytes.ofString cutText, rfl, by decide +kernel, ?_, by decide +kernel,
      oneRecordJson_recordFromSlice .., oneRecordJson_recordToVec .., rfl, rfl, rfl, rfl,
      by decide +kernel, by decide +kernel⟩
    rw [List.length_append]
    decide +kernel

theorem auditJournal_panics_zero :
    auditJournal (oneRecordJson cutRecord cutText) (fun _ => Vector.replicate 32 0)
      (Bytes.ofString (cutText ++ "\n")) = .error .panic :=
  auditJournal_panics _

end Undelete.Restore
