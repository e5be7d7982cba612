import Undelete.Spec.JournalCorrect

/-!
# Encodings the auditor accepts

The hash of a record covers decoded values, while the file carries text. The auditor compares
the text of a record with the one `serde_json` writes for it, and every field but the job
identity with a value of its own; the job identity it only decodes, so that any spelling
of the digest is accepted.

## Key results

- `auditJournal_written_iff`: which accepted journals an append run writes.
-/

namespace Undelete.Restore

open Except

variable {Value : Type} {json : Json Value} {sha256 : Bytes → Digest}

/-! ## What appends write -/

/-- An append to a sink that does not fail. -/
def healthy (entry : String × Value) : AppendCall Value where
  kind := entry.1
  payload := .ok entry.2
  fault := none

/-- Some run of acknowledged appends to a healthy sink writes these bytes. -/
def Written (json : Json Value) (sha256 : Bytes → Digest) (bytes : Bytes) : Prop :=
  ∃ (digest : Digest) (entries : List (String × Value)),
    (acknowledged json sha256 (JobJournal.withSink digest) (entries.map healthy)).length =
        entries.length ∧
      (appendRun json sha256 (JobJournal.withSink digest) (entries.map healthy)).sink = bytes

/-- The records of these lines spell their job identity as `append` does. -/
def CanonicalIdentities (json : Json Value) (lines : List Bytes) : Prop :=
  ∀ line ∈ lines, ∀ body record, line = body ++ [10] → json.recordFromSlice body = .ok record →
    IsHash record.jobIdSha256

/-- The job identity of a record is read back as it was written. -/
def Json.ReadsIdentity (json : Json Value) : Prop :=
  ∀ record line record', json.recordToVec record = .ok line →
    json.recordFromSlice line = .ok record' → record'.jobIdSha256 = record.jobIdSha256

theorem appendRun_healthy_sink (digest : Digest) (entries : List (String × Value)) :
    (appendRun json sha256 (JobJournal.withSink digest) (entries.map healthy)).sink =
      ((acknowledged json sha256 (JobJournal.withSink digest)
        (entries.map healthy)).map (·.2)).flatten := by
  obtain ⟨tail, hsink, rfl | ⟨before, call, after, _, _, hcalls, _, hfault, _⟩⟩ :=
    @appendRun_sink Value json sha256 (JobJournal.withSink digest) (entries.map healthy)
  · rw [hsink, List.append_nil]
    rfl
  · have hcall : call ∈ entries.map healthy := by
      rw [hcalls]
      simp
    obtain ⟨entry, _, rfl⟩ := List.mem_map.mp hcall
    exact absurd rfl hfault

theorem canonicalIdentities_of_written (hjson : json.Lawful) (hreads : json.ReadsIdentity)
    {bytes : Bytes} (h : Written json sha256 bytes) :
    CanonicalIdentities json (bytes.splitInclusive 10) := by
  obtain ⟨digest, entries, _, rfl⟩ := h
  intro line hline body record hbody hparse
  rw [appendRun_healthy_sink, splitInclusive_acknowledged hjson] at hline
  obtain ⟨entry, hentry, rfl⟩ := List.mem_map.mp hline
  obtain ⟨record', body', hwrite, hbody', hidentity⟩ := acknowledged_line hentry
  obtain rfl : body' = body := List.append_cancel_right (hbody'.symm.trans hbody)
  exact ⟨digest, (hreads _ _ _ hwrite hparse).trans hidentity⟩

/-- One line: its record is what an append prepares. -/
theorem prepared_of_auditRecord {st : AuditState Value} {journal : JobJournal} {line : Bytes}
    {record : JournalRecord Value} {payload : Bytes} (hsynced : Synced st journal)
    (hpoisoned : journal.poisoned = false)
    (henvelope : auditEnvelope json maxJournalRecords st line = .ok (record, payload))
    (hdigest : decodeHash record.jobIdSha256 = .ok journal.jobIdSha256)
    (hhash : recordHash sha256 journal.jobIdSha256 record.sequence record.previousHash record.kind
      payload = .ok record.recordHash)
    (hcanonical : CanonicalIdentities json [line]) :
    (healthy (record.kind, record.payload)).prepared json sha256 journal =
      .ok (line, record.recordHash) := by
  obtain ⟨body, hbody, _, _, _, hparse, _⟩ := auditEnvelope_eq_ok.mp henvelope
  obtain ⟨digest, hidentity⟩ := hcanonical line List.mem_cons_self body record hbody hparse
  have hsame : digest = journal.jobIdSha256 := by
    rw [hidentity, decodeHash_hexLower] at hdigest
    exact ok.inj hdigest
  rw [hsame] at hidentity
  exact prepareRecord_of_audit hsynced hpoisoned henvelope hidentity hhash

/-- Lines that the auditor accepts for a known job are what appends write. -/
theorem entries_of_audit {st st' : AuditState Value} {journal : JobJournal} {lines : List Bytes}
    (hsynced : Synced st journal) (hpoisoned : journal.poisoned = false)
    (hjob : st.expectedJobIdSha256 = some journal.jobIdSha256)
    (h : lines.foldlM (auditRecord json sha256 maxJournalRecords) st = .ok st')
    (hcanonical : CanonicalIdentities json lines) :
    ∃ entries : List (String × Value), entries.length = lines.length ∧
      (acknowledged json sha256 journal (entries.map healthy)).map (·.2) = lines := by
  induction lines generalizing st journal with
  | nil => exact ⟨[], rfl, rfl⟩
  | cons line lines ih =>
    rw [List.foldlM_cons, bind_eq_ok] at h
    obtain ⟨st₁, hstep, hrest⟩ := h
    obtain ⟨record, payload, digest, henvelope, hdigest, hexpected, hhash, _, rfl⟩ :=
      auditRecord_eq_ok.mp hstep
    obtain rfl := hexpected _ hjob
    have hprepared := prepared_of_auditRecord hsynced hpoisoned henvelope hdigest hhash
      fun _ hmem => hcanonical _ (List.mem_singleton.mp hmem ▸ List.mem_cons_self)
    obtain ⟨entries, hlength, hentries⟩ := ih (hsynced.next line record) hpoisoned rfl hrest
      fun line hline => hcanonical line (List.mem_cons_of_mem _ hline)
    refine ⟨(record.kind, record.payload) :: entries, ?_, ?_⟩
    · rw [List.length_cons, List.length_cons, hlength]
    · rw [List.map_cons, acknowledged_accepted hprepared rfl, List.map_cons, hentries]

theorem written_of_canonicalIdentities {bytes : Bytes} {audit : JournalAudit Value}
    (h : auditJournal json sha256 bytes = .ok audit)
    (hcanonical : CanonicalIdentities json (bytes.splitInclusive 10)) :
    Written json sha256 bytes := by
  obtain ⟨_, _, st, hfold, _⟩ := auditJournal_eq_ok.mp h
  have hbytes : (bytes.splitInclusive 10).flatten = bytes := Bytes.flatten_splitInclusive bytes
  revert hfold hbytes hcanonical
  cases bytes.splitInclusive 10 with
  | nil =>
    rintro _ _ rfl
    exact ⟨Vector.replicate 32 0, [], rfl, rfl⟩
  | cons line lines =>
    intro hcanonical hfold hbytes
    rw [List.foldlM_cons, bind_eq_ok] at hfold
    obtain ⟨st₁, hstep, hrest⟩ := hfold
    obtain ⟨record, payload, digest, henvelope, hdigest, _, hhash, _, rfl⟩ :=
      auditRecord_eq_ok.mp hstep
    -- the first record names the job
    have hsynced : Synced ({} : AuditState Value) (JobJournal.withSink digest) :=
      synced_withSink digest
    have hprepared := prepared_of_auditRecord hsynced rfl henvelope hdigest hhash
      fun _ hmem => hcanonical _ (List.mem_singleton.mp hmem ▸ List.mem_cons_self)
    obtain ⟨entries, hlength, hentries⟩ := entries_of_audit (hsynced.next line record) rfl rfl hrest
      fun line hline => hcanonical line (List.mem_cons_of_mem _ hline)
    have hacknowledged : (acknowledged json sha256 (JobJournal.withSink digest)
        (((record.kind, record.payload) :: entries).map healthy)).map (·.2) = line :: lines := by
      rw [List.map_cons, acknowledged_accepted hprepared rfl, List.map_cons, hentries]
    refine ⟨digest, (record.kind, record.payload) :: entries, ?_, ?_⟩
    · rw [← List.length_map (f := Prod.snd), hacknowledged, List.length_cons, List.length_cons,
        hlength]
    · rw [appendRun_healthy_sink, hacknowledged, hbytes]

/-! ## One text for one hash input -/

/-- The text of a record contains the text of its payload, and nothing else of it. -/
def Json.Deterministic (json : Json Value) : Prop :=
  ∀ record value payload, json.valueToVec record.payload = .ok payload →
    json.valueToVec value = .ok payload →
    json.recordToVec { record with payload := value } = json.recordToVec record

/-- The bytes that are hashed for a record. -/
def sha256Input (json : Json Value) (record : JournalRecord Value) : Except Fault Bytes := do
  let jobIdSha256 ← decodeHash record.jobIdSha256
  let previous ← decodeHash record.previousHash
  let payload ← (json.valueToVec record.payload).mapError auditError
  return hashInput jobIdSha256 record.sequence previous record.kind payload

/-- The fields of a hash input can be read off it. -/
theorem hashInput_inj {d d' p p' : Digest} {s s' : Nat} {k k' : String} {b b' : Bytes}
    (hk : k.utf8ByteSize < 2 ^ 32) (hk' : k'.utf8ByteSize < 2 ^ 32)
    (h : hashInput d s p k b = hashInput d' s' p' k' b') :
    d = d' ∧ p = p' ∧ k = k' ∧ b = b' := by
  simp only [hashInput, List.append_assoc] at h
  have h := List.append_cancel_left h
  obtain ⟨hd, h⟩ := List.append_inj h (by rw [Vector.length_toList, Vector.length_toList])
  obtain ⟨_, h⟩ := List.append_inj h (by rw [Bytes.length_ofLE, Bytes.length_ofLE])
  obtain ⟨hp, h⟩ := List.append_inj h (by rw [Vector.length_toList, Vector.length_toList])
  obtain ⟨hsize, h⟩ := List.append_inj h (by rw [Bytes.length_ofLE, Bytes.length_ofLE])
  have hsize := (Bytes.ofLE_inj (by omega) (by omega)).mp hsize
  obtain ⟨hkind, h⟩ := List.append_inj h
    (by rw [Bytes.length_ofString, Bytes.length_ofString, hsize])
  obtain ⟨_, hb⟩ := List.append_inj h (by rw [Bytes.length_ofLE, Bytes.length_ofLE])
  exact ⟨Vector.toList_inj.mp hd, Vector.toList_inj.mp hp, Bytes.ofString_inj.mp hkind, hb⟩

/-- Where the auditor expects the same, it accepts at most one canonical line for a hash
    input. -/
theorem line_unique (hjson : json.Deterministic) {st₁ st₂ st₁' st₂' : AuditState Value}
    {line₁ line₂ : Bytes} (hsequence : st₁.expectedSequence = st₂.expectedSequence)
    (hprevious : st₁.expectedPrevious = st₂.expectedPrevious)
    (h₁ : auditRecord json sha256 maxJournalRecords st₁ line₁ = .ok st₁')
    (h₂ : auditRecord json sha256 maxJournalRecords st₂ line₂ = .ok st₂')
    (hcanonical₁ : CanonicalIdentities json [line₁])
    (hcanonical₂ : CanonicalIdentities json [line₂]) :
    ∃ record₁ record₂ digest₁ digest₂, st₁' = st₁.next record₁ digest₁ ∧
      st₂' = st₂.next record₂ digest₂ ∧
      (sha256Input json record₁ = sha256Input json record₂ →
        line₁ = line₂ ∧ record₁.recordHash = record₂.recordHash) := by
  obtain ⟨record₁, payload₁, digest₁, henvelope₁, hdigest₁, _, hhash₁, _, rfl⟩ :=
    auditRecord_eq_ok.mp h₁
  obtain ⟨record₂, payload₂, digest₂, henvelope₂, hdigest₂, _, hhash₂, _, rfl⟩ :=
    auditRecord_eq_ok.mp h₂
  refine ⟨record₁, record₂, digest₁, digest₂, rfl, rfl, fun hinput => ?_⟩
  obtain ⟨body₁, hbody₁, _, _, _, hparse₁, hwrite₁, hversion₁, hsequence₁, hprevious₁, hpayload₁,
    _, hlength₁⟩ := auditEnvelope_eq_ok.mp henvelope₁
  obtain ⟨body₂, hbody₂, _, _, _, hparse₂, hwrite₂, hversion₂, hsequence₂, hprevious₂, hpayload₂,
    _, hlength₂⟩ := auditEnvelope_eq_ok.mp henvelope₂
  obtain ⟨previous₁, hdecode₁, hkind₁, _, hhash₁⟩ := recordHash_eq_ok.mp hhash₁
  obtain ⟨previous₂, hdecode₂, hkind₂, _, hhash₂⟩ := recordHash_eq_ok.mp hhash₂
  -- the hash inputs agree, hence the fields do
  have hinput₁ : sha256Input json record₁ =
      .ok (hashInput digest₁ record₁.sequence previous₁ record₁.kind payload₁) := by
    simp only [sha256Input, hdigest₁, hdecode₁, hpayload₁, bind_ok]
    rfl
  have hinput₂ : sha256Input json record₂ =
      .ok (hashInput digest₂ record₂.sequence previous₂ record₂.kind payload₂) := by
    simp only [sha256Input, hdigest₂, hdecode₂, hpayload₂, bind_ok]
    rfl
  have hsame := ok.inj (hinput₁.symm.trans (hinput.trans hinput₂))
  obtain ⟨hd, _, hk, hp⟩ := hashInput_inj hkind₁ hkind₂ hsame
  obtain ⟨_, hid₁⟩ := hcanonical₁ _ List.mem_cons_self body₁ record₁ hbody₁ hparse₁
  obtain ⟨_, hid₂⟩ := hcanonical₂ _ List.mem_cons_self body₂ record₂ hbody₂ hparse₂
  have hidentity : record₁.jobIdSha256 = record₂.jobIdSha256 := by
    rw [hid₁, decodeHash_hexLower] at hdigest₁
    rw [hid₂, decodeHash_hexLower] at hdigest₂
    rw [hid₁, hid₂, ok.inj hdigest₁, ok.inj hdigest₂, hd]
  have hhash : record₁.recordHash = record₂.recordHash := by
    rw [← hhash₁, ← hhash₂, hsame]
  have hrecord : record₂ = { record₁ with payload := record₂.payload } := by
    cases record₁
    cases record₂
    dsimp only at *
    subst hidentity hhash hk hp hversion₁ hlength₁
    rw [hversion₂, hsequence₁, hsequence₂, hsequence, hprevious₁, hprevious₂, hprevious, hlength₂]
  have hbodies : body₂ = body₁ := by
    rw [hrecord, hjson record₁ _ payload₁ hpayload₁ (hp ▸ hpayload₂), hwrite₁] at hwrite₂
    exact (ok.inj hwrite₂).symm
  exact ⟨by rw [hbody₁, hbody₂, hbodies], hhash⟩

theorem auditLines_records {st st' : AuditState Value} {lines : List Bytes}
    (h : lines.foldlM (auditRecord json sha256 maxJournalRecords) st = .ok st') :
    ∃ new, st'.records = st.records ++ new ∧ new.length = lines.length := by
  induction lines generalizing st with
  | nil =>
    cases h
    exact ⟨[], (List.append_nil _).symm, rfl⟩
  | cons line lines ih =>
    rw [List.foldlM_cons, bind_eq_ok] at h
    obtain ⟨st₁, hstep, hrest⟩ := h
    obtain ⟨record, _, digest, _, _, _, _, _, rfl⟩ := auditRecord_eq_ok.mp hstep
    obtain ⟨new, hnew, hlength⟩ := ih hrest
    refine ⟨record :: new, ?_, ?_⟩
    · rw [hnew, AuditState.next, List.append_assoc]
      rfl
    · rw [List.length_cons, List.length_cons, hlength]

theorem auditLines_length {st st' : AuditState Value} {lines : List Bytes}
    {inputs : List (Except Fault Bytes)}
    (h : lines.foldlM (auditRecord json sha256 maxJournalRecords) st = .ok st')
    (hinputs : st'.records.map (sha256Input json) =
      st.records.map (sha256Input json) ++ inputs) : inputs.length = lines.length := by
  obtain ⟨new, hnew, hlength⟩ := auditLines_records h
  rw [hnew, List.map_append] at hinputs
  rw [← List.append_cancel_left hinputs, List.length_map, hlength]

/-- Canonical lines are determined by their hash inputs. -/
theorem lines_unique (hjson : json.Deterministic) {st₁ st₂ st₁' st₂' : AuditState Value}
    {lines₁ lines₂ : List Bytes} {inputs : List (Except Fault Bytes)}
    (hsequence : st₁.expectedSequence = st₂.expectedSequence)
    (hprevious : st₁.expectedPrevious = st₂.expectedPrevious)
    (h₁ : lines₁.foldlM (auditRecord json sha256 maxJournalRecords) st₁ = .ok st₁')
    (h₂ : lines₂.foldlM (auditRecord json sha256 maxJournalRecords) st₂ = .ok st₂')
    (hcanonical₁ : CanonicalIdentities json lines₁) (hcanonical₂ : CanonicalIdentities json lines₂)
    (hinputs₁ : st₁'.records.map (sha256Input json) = st₁.records.map (sha256Input json) ++ inputs)
    (hinputs₂ : st₂'.records.map (sha256Input json) =
      st₂.records.map (sha256Input json) ++ inputs) : lines₁ = lines₂ := by
  induction lines₁ generalizing st₁ st₂ lines₂ inputs with
  | nil =>
    have hnil := (auditLines_length h₂ hinputs₂).symm.trans (auditLines_length h₁ hinputs₁)
    exact (List.length_eq_zero_iff.mp hnil).symm
  | cons line₁ lines₁ ih =>
    cases lines₂ with
    | nil =>
      have hnil := (auditLines_length h₁ hinputs₁).symm.trans (auditLines_length h₂ hinputs₂)
      cases hnil
    | cons line₂ lines₂ =>
      rw [List.foldlM_cons, bind_eq_ok] at h₁ h₂
      obtain ⟨next₁, hstep₁, hrest₁⟩ := h₁
      obtain ⟨next₂, hstep₂, hrest₂⟩ := h₂
      obtain ⟨record₁, record₂, digest₁, digest₂, rfl, rfl, hunique⟩ :=
        line_unique hjson hsequence hprevious hstep₁ hstep₂
          (fun _ hmem => hcanonical₁ _ (List.mem_singleton.mp hmem ▸ List.mem_cons_self))
          (fun _ hmem => hcanonical₂ _ (List.mem_singleton.mp hmem ▸ List.mem_cons_self))
      obtain ⟨new₁, hnew₁, _⟩ := auditLines_records hrest₁
      obtain ⟨new₂, hnew₂, _⟩ := auditLines_records hrest₂
      have htail₁ : sha256Input json record₁ :: new₁.map (sha256Input json) = inputs := by
        rw [hnew₁, AuditState.next, List.append_assoc, List.map_append] at hinputs₁
        exact List.append_cancel_left hinputs₁
      have htail₂ : sha256Input json record₂ :: new₂.map (sha256Input json) = inputs := by
        rw [hnew₂, AuditState.next, List.append_assoc, List.map_append] at hinputs₂
        exact List.append_cancel_left hinputs₂
      obtain ⟨hinput, hnew⟩ := List.cons.inj (htail₁.trans htail₂.symm)
      obtain ⟨rfl, hhash⟩ := hunique hinput
      have hrecords₁ : st₁'.records.map (sha256Input json) =
          (st₁.next record₁ digest₁).records.map (sha256Input json) ++
            new₁.map (sha256Input json) := by rw [hnew₁, List.map_append]
      have hrecords₂ : st₂'.records.map (sha256Input json) =
          (st₂.next record₂ digest₂).records.map (sha256Input json) ++
            new₁.map (sha256Input json) := by rw [hnew₂, List.map_append, hnew]
      have hrest := ih (congrArg (· + 1) hsequence) hhash hrest₁ hrest₂
        (fun line hline => hcanonical₁ line (List.mem_cons_of_mem _ hline))
        (fun line hline => hcanonical₂ line (List.mem_cons_of_mem _ hline)) hrecords₁ hrecords₂
      rw [hrest]

/-- An accepted journal is what appends write exactly when it spells its job identities as they
    do, and it is then the only such journal with its hash inputs. -/
theorem auditJournal_written_iff (hlawful : json.Lawful) (hreads : json.ReadsIdentity)
    (hdeterministic : json.Deterministic) {bytes : Bytes} {audit : JournalAudit Value}
    (h : auditJournal json sha256 bytes = .ok audit) :
    (Written json sha256 bytes ↔ CanonicalIdentities json (bytes.splitInclusive 10)) ∧
      (CanonicalIdentities json (bytes.splitInclusive 10) →
        ∀ bytes' audit', auditJournal json sha256 bytes' = .ok audit' →
          CanonicalIdentities json (bytes'.splitInclusive 10) →
          audit'.records.map (sha256Input json) = audit.records.map (sha256Input json) →
          bytes' = bytes) := by
  refine ⟨⟨canonicalIdentities_of_written hlawful hreads, written_of_canonicalIdentities h⟩, ?_⟩
  intro hcanonical bytes' audit' h' hcanonical' hinputs
  obtain ⟨_, _, st, hfold, hrecords⟩ := auditJournal_eq_ok.mp h
  obtain ⟨_, _, st', hfold', hrecords'⟩ := auditJournal_eq_ok.mp h'
  rw [← hrecords, ← hrecords'] at hinputs
  have hlines := lines_unique hdeterministic rfl rfl hfold' hfold hcanonical' hcanonical hinputs rfl
  rw [← Bytes.flatten_splitInclusive bytes', hlines, Bytes.flatten_splitInclusive]

/-! ## Two spellings of one record -/

theorem oneRecordJson_readsIdentity (record : JournalRecord Unit) (text : String) :
    (oneRecordJson record text).ReadsIdentity := by
  intro r line r' hwrite hparse
  obtain ⟨rfl, rfl⟩ := oneRecordJson_eq_ok hwrite
  rw [oneRecordJson_recordFromSlice] at hparse
  exact congrArg JournalRecord.jobIdSha256 (ok.inj hparse).symm

theorem oneRecordJson_deterministic (record : JournalRecord Unit) (text : String) :
    (oneRecordJson record text).Deterministic := fun _ _ _ _ _ => rfl

theorem ofString_line (text : String) :
    Bytes.ofString (text ++ "\n") = Bytes.ofString text ++ [10] := by
  have hnewline : Bytes.ofString "\n" = [10] := by decide
  rw [Bytes.ofString_append, hnewline]

theorem oneRecordJson_parses {record r : JournalRecord Unit} {text : String} {line : Bytes}
    (h : (oneRecordJson record text).recordFromSlice line = .ok r) : r = record := by
  unfold oneRecordJson at h
  dsimp only at h
  split at h
  · exact (ok.inj h).symm
  · cases h

/-- The record is accepted under every spelling of its job identity. -/
theorem auditJournal_start {identity : String} (hidentity : decodeHash identity = .ok jobDigest)
    (hne : Bytes.ofString (startText identity) ≠ [])
    (hline : 10 ∉ Bytes.ofString (startText identity))
    (hlength : (Bytes.ofString (startText identity)).length < maxJournalRecordBytes) :
    auditJournal (startJson identity) (fun _ => startDigest)
      (Bytes.ofString (startText identity ++ "\n")) = .ok ⟨[startRecord identity]⟩ := by
  have hpayload : (Bytes.ofString "\x7b\x7d").length = 2 := by decide
  have htext := ofString_line (startText identity)
  have hstep : auditRecord (startJson identity) (fun _ => startDigest) maxJournalRecords {}
      (Bytes.ofString (startText identity) ++ [10]) =
        .ok (({} : AuditState Unit).next (startRecord identity) jobDigest) := by
    rw [auditRecord_eq_ok]
    refine ⟨startRecord identity, Bytes.ofString "\x7b\x7d", jobDigest, ?_, hidentity,
      fun _ h => (by cases h), recordHash_start, by decide, rfl⟩
    rw [auditEnvelope_eq_ok]
    refine ⟨Bytes.ofString (startText identity), rfl, by decide, ?_, hne,
      oneRecordJson_recordFromSlice _ _, oneRecordJson_recordToVec _ _, rfl, rfl, rfl, rfl,
      by decide +kernel, hpayload⟩
    rw [List.length_append]
    exact hlength
  rw [auditJournal_eq_ok]
  refine ⟨?_, ?_, ({} : AuditState Unit).next (startRecord identity) jobDigest, ?_, rfl⟩
  · rw [Bytes.toString?_eq_some.mpr rfl]
    rfl
  · intro _
    rw [htext, List.getLast?_concat]
  · rw [htext, Bytes.splitInclusive_line [] hline, Bytes.splitInclusive, List.foldlM_cons, hstep]
    rfl

theorem decodeHash_startIdentity : decodeHash startIdentity = .ok jobDigest := by
  rw [← hexLower_jobDigest]
  exact decodeHash_hexLower jobDigest

theorem auditJournal_written_iff_start :
    Written (startJson startIdentity) (fun _ => startDigest)
      (Bytes.ofString (startText startIdentity ++ "\n")) := by
  have haudit := auditJournal_start decodeHash_startIdentity (by decide +kernel) (by decide +kernel)
    (by decide +kernel)
  have hlawful : (startJson startIdentity).Lawful :=
    oneRecordJson_lawful (by decide +kernel) (by decide +kernel)
  refine (auditJournal_written_iff hlawful (oneRecordJson_readsIdentity _ _)
    (oneRecordJson_deterministic _ _) haudit).1.mpr ?_
  intro line _ body record _ hparse
  rw [oneRecordJson_parses hparse]
  exact ⟨jobDigest, hexLower_jobDigest.symm⟩

def upperIdentity : String := "ABABABABABABABABABABABABABABABABABABABABABABABABABABABABABABABAB"

theorem auditJournal_upperIdentity :
    auditJournal (startJson upperIdentity) (fun _ => startDigest)
        (Bytes.ofString (startText upperIdentity ++ "\n")) = .ok ⟨[startRecord upperIdentity]⟩ ∧
      ¬Written (startJson upperIdentity) (fun _ => startDigest)
        (Bytes.ofString (startText upperIdentity ++ "\n")) := by
  have hdecode : decodeHash upperIdentity = .ok jobDigest := by decide +kernel
  have hlawful : (startJson upperIdentity).Lawful :=
    oneRecordJson_lawful (by decide +kernel) (by decide +kernel)
  have haudit := auditJournal_start hdecode (by decide +kernel) (by decide +kernel)
    (by decide +kernel)
  refine ⟨haudit, fun hwritten => ?_⟩
  have hcanonical := canonicalIdentities_of_written hlawful (oneRecordJson_readsIdentity _ _)
    hwritten
  rw [ofString_line, Bytes.splitInclusive_line [] (by decide +kernel)] at hcanonical
  obtain ⟨digest, hdigest⟩ := hcanonical _ List.mem_cons_self _ _ rfl
    (oneRecordJson_recordFromSlice (startRecord upperIdentity) (startText upperIdentity))
  have hupper : upperIdentity = hexLower digest.toList := hdigest
  rw [hupper, decodeHash_hexLower] at hdecode
  rw [ok.inj hdecode, hexLower_jobDigest] at hupper
  exact absurd hupper (by decide)

end Undelete.Restore
