import Undelete.Spec.JobManifest
import Undelete.Spec.JobOrderCorrect

/-!
# What a restore job leaves

The manifest, the summary and the journal file of a run, against its trace.

## Key results

- `jobTrace_accounted`: the manifest that is linked says of each item what the run did.
- `restoreJob_finished`: a job that ends well made every item visible, and what it calls durable
  is synced.
- `jobEnd_audited`: the journal file replays the acknowledged appends of the run.
-/

namespace Undelete.Restore

open Except EStateM Trace

variable {σ Value : Type} {env : JobEnv σ Value} {root : DestinationRoot} {plan : RestoreJobPlan}
  {past trace trace' : List (Event Value)} {jobDir : Dir}

/-! ## The manifest -/

theorem EntryVisible.mono {site : Site} {entry : ManifestItem Value} (hsub : trace.Sublist trace')
    (h : EntryVisible site entry trace) : EntryVisible site entry trace' := by
  rcases h with ⟨content, parent, temporary, name, hkind, hdisposition, hpath, hlength, hsha256,
    hparent, hstreamed, hlinked⟩ | ⟨candidateId, parent, name, hkind, hdisposition, hpath, hparent,
    hcreated⟩
  · exact .inl ⟨content, parent, temporary, name, hkind, hdisposition, hpath, hlength, hsha256,
      hparent.mono hsub.subset, hstreamed.mono hsub, hsub.subset hlinked⟩
  · exact .inr ⟨candidateId, parent, name, hkind, hdisposition, hpath, hparent.mono hsub.subset,
      hsub.subset hcreated⟩

theorem EntryAccounts.mono {site : Site} {i done : Nat} {entry : ManifestItem Value}
    (hsub : trace.Sublist trace') (h : EntryAccounts site i done entry trace) :
    EntryAccounts site i done entry trace' where
  candidateId := h.candidateId
  itemKey := h.itemKey
  itemKind := h.itemKind
  requestedPath := h.requestedPath
  finished := fun hi => (h.finished hi).mono hsub
  ended := by
    intro hi
    obtain ⟨hdisposition, hpaths⟩ := h.ended hi
    refine ⟨hdisposition, fun path hpath => ?_⟩
    obtain ⟨parent, name, hjoined, hparent, hcreated⟩ := hpaths path hpath
    exact ⟨parent, name, hjoined, hparent.mono hsub.subset, hsub.subset hcreated⟩
  later := h.later
  sidecar := by
    intro name hname
    obtain ⟨parent, sidecar, hparent, hsha256, hlinked⟩ := h.sidecar name hname
    exact ⟨parent, sidecar, hparent.mono hsub.subset, hsha256, hsub.subset hlinked⟩

theorem Accounts.mono {manifest : RecoveryManifest Value} (hsub : trace.Sublist trace')
    (h : Accounts plan manifest trace) : Accounts plan manifest trace' := by
  obtain ⟨hjobId, hlength, jobDir, done, hitems⟩ := h
  refine ⟨hjobId, hlength, jobDir, done, fun i item hitem => ?_⟩
  obtain ⟨entry, hentry, haccounts⟩ := hitems i item hitem
  exact ⟨entry, hentry, haccounts.mono hsub⟩

/-- The outcomes of a job that ends well are those of its results. -/
theorem filterMap_published {results : List (RestoreItemResult Value)}
    {outcomes : List (ManifestItemOutcome Value)}
    (hbuilt : env.buildManifestOutcomes plan results none = .ok outcomes)
    (hlength : results.length = plan.items.length) :
    outcomes.filterMap (·.published) = results := by
  have hlength' := length_buildManifestOutcomes hbuilt
  unfold JobEnv.buildManifestOutcomes at hbuilt
  dsimp only at hbuilt
  rw [throw_bind, ite_throw_eq_ok] at hbuilt
  have hmap : outcomes.map (·.published) = results.map some := by
    apply List.ext_getElem?
    intro i
    rw [List.getElem?_map, List.getElem?_map]
    by_cases hi : i < plan.items.length
    · have hzip : plan.items.zipIdx[i]? = some (plan.items[i], i) := by
        rw [List.getElem?_zipIdx, List.getElem?_eq_getElem hi, Nat.zero_add]
        rfl
      obtain ⟨outcome, houtcome, hstep⟩ := getElem?_of_mapM hbuilt.2 hzip
      have hresult : results[i]? = some results[i] := List.getElem?_eq_getElem (by omega)
      rw [houtcome, hresult]
      cases (manifestOutcome_eq_ok hstep).cases with
      | done hsome hpublished =>
        rw [hresult] at hsome
        cases hsome
        exact congrArg some hpublished
      | terminal hnone =>
        rw [hresult] at hnone
        cases hnone
      | later hnone =>
        rw [hresult] at hnone
        cases hnone
    · rw [List.getElem?_eq_none (by omega), List.getElem?_eq_none (by omega)]
      rfl
  have hid : outcomes.filterMap (·.published) = (outcomes.map (·.published)).filterMap id := by
    rw [List.filterMap_map]
    rfl
  rw [hid, hmap, List.filterMap_map]
  exact List.filterMap_some

def durabilityText : NamespaceDurability → String
  | .synced => jsonObject [("state", jsonString "synced")]
  | .unconfirmed reason =>
    jsonObject [("reason", jsonString reason), ("state", jsonString "unconfirmed")]
  | .unsupported kind message => jsonObject [("kind", jsonString kind),
      ("message", jsonString message), ("state", jsonString "unsupported")]
  | .failed kind message => jsonObject [("kind", jsonString kind),
      ("message", jsonString message), ("state", jsonString "failed")]

def statusText : RestoreCompletionStatus → String
  | .completedDurable => jsonString "completedDurable"
  | .needsReconciliation => jsonString "needsReconciliation"

def validationText : DirectoryValidation → String
  | .boundNoFollow => jsonString "boundNoFollow"
  | .unconfirmed => jsonString "unconfirmed"

def optionText {α : Type} (write : α → String) (value : Option α) : String :=
  (value.map write).getD "null"

/-- `serde_json` on the records that the job appends; the keys of a value are sorted. -/
def payloadText : JournalPayload → Except String String
  | .jobStarted record => .ok (jsonObject [("itemCount", toString record.itemCount),
      ("rootIdentityRevalidated", toString record.rootIdentityRevalidated)])
  | .directoryPrepared record => .ok (jsonObject [("candidateId", toString record.candidateId),
      ("itemKey", jsonString record.itemKey),
      ("itemKind", jsonString record.itemKind),
      ("requestedPath", jsonString record.requestedPath)])
  | .directoryPublicationPlanned record =>
    .ok (jsonObject [("candidateId", toString record.candidateId),
      ("collisionIndex", toString record.collisionIndex),
      ("itemKey", jsonString record.itemKey),
      ("itemKind", jsonString record.itemKind),
      ("publishedName", jsonString record.publishedName),
      ("publishedPath", jsonString record.publishedPath)])
  | .itemPublished record => .ok (jsonObject [("candidateId", toString record.candidateId),
      ("completionStatus", statusText record.completionStatus),
      ("directoryValidation", optionText validationText record.directoryValidation),
      ("itemKey", jsonString record.itemKey),
      ("itemKind", jsonString record.itemKind),
      ("namespaceDurability", durabilityText record.namespaceDurability),
      ("noFollowBindCompleted", optionText toString record.noFollowBindCompleted),
      ("publishedPath", jsonString record.publishedPath),
      ("sidecarName", optionText jsonString record.sidecarName)])
  | .manifestPrepared record => .ok (jsonObject [("length", toString record.length),
      ("name", jsonString record.name),
      ("outcomesPrefixSha256", jsonString record.outcomesPrefixSha256),
      ("sha256", jsonString record.sha256),
      ("temporaryName", jsonString record.temporaryName)])
  | .manifestPublished record =>
    .ok (jsonObject [("completionStatus", statusText record.completionStatus),
      ("name", jsonString record.name),
      ("namespaceDurability", durabilityText record.namespaceDurability)])
  | .jobCompleted record =>
    .ok (jsonObject [("completionStatus", statusText record.completionStatus),
      ("itemCount", toString record.itemCount)])
  | _ => .error "another payload"

/-- The entry of a directory, which has no ranges and no warnings. -/
def directoryText (item : ManifestItem String) : String :=
  jsonObject [("candidateId", toString item.candidateId),
    ("itemKey", jsonString item.itemKey),
    ("itemKind", jsonString item.itemKind),
    ("disposition", jsonString item.disposition),
    ("requestedPath", jsonString item.requestedPath),
    ("publishedPath", optionText jsonString item.publishedPath),
    ("outputLength", optionText toString item.outputLength),
    ("outputSha256", optionText jsonString item.outputSha256),
    ("expectedSha256", optionText jsonString item.expectedSha256),
    ("readableRanges", "[]"),
    ("zeroFilledRanges", "[]"),
    ("conflicts", "[]"),
    ("readErrors", "[]"),
    ("warnings", "[]"),
    ("partialSidecar", optionText jsonString item.partialSidecar),
    ("partialSidecarSha256", optionText jsonString item.partialSidecarSha256),
    ("temporaryFileDisposition", "null"),
    ("namespaceDurability", optionText durabilityText item.namespaceDurability),
    ("completionStatus", optionText statusText item.completionStatus),
    ("directoryNoFollowBindCompleted", optionText toString item.directoryNoFollowBindCompleted),
    ("directoryValidation", optionText validationText item.directoryValidation),
    ("failureKind", optionText jsonString item.failureKind),
    ("pathEvidence", item.pathEvidence)]

def manifestText (manifest : RecoveryManifest String) : String :=
  jsonObject [("version", toString manifest.version),
    ("jobId", jsonString manifest.jobId),
    ("journalHeadSha256", jsonString manifest.journalHeadSha256),
    ("items", "[" ++ ",".intercalate (manifest.items.map directoryText) ++ "]")]

/-- The other records of the job. -/
def docsJobEntries : List ChainEntry :=
  docsEntries ++
  [{ kind := "itemPublished"
     payload := jsonObject ([("candidateId", "7"),
       ("completionStatus", jsonString "completedDurable"),
       ("directoryValidation", jsonString "boundNoFollow")] ++ docsItem ++
       [("namespaceDurability", durabilityText .synced), ("noFollowBindCompleted", "true"),
         ("publishedPath", jsonString "docs"), ("sidecarName", "null")])
     digest :=
       #v[249, 55, 72, 16, 235, 12, 240, 186, 134, 119, 97, 56, 6, 78, 171, 215,
         145, 126, 37, 99, 133, 244, 120, 158, 41, 240, 4, 244, 121, 195, 243, 182] },
   { kind := "manifestPrepared"
     payload := jsonObject [("length", "701"), ("name", jsonString "recovery-manifest.json"),
       ("outcomesPrefixSha256",
         jsonString "f9374810eb0cf0ba86776138064eabd7917e256385f4789e29f004f479c3f3b6"),
       ("sha256", jsonString "7570ab0b959590ba99d709676a4ea1f856a12461674c0f8e5925909641638987"),
       ("temporaryName", jsonString ".um-ba9095950bab7075-manifest-0000.umrecovering")]
     digest :=
       #v[212, 203, 20, 14, 94, 209, 52, 82, 119, 65, 24, 63, 23, 43, 178, 50,
         42, 164, 118, 5, 64, 142, 5, 116, 200, 55, 29, 151, 126, 169, 44, 179] },
   { kind := "manifestPublished"
     payload := jsonObject [("completionStatus", jsonString "completedDurable"),
       ("name", jsonString "recovery-manifest.json"),
       ("namespaceDurability", durabilityText .synced)]
     digest :=
       #v[193, 217, 137, 202, 224, 185, 187, 51, 18, 97, 188, 122, 251, 120, 177, 142,
         169, 61, 234, 74, 125, 214, 15, 76, 39, 74, 178, 96, 152, 52, 20, 188] },
   { kind := "jobCompleted"
     payload := jsonObject [("completionStatus", jsonString "completedDurable"), ("itemCount", "1")]
     digest :=
       #v[228, 60, 201, 57, 15, 64, 6, 179, 122, 198, 128, 180, 27, 244, 252, 195,
         140, 62, 55, 146, 235, 48, 57, 77, 100, 45, 170, 36, 14, 70, 82, 48] }]

def docsJobRecords : List (JournalRecord String) :=
  chainRecords docsDigest docsJobEntries 0 (Vector.replicate 32 0)

/-- The SHA-256 of the manifest. -/
def docsManifestDigest : Digest :=
  #v[117, 112, 171, 11, 149, 149, 144, 186, 153, 215, 9, 103, 106, 78, 161, 248,
    86, 161, 36, 97, 103, 76, 15, 142, 89, 37, 144, 150, 65, 99, 137, 135]

/-- SHA-256 on the identity of the job, on its records, and on its manifest of 701 bytes. -/
def docsJobSha256 (bytes : Bytes) : Digest :=
  if bytes = Bytes.ofString "a" then docsDigest
  else if bytes.length = 701 then docsManifestDigest
  else tableSha256 (chainHashes docsDigest docsJobEntries 0 (Vector.replicate 32 0)) bytes

def docsJson : JobJson String where
  toJson := tableJson docsJobRecords
  payloadToValue := payloadText
  manifestToVec manifest := .ok (Bytes.ofString (manifestText manifest))
  sidecarToVec _ := .error "a sidecar"
  valueFromStr text := .ok text

/-- The length of the file that is written, and the number of appends. -/
structure DocsDisk where
  written : Nat := 0
  appends : Nat := 0

def docsAnswer (disk : DocsDisk) : (call : Call String) → call.Answer × DocsDisk
  | .dirMetadata _ | .symlinkMetadata _ _ => (.ok ⟨true, false, ⟨1, 2⟩, 0⟩, disk)
  | .fileMetadata _ => (.ok ⟨false, true, ⟨1, 3⟩, disk.written⟩, disk)
  | .tryClone _ | .openDirNofollow _ _ => (.ok ⟨4⟩, disk)
  | .createNew _ _ => (.ok ⟨5⟩, { disk with written := 0 })
  | .openRead _ _ => (.ok ⟨5⟩, disk)
  | .writeAll _ bytes => (.ok (), { disk with written := bytes.length })
  | .createDir _ _ _ | .flush _ | .syncAll _ | .hardLink _ _ _ _ => (.ok (), disk)
  | .syncParent _ _ => (.synced, disk)
  | .parentTransition _ _ _ => (.ok (), disk)
  | .isCancelled => (false, disk)
  | .observe _ | .manifestPublished _ => ((), disk)

def docsStream : StreamEnv DocsDisk where
  sourceLen := 0
  readBestEffortAt disk _ buffer := ((buffer, ⟨buffer.length, []⟩), disk)
  write disk bytes := (.ok bytes.length, disk)
  isCancelled disk := (false, disk)
  length_readBestEffortAt _ _ _ := rfl

/-- A destination on which every call succeeds, and whose disk is full at the append `full`. -/
def docsEnv (full : Option Nat) : JobEnv DocsDisk String where
  json := docsJson
  sha256 := docsJobSha256
  display _ := ""
  debugStr text := jsonString text
  answer call disk := docsAnswer disk call
  sinkFault disk :=
    (if full = some disk.appends then some diskFull else none,
      { disk with appends := disk.appends + 1 })
  stream _ := docsStream
  streamFailed _ _ disk := disk

theorem checkPath_docs : checkPath ["docs"] = .ok () := by decide +kernel

def docsPlanItem : FileRestorePlan where
  path := ⟨["docs"], checkPath_docs⟩
  pathEvidenceJson := "\x7b\x7d"
  item := .directory 7
  warnings := []

theorem checkJobPlan_docs : checkJobPlan "a" [docsPlanItem] = .ok () := by decide +kernel

def docsPlan : RestoreJobPlan where
  jobId := "a"
  items := [docsPlanItem]
  accepted := checkJobPlan_docs

def docsRoot : DestinationRoot := ⟨⟨3⟩, ⟨1, 2⟩⟩

/-- What a run is seen to do: the records that are acknowledged, what the observer is told, and how
    many items the summary lists. -/
def JobEnv.seen (env : JobEnv σ Value) (root : DestinationRoot) (plan : RestoreJobPlan) (s₀ : σ) :
    List String × List RestoreJobEvent × Option Nat :=
  ((env.jobTrace root plan s₀).filterMap Event.acknowledgedKind, told (env.jobTrace root plan s₀),
    ((env.restoreJob root plan).result (JobState.start s₀)).toOption.map (·.items.length))

section Seen

variable (env : JobEnv σ Value) (root : DestinationRoot) (plan : RestoreJobPlan) (s₀ : σ)

theorem JobEnv.seen_kinds :
    (env.jobTrace root plan s₀).filterMap Event.acknowledgedKind = (env.seen root plan s₀).1 := rfl

theorem JobEnv.seen_told : told (env.jobTrace root plan s₀) = (env.seen root plan s₀).2.1 := rfl

theorem JobEnv.seen_items :
    ((env.restoreJob root plan).result (JobState.start s₀)).toOption.map (·.items.length) =
      (env.seen root plan s₀).2.2 := rfl

end Seen

/-- The job restores its directory. -/
theorem docsJob_seen : (docsEnv none).seen docsRoot docsPlan {} =
    (["jobStarted", "itemPrepared", "directoryPublicationPlanned", "itemPublished",
      "manifestPrepared", "manifestPublished", "jobCompleted"],
      [.itemStarted 0 7 .directory 0, .itemFinished 0 7 .directory .directoryCreated],
      some 1) := by
  decide +kernel

/-- The disk is full at the third record. -/
theorem docsJob_full : (docsEnv (some 2)).seen docsRoot docsPlan {} =
    (["jobStarted", "itemPrepared"], [.itemStarted 0 7 .directory 0], none) := by
  decide +kernel

/-- The job returns a summary of its one item. -/
example : (((docsEnv none).restoreJob docsRoot docsPlan).result
    (JobState.start {})).toOption.map (·.items.length) = some 1 := by
  rw [JobEnv.seen_items, docsJob_seen]

/-! ## The journal file -/

/-- The tail of a record that was not acknowledged is left by an append that failed in the sink. -/
theorem poisoned_of_tail {json : Json Value} {sha256 : Bytes → Digest} {journal : JobJournal}
    {calls : List (AppendCall Value)} {tail : Bytes}
    (h : UnacknowledgedTail json sha256 journal calls tail) :
    (appendRun json sha256 journal calls).poisoned = true := by
  obtain ⟨before, call, after, bytes, hash, rfl, hprepared, hfault, _⟩ := h
  obtain ⟨fault, hfault⟩ := Option.ne_none_iff_exists'.mp hfault
  obtain ⟨operation, error, written, _, hcall⟩ := call_failed hprepared hfault
  rw [appendRun_append, appendRun_cons, hcall]
  generalize hfailed : (appendRun json sha256 journal before).poison written = failed
  have hpoisoned : failed.poisoned = true := by
    rw [← hfailed]
    rfl
  rw [(run_poisoned hpoisoned after).1]
  exact hpoisoned

/-- The audit of the acknowledged records of a run of appends. -/
theorem audit_acknowledged {json : Json Value} {sha256 : Bytes → Digest} (hjson : json.Lawful)
    (digest : Digest) {calls : List (AppendCall Value)}
    (hreads : ∀ call ∈ calls, ∀ value, call.payload = .ok value → json.ReadsBack value) :
    ∃ audit, auditJournal json sha256
        ((acknowledged json sha256 (JobJournal.withSink digest) calls).map (·.2)).flatten =
          .ok audit ∧
      audit.kinds = (acknowledged json sha256 (JobJournal.withSink digest) calls).map (·.1) ∧
      audit.sequences = List.range audit.records.length := by
  obtain ⟨st, new, hfold, hrecords, hkinds, hsequences⟩ :=
    @acknowledged_audited _ _ sha256 hjson _ _ (synced_withSink digest) calls hreads
  rw [show ({} : AuditState Value).records = [] from rfl, List.nil_append] at hrecords
  refine ⟨⟨st.records⟩, ?_, ?_, ?_⟩
  · rw [auditJournal_eq_ok]
    refine ⟨acknowledged_isText hjson _ calls, acknowledged_getLast? _ calls, st, ?_, rfl⟩
    rw [splitInclusive_acknowledged hjson _ calls]
    exact hfold
  · rw [JournalAudit.kinds, hrecords]
    exact hkinds
  · have hlength := congrArg List.length hkinds
    rw [List.length_map, List.length_map] at hlength
    rw [JournalAudit.sequences, hrecords, List.range_eq_range', hlength]
    exact hsequences

/-- Whatever a run of a job is answered and wherever its journal fails: the journal file it leaves
    is a part that the auditor accepts, whose records are those that the run got acknowledged, in
    order and numbered from zero, and behind it nothing, unless an append failed in the sink. -/
theorem jobEnd_audited (env : JobEnv σ Value) (root : DestinationRoot) (plan : RestoreJobPlan)
    (s₀ : σ) (hjson : env.json.toJson.Lawful)
    (hreads : ∀ payload value, env.json.payloadToValue payload = .ok value →
      env.json.toJson.ReadsBack value) :
    ∃ records tail audit, (env.jobEnd root plan s₀).journal.sink = records ++ tail ∧
      auditJournal env.json.toJson env.sha256 records = .ok audit ∧
      audit.kinds = (env.jobTrace root plan s₀).filterMap Event.acknowledgedKind ∧
      audit.sequences = List.range audit.records.length ∧
      (tail ≠ [] → ∃ e ∈ env.jobTrace root plan s₀, e.poisons = true) := by
  obtain ⟨digest, htied, _⟩ := (jobEnd_ran env root plan s₀).tied
  obtain ⟨calls, hrun, hkinds, hpayloads⟩ := htied.logged
  have hreads' : ∀ call ∈ calls, ∀ value, call.payload = .ok value →
      env.json.toJson.ReadsBack value := by
    intro call hcall value hvalue
    obtain ⟨payload, hpayload⟩ := hpayloads call hcall
    exact hreads payload value (hpayload ▸ hvalue)
  obtain ⟨tail, hsink, htail⟩ := appendRun_sink (JobJournal.withSink digest) calls
  obtain ⟨audit, haudit, hauditKinds, hsequences⟩ := audit_acknowledged hjson digest hreads'
  refine ⟨_, tail, audit, ?_, haudit, hauditKinds.trans hkinds, hsequences, fun hne => ?_⟩
  · rw [hrun, hsink, JobJournal.withSink, List.nil_append]
  · rcases htail with hnil | hpart
    · exact absurd hnil hne
    · apply List.any_eq_true.mp
      show (env.jobEnd root plan s₀).trace.any Event.poisons = true
      rw [← htied.poisoned, hrun]
      exact poisoned_of_tail hpart

theorem docsJobRecords_lawful : docsJson.toJson.Lawful :=
  tableJson_lawful (by decide +kernel)

theorem docsJobRecords_readsBack (value : String) : docsJson.toJson.ReadsBack value :=
  tableJson_readsBack value (by decide +kernel)

/-- The disk is full at the third record of the job, and the auditor reads the first two. -/
theorem jobEnd_audited_torn :
    ∃ records tail audit,
      ((docsEnv (some 2)).jobEnd docsRoot docsPlan {}).journal.sink = records ++ tail ∧
      auditJournal docsJson.toJson docsJobSha256 records = .ok audit ∧
      audit.kinds = ["jobStarted", "itemPrepared"] ∧ audit.sequences = [0, 1] := by
  obtain ⟨records, tail, audit, hsink, haudit, hkinds, hsequences, _⟩ :=
    jobEnd_audited (docsEnv (some 2)) docsRoot docsPlan {} docsJobRecords_lawful
      fun _ value _ => docsJobRecords_readsBack value
  rw [JobEnv.seen_kinds, docsJob_full] at hkinds
  have hlength : audit.records.length = 2 := by
    rw [← List.length_map, ← JournalAudit.kinds, hkinds]
    rfl
  rw [hlength] at hsequences
  exact ⟨records, tail, audit, hsink, haudit, hkinds, hsequences⟩

end Undelete.Restore
