import Undelete.Spec.ItemPublished

/-!
# The protocol of a restore job

What the run of a job may do next, given its trace: `JobStep`. The steps of its items are those of
`ItemStep`; the manifest accounts for what the trace shows (`Accounted`), and it is linked only
behind a record that carries its hash.

## Key results

- `restoreJob_spec`: a run of `restore_job_observed_with_runtime` takes only these steps.
-/

namespace Undelete.Restore

open Except EStateM Trace

variable {σ Value : Type} {env : JobEnv σ Value} {s s' : JobState σ Value}
  {trace trace' : List (Event Value)}

/-! ## What the observer is told -/

/-- The event the observer is told of. -/
def Event.observed : Event Value → Option RestoreJobEvent
  | .call (.observe event) _ => some event
  | _ => none

/-- What the observer was told so far. -/
def told (trace : List (Event Value)) : List RestoreJobEvent := trace.filterMap Event.observed

/-- The begin of the item `i`. -/
def startedEvent (item : FileRestorePlan) (i : Nat) : RestoreJobEvent :=
  .itemStarted i item.candidateId item.observerKind item.logicalSize

/-- An item behind which no other item is begun. -/
def RestoreJobEvent.endsJob : RestoreJobEvent → Bool
  | .itemFinished _ _ _ .failed | .itemFinished _ _ _ .cancelled => true
  | _ => false

/-- An item that was published. -/
def RestoreJobEvent.completes : RestoreJobEvent → Bool
  | .itemFinished _ _ _ .published | .itemFinished _ _ _ .directoryCreated
  | .itemFinished _ _ _ .directoryNeedsReconciliation => true
  | _ => false

theorem told_append (trace trace' : List (Event Value)) :
    told (trace ++ trace') = told trace ++ told trace' := List.filterMap_append

theorem told_sublist (h : trace.Sublist trace') : (told trace).Sublist (told trace') :=
  h.filterMap Event.observed

/-! ## What a job knows of its items -/

/-- The results of the first items. -/
structure ResultsKnown (env : JobEnv σ Value) (jobDir : Dir) (plan : RestoreJobPlan)
    (results : List (RestoreItemResult Value)) (trace : List (Event Value)) : Prop where
  few : results.length ≤ plan.items.length
  known : ∀ i item result, plan.items[i]? = some item → results[i]? = some result →
    Published env (siteOf jobDir item i) result trace
  counted : results.length ≤ (told trace).countP (·.completes)

/-- The item at which a job ends early. -/
structure TerminalKnown (env : JobEnv σ Value) (jobDir : Dir) (plan : RestoreJobPlan)
    (results : List (RestoreItemResult Value)) (terminal : TerminalItemOutcome Value)
    (trace : List (Event Value)) : Prop where
  index : terminal.index = results.length
  inside : terminal.index < plan.items.length
  disposition : terminal.disposition = .failed ∨ terminal.disposition = .cancelled ∨
    terminal.disposition = .directoryNeedsReconciliation
  sidecar : ∀ item evidence, plan.items[terminal.index]? = some item →
    terminal.publishedSidecar = some evidence → ∃ parent sidecar durability,
      (siteOf jobDir item terminal.index).Parent trace parent ∧
      SidecarLinked env (siteOf jobDir item terminal.index) parent sidecar evidence durability trace
  published : ∀ item result, plan.items[terminal.index]? = some item →
    terminal.published = some result → ∃ candidateId parent,
      DirectoryVisible env (siteOf jobDir item terminal.index) candidateId parent result trace
  counted : terminal.published.isSome = true →
    results.length < (told trace).countP (·.completes)

/-- The outcomes of a job are those of its results and of the item it ends at, if it ends early. -/
def OutcomesKnown (env : JobEnv σ Value) (jobDir : Dir) (plan : RestoreJobPlan)
    (outcomes : List (ManifestItemOutcome Value)) (trace : List (Event Value)) : Prop :=
  ∃ results terminalItem, env.buildManifestOutcomes plan results terminalItem = .ok outcomes ∧
    ResultsKnown env jobDir plan results trace ∧
    ∀ terminal, terminalItem = some terminal →
      TerminalKnown env jobDir plan results terminal trace

/-- A manifest that accounts for the items of the job. -/
def Accounted (env : JobEnv σ Value) (jobDir : Dir) (plan : RestoreJobPlan)
    (manifest : RecoveryManifest Value) (trace : List (Event Value)) : Prop :=
  ∃ head outcomes, OutcomesKnown env jobDir plan outcomes trace ∧
    manifest = recoveryManifest plan.jobId head outcomes

theorem ResultsKnown.mono {jobDir : Dir} {plan : RestoreJobPlan}
    {results : List (RestoreItemResult Value)} (hsub : trace.Sublist trace')
    (h : ResultsKnown env jobDir plan results trace) :
    ResultsKnown env jobDir plan results trace' where
  few := h.few
  known := fun i item result hitem hresult => (h.known i item result hitem hresult).mono hsub
  counted := Nat.le_trans h.counted (told_sublist hsub).countP_le

theorem TerminalKnown.mono {jobDir : Dir} {plan : RestoreJobPlan}
    {results : List (RestoreItemResult Value)} {terminal : TerminalItemOutcome Value}
    (hsub : trace.Sublist trace') (h : TerminalKnown env jobDir plan results terminal trace) :
    TerminalKnown env jobDir plan results terminal trace' where
  index := h.index
  inside := h.inside
  disposition := h.disposition
  sidecar := by
    intro item evidence hitem hevidence
    obtain ⟨parent, sidecar, durability, hparent, hlinked⟩ :=
      h.sidecar item evidence hitem hevidence
    exact ⟨parent, sidecar, durability, hparent.mono hsub.subset, hlinked.mono hsub⟩
  published := by
    intro item result hitem hresult
    obtain ⟨candidateId, parent, hvisible⟩ := h.published item result hitem hresult
    exact ⟨candidateId, parent, hvisible.mono hsub⟩
  counted := fun hsome => Nat.lt_of_lt_of_le (h.counted hsome) (told_sublist hsub).countP_le

theorem OutcomesKnown.mono {jobDir : Dir} {plan : RestoreJobPlan}
    {outcomes : List (ManifestItemOutcome Value)} (hsub : trace.Sublist trace')
    (h : OutcomesKnown env jobDir plan outcomes trace) :
    OutcomesKnown env jobDir plan outcomes trace' := by
  obtain ⟨results, terminalItem, hbuilt, hresults, hterminal⟩ := h
  exact ⟨results, terminalItem, hbuilt, hresults.mono hsub,
    fun terminal heq => (hterminal terminal heq).mono hsub⟩

/-! ## The observer's protocol -/

/-- The item `i` came to an error: the probe before it was answered `true`, or its run failed. -/
inductive ItemEnds (env : JobEnv σ Value) (jobDir : Dir) (item : FileRestorePlan) (i : Nat)
    (trace : List (Event Value)) : JobError → Prop
  | cancelled {before : List (Event Value)}
      (hlast : (told before).getLast? = some (startedEvent item i))
      (h : before ++ [.call .isCancelled true] <+: trace) :
      ItemEnds env jobDir item i trace (.content (.cancelled 0))
  | failed {s s' : JobState σ Value} {failure : ItemRestoreFailure Value}
      (hlast : (told s.trace).getLast? = some (startedEvent item i))
      (hprobed : s.trace.getLast? = some (.call .isCancelled false))
      (hrun : env.restoreItem jobDir item i s = .error failure s') (h : s'.trace <+: trace) :
      ItemEnds env jobDir item i trace failure.error

theorem ItemEnds.mono {jobDir : Dir} {item : FileRestorePlan} {i : Nat} {error : JobError}
    (hfront : trace <+: trace') (h : ItemEnds env jobDir item i trace error) :
    ItemEnds env jobDir item i trace' error := by
  cases h with
  | cancelled hlast h => exact .cancelled hlast (h.trans hfront)
  | failed hlast hprobed hrun h => exact .failed hlast hprobed hrun (h.trans hfront)

/-- The outcome of an item that came to an error. -/
def JobError.ending (error : JobError) : RestoreItemOutcome :=
  if error.isCancelled then .cancelled else .failed

/-- What the observer may be told next: it is told of the items one by one, of each when it begins
    and when it ends. -/
inductive Tells (env : JobEnv σ Value) (jobDir : Dir) (plan : RestoreJobPlan)
    (past : List (Event Value)) : RestoreJobEvent → Prop
  | started {item : FileRestorePlan} {i : Nat} (hitem : plan.items[i]? = some item)
      (hlength : (told past).length = 2 * i) (hgood : ∀ event ∈ told past, event.endsJob = false) :
      Tells env jobDir plan past (startedEvent item i)
  | finished {item : FileRestorePlan} {i : Nat} {result : RestoreItemResult Value}
      (hitem : plan.items[i]? = some item) (hlast : (told past).getLast? = some
        (startedEvent item i))
      (hresult : Published env (siteOf jobDir item i) result past) :
      Tells env jobDir plan past
        (.itemFinished i item.candidateId item.observerKind (finishedOutcome item result))
  | ended {item : FileRestorePlan} {i : Nat} {error : JobError} (hitem : plan.items[i]? = some item)
      (hlast : (told past).getLast? = some (startedEvent item i))
      (hends : ItemEnds env jobDir item i past error) :
      Tells env jobDir plan past
        (.itemFinished i item.candidateId item.observerKind error.ending)
  | unconfirmed {item : FileRestorePlan} {i candidateId : Nat} {parent : Dir}
      {result : RestoreItemResult Value} (hitem : plan.items[i]? = some item)
      (hlast : (told past).getLast? = some (startedEvent item i))
      (hvisible : DirectoryVisible env (siteOf jobDir item i) candidateId parent result past) :
      Tells env jobDir plan past
        (.itemFinished i item.candidateId item.observerKind .directoryNeedsReconciliation)

/-- A run that does not call the observer tells it nothing. -/
theorem Steps.told_eq {Ok : List (Event Value) → Event Value → Prop} (h : Steps env Ok s s')
    (hOk : ∀ past e, Ok past e → e.observed = none) : told s'.trace = told s.trace := by
  obtain ⟨new, htrace, _, hguard, _⟩ := h
  have hnew : told new = [] := by
    apply List.filterMap_eq_nil_iff.mpr
    intro e he
    obtain ⟨before, after, rfl⟩ := List.append_of_mem he
    exact hOk _ e hguard.at
  rw [htrace, told_append, hnew, List.append_nil]

theorem TempStep.observed {parent : Dir} {e : Event Value} (h : TempStep env parent e) :
    e.observed = none := by
  cases h with
  | @handle call answer h =>
    cases call with
    | observe event => cases h
    | _ => rfl
  | _ => rfl

theorem ItemStep.observed {site : Site} {past : List (Event Value)} {e : Event Value}
    (h : ItemStep env site past e) : e.observed = none := by
  cases h with
  | @handle call answer h =>
    cases call with
    | observe event => cases h
    | _ => rfl
  | _ => rfl

/-! ## Steps of a job -/

/-- The job directory was made by the run and bound without following links. -/
def JobDir (env : JobEnv σ Value) (root : DestinationRoot) (plan : RestoreJobPlan) (jobDir : Dir)
    (trace : List (Event Value)) : Prop :=
  [.call (.createDir root.dir (jobDirectoryComponent env.sha256 plan.jobId) .job) (.ok ()),
    .call (.openDirNofollow root.dir (jobDirectoryComponent env.sha256 plan.jobId))
      (.ok jobDir)].Sublist trace

/-- What the record `manifestPrepared` says. -/
def manifestRecord (env : JobEnv σ Value) (manifest : RecoveryManifest Value) (bytes : Bytes)
    (prepared : PreparedFile) : ManifestPrepared where
  name := manifestName
  length := bytes.length
  sha256 := hexDigest (env.sha256 bytes)
  outcomesPrefixSha256 := manifest.journalHeadSha256
  temporaryName := prepared.name

/-- The manifest is written and synced. -/
structure ManifestWritten (env : JobEnv σ Value) (jobDir : Dir) (manifest : RecoveryManifest Value)
    (bytes : Bytes) (prepared : PreparedFile) (trace : List (Event Value)) : Prop where
  built : .manifest manifest ∈ trace
  encoded : env.json.manifestToVec manifest = .ok bytes
  written : FileWritten trace jobDir bytes prepared

/-- The terminal record for an error. -/
def JobError.terminal (error : JobError) : JobTerminal :=
  if error.isCancelled then .cancelled else .failed (errorKind error)

/-- Why a job ends: every item was told of and ended well, or one came to an error. -/
inductive JobEnds (env : JobEnv σ Value) (jobDir : Dir) (plan : RestoreJobPlan)
    (trace : List (Event Value)) : JobTerminal → Prop
  | completed {before : List (Event Value)} (h : before <+: trace)
      (hall : (told before).length = 2 * plan.items.length)
      (hgood : ∀ event ∈ told before, event.endsJob = false) :
      JobEnds env jobDir plan trace .completed
  | ended {item : FileRestorePlan} {i : Nat} {error : JobError} (hitem : plan.items[i]? = some item)
      (h : ItemEnds env jobDir item i trace error) : JobEnds env jobDir plan trace error.terminal

theorem JobEnds.mono {jobDir : Dir} {plan : RestoreJobPlan} {terminal : JobTerminal}
    (hfront : trace <+: trace') (h : JobEnds env jobDir plan trace terminal) :
    JobEnds env jobDir plan trace' terminal := by
  cases h with
  | completed h hall hgood => exact .completed (h.trans hfront) hall hgood
  | ended hitem h => exact .ended hitem (h.mono hfront)

/-- The records of a job: under which kind each is appended, and what has happened before. -/
inductive JobTruthful (env : JobEnv σ Value) (root : DestinationRoot) (plan : RestoreJobPlan)
    (jobDir : Dir) (past : List (Event Value)) : String → JournalPayload → Prop
  | jobStarted {metadata : Metadata} (hmem : .call (.dirMetadata root.dir) (.ok metadata) ∈ past)
      (hsame : metadata.isDir = true ∧ metadata.identity = root.baselineIdentity) :
      JobTruthful env root plan jobDir past "jobStarted"
        (.jobStarted { itemCount := plan.items.length, rootIdentityRevalidated := true })
  | itemFailed {item : FileRestorePlan} {i : Nat} {error : JobError}
      (hitem : plan.items[i]? = some item) (hends : ItemEnds env jobDir item i past error)
      (herror : error.isCancelled = false) (htold : (told past).getLast? =
        some (.itemFinished i item.candidateId item.observerKind .failed)) :
      JobTruthful env root plan jobDir past "itemFailed"
        (.failure { candidateId := some item.candidateId, errorKind := errorKind error })
  | itemCancelled {item : FileRestorePlan} {i : Nat} {error : JobError}
      (hitem : plan.items[i]? = some item) (hends : ItemEnds env jobDir item i past error)
      (herror : error.isCancelled = true) (htold : (told past).getLast? =
        some (.itemFinished i item.candidateId item.observerKind .cancelled)) :
      JobTruthful env root plan jobDir past "itemCancelled"
        (.failure { candidateId := some item.candidateId, errorKind := "cancelled" })
  | manifestPrepared {manifest : RecoveryManifest Value} {bytes : Bytes} {prepared : PreparedFile}
      (h : ManifestWritten env jobDir manifest bytes prepared past) :
      JobTruthful env root plan jobDir past "manifestPrepared"
        (.manifestPrepared (manifestRecord env manifest bytes prepared))
  | manifestFailed {name : String} {error : IoError} (h : past.getLast? =
        some (.call (.hardLink jobDir name manifestName .manifest) (.error error))) :
      JobTruthful env root plan jobDir past "jobFailed"
        (.failure { candidateId := none, errorKind := errorKind (hardLinkError error) })
  | manifestPublished {prepared : PreparedFile} {durability : NamespaceDurability}
      (h : [linkEvent jobDir prepared manifestName .manifest,
        .call (.syncParent jobDir .manifest) durability].Sublist past) :
      JobTruthful env root plan jobDir past "manifestPublished" (.manifestPublished
        { name := manifestName
          namespaceDurability := durability
          completionStatus := durabilityStatus durability })
  | jobCompleted {outcomes : List (ManifestItemOutcome Value)} {published : ManifestPublished}
      {completionStatus : RestoreCompletionStatus}
      (hends : JobEnds env jobDir plan past .completed)
      (hpublished : .appended "manifestPublished" (.manifestPublished published) (.ok ()) ∈ past)
      (houtcomes : OutcomesKnown env jobDir plan outcomes past)
      (hdurable : completionStatus = .completedDurable →
        published.completionStatus = .completedDurable ∧
        ∀ result ∈ outcomes.filterMap (·.published), result.completionStatus = .completedDurable) :
      JobTruthful env root plan jobDir past "jobCompleted"
        (.jobCompleted { itemCount := plan.items.length, completionStatus })
  | jobFailed {item : FileRestorePlan} {i : Nat} {error : JobError} {published : ManifestPublished}
      (hitem : plan.items[i]? = some item) (hends : ItemEnds env jobDir item i past error)
      (herror : error.isCancelled = false)
      (hpublished : .appended "manifestPublished" (.manifestPublished published) (.ok ()) ∈ past) :
      JobTruthful env root plan jobDir past "jobFailed"
        (.failure { candidateId := none, errorKind := errorKind error })
  | jobCancelled {item : FileRestorePlan} {i : Nat} {error : JobError}
      {published : ManifestPublished} (hitem : plan.items[i]? = some item)
      (hends : ItemEnds env jobDir item i past error) (herror : error.isCancelled = true)
      (hpublished : .appended "manifestPublished" (.manifestPublished published) (.ok ()) ∈ past) :
      JobTruthful env root plan jobDir past "jobCancelled"
        (.failure { candidateId := none, errorKind := "cancelled" })

/-- What the run of a job may do after `past`. -/
inductive JobStep (env : JobEnv σ Value) (root : DestinationRoot) (plan : RestoreJobPlan)
    (past : List (Event Value)) : Event Value → Prop
  | revalidated (answer : Except IoError Metadata) :
      JobStep env root plan past (.call (.dirMetadata root.dir) answer)
  | created (answer : Except IoError Unit) {metadata : Metadata}
      (hrevalidated : past = [.call (.dirMetadata root.dir) (.ok metadata)])
      (hsame : metadata.isDir = true ∧ metadata.identity = root.baselineIdentity) :
      JobStep env root plan past
        (.call (.createDir root.dir (jobDirectoryComponent env.sha256 plan.jobId) .job) answer)
  | bound (answer : Except IoError Dir) (hhealthy : Healthy past) :
      JobStep env root plan past
        (.call (.openDirNofollow root.dir (jobDirectoryComponent env.sha256 plan.jobId)) answer)
  | temporary {jobDir : Dir} {e : Event Value} (hjobDir : JobDir env root plan jobDir past)
      (hhealthy : Healthy past) (h : TempStep env jobDir e) : JobStep env root plan past e
  | item {jobDir : Dir} {itemIndex : Nat} {item : FileRestorePlan} {e : Event Value}
      (hjobDir : JobDir env root plan jobDir past) (hitem : plan.items[itemIndex]? = some item)
      (h : ItemStep env (siteOf jobDir item itemIndex) past e) : JobStep env root plan past e
  | probed (answer : Bool) : JobStep env root plan past (.call .isCancelled answer)
  | observed {jobDir : Dir} {event : RestoreJobEvent} (answer : Unit)
      (hjobDir : JobDir env root plan jobDir past) (h : Tells env jobDir plan past event) :
      JobStep env root plan past (.call (.observe event) answer)
  | accounted {jobDir : Dir} {manifest : RecoveryManifest Value}
      (hjobDir : JobDir env root plan jobDir past) (h : Accounted env jobDir plan manifest past) :
      JobStep env root plan past (.manifest manifest)
  | linked {jobDir : Dir} {manifest : RecoveryManifest Value} {bytes : Bytes}
      {prepared : PreparedFile} (answer : Except IoError Unit) (hhealthy : Healthy past)
      (hjobDir : JobDir env root plan jobDir past)
      (hwritten : ManifestWritten env jobDir manifest bytes prepared past)
      (hannounced : .appended "manifestPrepared"
        (.manifestPrepared (manifestRecord env manifest bytes prepared)) (.ok ()) ∈ past)
      (hrebound : Rebound past jobDir prepared) :
      JobStep env root plan past
        (.call (.hardLink jobDir prepared.name manifestName .manifest) answer)
  | appended {jobDir : Dir} {kind : String} {payload : JournalPayload}
      (result : Except JobError Unit) (hjobDir : JobDir env root plan jobDir past)
      (h : JobTruthful env root plan jobDir past kind payload) :
      JobStep env root plan past (.appended kind payload result)
  | reported {summary : RestoreSummary Value} {outcomes : List (ManifestItemOutcome Value)}
      {prepared : PreparedFile} {jobDir : Dir} (answer : Unit)
      (h : linkEvent jobDir prepared manifestName .manifest ∈ past)
      (houtcomes : OutcomesKnown env jobDir plan outcomes past)
      (hitems : summary.items = outcomes.filterMap (·.published)) :
      JobStep env root plan past (.call (.manifestPublished summary) answer)

theorem JobDir.mono {root : DestinationRoot} {plan : RestoreJobPlan} {jobDir : Dir}
    (hsub : trace.Sublist trace') (h : JobDir env root plan jobDir trace) :
    JobDir env root plan jobDir trace' := h.trans hsub

theorem ManifestWritten.mono {jobDir : Dir} {manifest : RecoveryManifest Value} {bytes : Bytes}
    {prepared : PreparedFile} (hsub : trace.Sublist trace')
    (h : ManifestWritten env jobDir manifest bytes prepared trace) :
    ManifestWritten env jobDir manifest bytes prepared trace' where
  built := hsub.subset h.built
  encoded := h.encoded
  written := h.written.trans hsub

end Undelete.Restore
