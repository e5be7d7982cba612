import Undelete.Native.Desktop.RestoreContract
import Undelete.Spec.ContractCorrect

/-!
# The window accepts a snapshot

A snapshot of a restore job whose parts pass the checks of the contract is read back as it was
written, unless the snapshot before it forbids it (`parse_snapshot`).
-/

namespace Undelete.Desktop

namespace Contract

structure ValidItem (itemsTotal : Nat) (item : RestoreCurrentItemDto) : Prop where
  decimals : validCandidateId item.ordinal = true ∧ validCandidateId item.candidateId = true
  kind : item.kind ∈ kinds
  inside : bigInt item.ordinal < itemsTotal

structure ValidManifest (itemsCompleted : Nat) (manifest : RestoreManifestSummaryDto) : Prop where
  hash : isSha256Hex manifest.manifestSha256 = true
  status : manifest.completionStatus ∈ completionStatuses
  decimals : validCandidateId manifest.publishedItems = true ∧
    validCandidateId manifest.partialItems = true
  published : bigInt manifest.publishedItems ≤ itemsCompleted
  partialItems : bigInt manifest.partialItems ≤ bigInt manifest.publishedItems

/-- What the contract checks of a snapshot alone. -/
structure ValidSnapshot (snapshot : RestoreJobSnapshotDto) : Prop where
  version : snapshot.schemaVersion = restoreSchemaVersion
  ids : isOpaqueId snapshot.jobId = true ∧ isOpaqueId snapshot.planId = true
  decimals : ∀ value ∈ [snapshot.itemsTotal, snapshot.itemsCompleted, snapshot.itemsFailed,
    snapshot.itemsCancelled, snapshot.bytesTotal, snapshot.bytesCompleted],
    validCandidateId value = true
  counters : coherentCounters (bigInt snapshot.itemsTotal) (dispositions snapshot)
    (bigInt snapshot.bytesTotal) (bigInt snapshot.bytesCompleted) = true
  item : ∀ item, snapshot.currentItem = some item → ValidItem (bigInt snapshot.itemsTotal) item
  manifest : ∀ manifest, snapshot.manifest = some manifest →
    ValidManifest (bigInt snapshot.itemsCompleted) manifest
  warningCount : snapshot.warnings.length ≤ maxWarnings
  warnings : ∀ warning ∈ snapshot.warnings,
    validText false warning = true ∧ pathless warning = true
  status : coherentStatus snapshot = true

theorem restoreStatus_written (status : RestoreJobStatusDto) :
    restoreStatus (.string status.name) = some status := by
  cases status <;> decide

theorem restoreCurrentItem_written {itemsTotal : Nat} {item : Option RestoreCurrentItemDto}
    (h : ∀ current, item = some current → ValidItem itemsTotal current) :
    restoreCurrentItem itemsTotal (.optional (·.toJson) item) = some item := by
  cases item with
  | none => rfl
  | some current =>
    have hvalid := h current rfl
    obtain ⟨fields, hfields⟩ : ∃ fields, current.toJson = .object fields := ⟨_, rfl⟩
    have hkeys : exactKeys fields ["ordinal", "candidateId", "kind"] = true := by
      cases hfields
      rfl
    have hordinal : decimal (field fields "ordinal") = some current.ordinal := by
      cases hfields
      exact checkedText_string hvalid.decimals.1
    have hcandidateId : decimal (field fields "candidateId") = some current.candidateId := by
      cases hfields
      exact checkedText_string hvalid.decimals.2
    have hkind : oneOf kinds (field fields "kind") = some current.kind := by
      cases hfields
      exact oneOf_written hvalid.kind
    show restoreCurrentItem itemsTotal current.toJson = _
    unfold restoreCurrentItem
    rw [hfields]
    dsimp only
    rw [record_checked hkeys, bind_some hordinal, bind_some hcandidateId, bind_some hkind]
    exact if_neg (Nat.not_le.mpr hvalid.inside)

theorem restoreManifestSummary_written {itemsCompleted : Nat}
    {manifest : Option RestoreManifestSummaryDto}
    (h : ∀ summary, manifest = some summary → ValidManifest itemsCompleted summary) :
    restoreManifestSummary itemsCompleted (.optional (·.toJson) manifest) = some manifest := by
  cases manifest with
  | none => rfl
  | some summary =>
    have hvalid := h summary rfl
    obtain ⟨fields, hfields⟩ : ∃ fields, summary.toJson = .object fields := ⟨_, rfl⟩
    have hkeys : exactKeys fields ["manifestSha256", "completionStatus", "publishedItems",
        "partialItems"] = true := by
      cases hfields
      rfl
    have hhash : sha256 (field fields "manifestSha256") = some summary.manifestSha256 := by
      cases hfields
      exact checkedText_string hvalid.hash
    have hstatus : oneOf completionStatuses (field fields "completionStatus") =
        some summary.completionStatus := by
      cases hfields
      exact oneOf_written hvalid.status
    have hpublished : decimal (field fields "publishedItems") = some summary.publishedItems := by
      cases hfields
      exact checkedText_string hvalid.decimals.1
    have hpartial : decimal (field fields "partialItems") = some summary.partialItems := by
      cases hfields
      exact checkedText_string hvalid.decimals.2
    show restoreManifestSummary itemsCompleted summary.toJson = _
    unfold restoreManifestSummary
    rw [hfields]
    dsimp only
    rw [record_checked hkeys, bind_some hhash, bind_some hstatus, bind_some hpublished,
      bind_some hpartial]
    apply if_neg
    rw [not_or, Nat.not_lt, Nat.not_lt]
    exact ⟨hvalid.published, hvalid.partialItems⟩

theorem restoreWarningList_written {warnings : List String}
    (hcount : warnings.length ≤ maxWarnings)
    (h : ∀ warning ∈ warnings, validText false warning = true ∧ pathless warning = true) :
    restoreWarningList (.array (warnings.map .string)) = some warnings := by
  have hall : warnings.all pathless = true :=
    List.all_eq_true.mpr fun warning hwarning => (h warning hwarning).2
  unfold restoreWarningList
  rw [bind_some (warningList_written hcount fun warning hwarning => (h warning hwarning).1), hall]
  rfl

/-- The window reads a valid snapshot as it was written, when it may follow the one before it. -/
theorem parse_snapshot {snapshot : RestoreJobSnapshotDto} (h : ValidSnapshot snapshot)
    (previous : Option RestoreJobSnapshotDto) :
    parseRestoreJobSnapshot snapshot.toJson previous =
      if previous.all (snapshotFollows · snapshot) then some snapshot else none := by
  obtain ⟨item, hitem⟩ : ∃ item, snapshot.toJson = .object item := ⟨_, rfl⟩
  have hkeys : exactKeys item ["schemaVersion", "jobId", "planId", "status", "itemsTotal",
      "itemsCompleted", "itemsFailed", "itemsCancelled", "bytesTotal", "bytesCompleted",
      "currentItem", "warnings", "manifest"] = true := by
    cases hitem
    rfl
  have hversion : restoreSchema (field item "schemaVersion") = some snapshot.schemaVersion := by
    cases hitem
    rw [h.version]
    rfl
  have hstatus : restoreStatus (field item "status") = some snapshot.status := by
    cases hitem
    exact restoreStatus_written snapshot.status
  have hdecimals : decimal (field item "itemsTotal") = some snapshot.itemsTotal ∧
      decimal (field item "itemsCompleted") = some snapshot.itemsCompleted ∧
      decimal (field item "itemsFailed") = some snapshot.itemsFailed ∧
      decimal (field item "itemsCancelled") = some snapshot.itemsCancelled ∧
      decimal (field item "bytesTotal") = some snapshot.bytesTotal ∧
      decimal (field item "bytesCompleted") = some snapshot.bytesCompleted := by
    have hvalues := h.decimals
    simp only [List.forall_mem_cons, List.not_mem_nil, false_imp_iff, implies_true,
      and_true] at hvalues
    obtain ⟨h₁, h₂, h₃, h₄, h₅, h₆⟩ := hvalues
    cases hitem
    exact ⟨checkedText_string h₁, checkedText_string h₂, checkedText_string h₃,
      checkedText_string h₄, checkedText_string h₅, checkedText_string h₆⟩
  have hcurrent : restoreCurrentItem (bigInt snapshot.itemsTotal) (field item "currentItem") =
      some snapshot.currentItem := by
    cases hitem
    exact restoreCurrentItem_written h.item
  have hmanifest : restoreManifestSummary (bigInt snapshot.itemsCompleted)
      (field item "manifest") = some snapshot.manifest := by
    cases hitem
    exact restoreManifestSummary_written h.manifest
  have hids : opaqueId (field item "jobId") = some snapshot.jobId ∧
      opaqueId (field item "planId") = some snapshot.planId := by
    cases hitem
    exact ⟨checkedText_string h.ids.1, checkedText_string h.ids.2⟩
  have hwarnings : restoreWarningList (field item "warnings") = some snapshot.warnings := by
    cases hitem
    exact restoreWarningList_written h.warningCount h.warnings
  obtain ⟨h₁, h₂, h₃, h₄, h₅, h₆⟩ := hdecimals
  have hcounters := h.counters
  unfold dispositions at hcounters
  have hcoherent := h.status
  unfold parseRestoreJobSnapshot
  rw [hitem, record_checked hkeys, bind_some hversion, bind_some hstatus, bind_some h₁,
    bind_some h₂, bind_some h₃, bind_some h₄, bind_some h₅, bind_some h₆]
  dsimp only
  rw [hcounters, bind_some hcurrent, bind_some hmanifest, bind_some hids.1, bind_some hids.2,
    bind_some hwarnings, hcoherent]
  cases previous.all (snapshotFollows · snapshot) with
  | true => rfl
  | false => rfl

end Contract

end Undelete.Desktop
