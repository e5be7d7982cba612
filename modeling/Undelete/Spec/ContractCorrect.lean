import Undelete.Spec.CursorCorrect
import Undelete.Spec.ResultsWorkspaceCorrect
import Undelete.Spec.ScoreCorrect
import Undelete.Spec.TextContract

/-!
# The window accepts the answers

A page or an update whose parts pass the checks of the contract is read back as it was written
(`parse_page`, `parse_update`).
-/

namespace Undelete.Desktop

open EStateM Except

/-! ## Reading back what was written -/

namespace Contract

/-- What the contract checks of a selection. -/
structure ValidSummary (summary : CandidateSelectionSummaryDto) : Prop where
  decimals : ∀ value ∈ [summary.selectionRevision, summary.selectedCandidates,
    summary.selectedFiles, summary.selectedDirectories, summary.selectedLogicalBytes,
    summary.bestEffortCandidates, summary.conflictedCandidates, summary.ineligibleCandidates,
    summary.matchingSelectedCandidates], validCandidateId value = true
  coherent : coherentSummary summary = true

structure ValidFacet (js : TextEnv) (facet : ExtensionFacetDto) : Prop where
  extension : isNormalizedExtension js facet.extension = true
  count : validCandidateId facet.count = true

/-- Whether a row has a score that fits its kind. -/
def ValidScore (kind : String) : Option Nat → Prop
  | some value => kind = "file" ∧ value ≤ 100
  | none => kind = "directory"

structure ValidRow (js : TextEnv) (row : ActionableCandidateRowDto) : Prop where
  decimals : validCandidateId row.id = true ∧ validCandidateId row.sizeBytes = true
  displayPath : validText false row.displayPath = true
  extension : isNormalizedExtension js row.extension = true
  names : row.kind ∈ kinds ∧ row.state ∈ states ∧ row.metadataConfidence ∈ confidences ∧
    row.pathState ∈ pathStates ∧ row.method ∈ methods
  score : ValidScore row.kind row.recoverabilityScore
  warningCount : row.warnings.length ≤ maxWarnings
  warnings : ∀ warning ∈ row.warnings, validText false warning = true

structure ValidPage (js : TextEnv) (page : CandidateQueryPageDto) : Prop where
  version : page.schemaVersion = resultSchemaVersion
  ids : isOpaqueId page.scanId = true ∧ isOpaqueId page.queryId = true
  cursors : page.cursor.all isOpaqueId = true ∧ page.nextCursor.all isOpaqueId = true
  decimals : validCandidateId page.queryRevision = true ∧ validCandidateId page.filteredTotal = true
  facetCount : page.extensionFacets.length ≤ maxRetainedCandidatesPerScan
  facets : ∀ facet ∈ page.extensionFacets, ValidFacet js facet
  distinctFacets : (page.extensionFacets.map (·.extension)).Nodup
  rowCount : page.candidates.length ≤ maxCandidatesPerPage
  rows : ∀ row ∈ page.candidates, ValidRow js row
  distinctRows : (page.candidates.map (·.id)).Nodup
  selection : ValidSummary page.selection
  shown : page.candidates.length ≤ bigInt page.filteredTotal
  matching : bigInt page.selection.matchingSelectedCandidates ≤ bigInt page.filteredTotal

structure ValidUpdate (update : CandidateSelectionUpdateDto) : Prop where
  version : update.schemaVersion = resultSchemaVersion
  ids : isOpaqueId update.scanId = true ∧ isOpaqueId update.queryId = true
  revision : update.selection.selectionRevision = update.selectionRevision
  selection : ValidSummary update.selection

variable {js : TextEnv}

theorem checkedText_string {valid : String → Bool} {value : String} (h : valid value = true) :
    checkedText valid (.string value) = some value := if_pos h

theorem bind_some {α β : Type} {x : Option α} {a : α} {read : α → Option β} (h : x = some a) :
    (x >>= read) = read a := by
  rw [h]
  rfl

/-- A reader that starts with the check of the keys. -/
theorem record_checked {α : Type} {fields : Fields} {keys : List String} {read : Fields → Option α}
    (h : exactKeys fields keys = true) :
    (do
      let item ← record (.object fields)
      if !exactKeys item keys then none
      read item) = read fields := by
  show (if (!exactKeys fields keys) = true then _ else read fields) = _
  rw [h]
  rfl

theorem mapM_written {α : Type} {write : α → Json} {read : Json → Option α} {items : List α}
    (h : ∀ item ∈ items, read (write item) = some item) :
    (items.map write).mapM read = some items := by
  induction items with
  | nil => rfl
  | cons item items ih =>
    rw [List.forall_mem_cons] at h
    rw [List.map_cons, List.mapM_cons, h.1, ih h.2]
    rfl

theorem boundedItems_array {limit : Nat} {items : List Json} (h : items.length ≤ limit) :
    boundedItems limit (.array items) = some items := if_neg (Nat.not_lt.mpr h)

theorem warningList_written {warnings : List String} (hcount : warnings.length ≤ maxWarnings)
    (h : ∀ warning ∈ warnings, validText false warning = true) :
    warningList (.array (warnings.map .string)) = some warnings := by
  show (if (warnings.map Json.string).length > maxWarnings then none else _) = _
  rw [List.length_map, if_neg (Nat.not_lt.mpr hcount)]
  exact mapM_written fun warning hwarning => checkedText_string (h warning hwarning)

theorem nullableOpaqueId_written {id : Option String} (h : id.all isOpaqueId = true) :
    nullableOpaqueId (.optional .string id) = some id := by
  cases id with
  | none => rfl
  | some id =>
    show some <$> checkedText isOpaqueId (.string id) = _
    rw [checkedText_string h]
    rfl

theorem score_written {kind : String} {value : Option Nat} (h : ValidScore kind value) :
    score kind (.optional (fun score : Nat => .number score) value) = some value := by
  cases value with
  | none => exact if_pos h
  | some value =>
    obtain ⟨hkind, hbound⟩ := h
    have hrange : kind = "file" ∧ (0 : Int) ≤ value ∧ (value : Int) ≤ 100 := ⟨hkind, by omega⟩
    exact if_pos hrange

theorem eligibility_written (value : RecoveryEligibility) :
    eligibility (.string value.name) = some value := by
  cases value <;> decide

theorem oneOf_written {allowed : List String} {value : String} (h : value ∈ allowed) :
    oneOf allowed (.string value) = some value :=
  checkedText_string (List.contains_iff_mem.mpr h)

theorem parse_summary {summary : CandidateSelectionSummaryDto} (h : ValidSummary summary) :
    selectionSummary summary.toJson = some summary := by
  obtain ⟨item, hitem⟩ : ∃ item, summary.toJson = .object item := ⟨_, rfl⟩
  have hkeys : exactKeys item ["selectionRevision", "selectedCandidates", "selectedFiles",
      "selectedDirectories", "selectedLogicalBytes", "bestEffortCandidates",
      "conflictedCandidates", "ineligibleCandidates", "matchingSelectedCandidates"] = true := by
    cases hitem
    rfl
  have hfields : decimal (field item "selectionRevision") = some summary.selectionRevision ∧
      decimal (field item "selectedCandidates") = some summary.selectedCandidates ∧
      decimal (field item "selectedFiles") = some summary.selectedFiles ∧
      decimal (field item "selectedDirectories") = some summary.selectedDirectories ∧
      decimal (field item "selectedLogicalBytes") = some summary.selectedLogicalBytes ∧
      decimal (field item "bestEffortCandidates") = some summary.bestEffortCandidates ∧
      decimal (field item "conflictedCandidates") = some summary.conflictedCandidates ∧
      decimal (field item "ineligibleCandidates") = some summary.ineligibleCandidates ∧
      decimal (field item "matchingSelectedCandidates") =
        some summary.matchingSelectedCandidates := by
    have hdecimals := h.decimals
    simp only [List.forall_mem_cons, List.not_mem_nil, false_imp_iff, implies_true,
      and_true] at hdecimals
    obtain ⟨h₁, h₂, h₃, h₄, h₅, h₆, h₇, h₈, h₉⟩ := hdecimals
    cases hitem
    exact ⟨checkedText_string h₁, checkedText_string h₂, checkedText_string h₃,
      checkedText_string h₄, checkedText_string h₅, checkedText_string h₆, checkedText_string h₇,
      checkedText_string h₈, checkedText_string h₉⟩
  obtain ⟨h₁, h₂, h₃, h₄, h₅, h₆, h₇, h₈, h₉⟩ := hfields
  unfold selectionSummary
  rw [hitem, record_checked hkeys, bind_some h₁, bind_some h₂, bind_some h₃, bind_some h₄,
    bind_some h₅, bind_some h₆, bind_some h₇, bind_some h₈, bind_some h₉]
  exact if_pos h.coherent

theorem parse_facet {facet : ExtensionFacetDto} (h : ValidFacet js facet) :
    extensionFacet js facet.toJson = some facet := by
  obtain ⟨item, hitem⟩ : ∃ item, facet.toJson = .object item := ⟨_, rfl⟩
  have hkeys : exactKeys item ["extension", "count"] = true := by
    cases hitem
    rfl
  have hextension : normalizedExtension js (field item "extension") = some facet.extension := by
    cases hitem
    exact checkedText_string h.extension
  have hcount : decimal (field item "count") = some facet.count := by
    cases hitem
    exact checkedText_string h.count
  unfold extensionFacet
  rw [hitem, record_checked hkeys, bind_some hextension, bind_some hcount]
  rfl

theorem parse_row {row : ActionableCandidateRowDto} (h : ValidRow js row) :
    actionableCandidate js row.toJson = some row := by
  obtain ⟨item, hitem⟩ : ∃ item, row.toJson = .object item := ⟨_, rfl⟩
  have hkeys : exactKeys item ["id", "displayPath", "extension", "kind", "state", "sizeBytes",
      "metadataConfidence", "recoverabilityScore", "pathState", "method", "eligibility",
      "selected", "warnings"] = true := by
    cases hitem
    rfl
  have hid : decimal (field item "id") = some row.id := by
    cases hitem
    exact checkedText_string h.decimals.1
  have hpath : text false (field item "displayPath") = some row.displayPath := by
    cases hitem
    exact checkedText_string h.displayPath
  have hextension : normalizedExtension js (field item "extension") = some row.extension := by
    cases hitem
    exact checkedText_string h.extension
  have hsize : decimal (field item "sizeBytes") = some row.sizeBytes := by
    cases hitem
    exact checkedText_string h.decimals.2
  have hscore : score row.kind (field item "recoverabilityScore") =
      some row.recoverabilityScore := by
    cases hitem
    exact score_written h.score
  have heligibility : eligibility (field item "eligibility") = some row.eligibility := by
    cases hitem
    exact eligibility_written row.eligibility
  have hselected : boolean (field item "selected") = some row.selected := by
    cases hitem
    rfl
  have hwarnings : warningList (field item "warnings") = some row.warnings := by
    cases hitem
    exact warningList_written h.warningCount h.warnings
  have hnames : oneOf kinds (field item "kind") = some row.kind ∧
      oneOf states (field item "state") = some row.state ∧
      oneOf confidences (field item "metadataConfidence") = some row.metadataConfidence ∧
      oneOf pathStates (field item "pathState") = some row.pathState ∧
      oneOf methods (field item "method") = some row.method := by
    obtain ⟨hkind, hstate, hconfidence, hpathState, hmethod⟩ := h.names
    cases hitem
    exact ⟨oneOf_written hkind, oneOf_written hstate, oneOf_written hconfidence,
      oneOf_written hpathState, oneOf_written hmethod⟩
  obtain ⟨hkind, hstate, hconfidence, hpathState, hmethod⟩ := hnames
  unfold actionableCandidate
  rw [hitem, record_checked hkeys, bind_some hkind, bind_some hid, bind_some hpath,
    bind_some hextension, bind_some hstate, bind_some hsize, bind_some hconfidence,
    bind_some hscore, bind_some hpathState, bind_some hmethod, bind_some heligibility,
    bind_some hselected, bind_some hwarnings]
  rfl

/-- The window reads a valid page as it was written. -/
theorem parse_page {page : CandidateQueryPageDto} (h : ValidPage js page) :
    parseCandidateQueryPage js page.toJson = some page := by
  obtain ⟨item, hitem⟩ : ∃ item, page.toJson = .object item := ⟨_, rfl⟩
  have hkeys : exactKeys item ["schemaVersion", "scanId", "queryId", "queryRevision", "cursor",
      "nextCursor", "filteredTotal", "extensionFacets", "selection", "candidates"] = true := by
    cases hitem
    rfl
  have hversion : schemaVersion (field item "schemaVersion") = some page.schemaVersion := by
    cases hitem
    rw [h.version]
    rfl
  have hids : opaqueId (field item "scanId") = some page.scanId ∧
      opaqueId (field item "queryId") = some page.queryId := by
    cases hitem
    exact ⟨checkedText_string h.ids.1, checkedText_string h.ids.2⟩
  have hcursors : nullableOpaqueId (field item "cursor") = some page.cursor ∧
      nullableOpaqueId (field item "nextCursor") = some page.nextCursor := by
    cases hitem
    exact ⟨nullableOpaqueId_written h.cursors.1, nullableOpaqueId_written h.cursors.2⟩
  have hdecimals : decimal (field item "queryRevision") = some page.queryRevision ∧
      decimal (field item "filteredTotal") = some page.filteredTotal := by
    cases hitem
    exact ⟨checkedText_string h.decimals.1, checkedText_string h.decimals.2⟩
  have hselection : selectionSummary (field item "selection") = some page.selection := by
    cases hitem
    exact parse_summary h.selection
  have hfacetItems : boundedItems maxRetainedCandidatesPerScan (field item "extensionFacets") =
      some (page.extensionFacets.map (·.toJson)) := by
    cases hitem
    exact boundedItems_array (by rw [List.length_map]; exact h.facetCount)
  have hrowItems : boundedItems maxCandidatesPerPage (field item "candidates") =
      some (page.candidates.map (·.toJson)) := by
    cases hitem
    exact boundedItems_array (by rw [List.length_map]; exact h.rowCount)
  have hfacets : (page.extensionFacets.map (·.toJson)).mapM (extensionFacet js) =
      some page.extensionFacets :=
        mapM_written fun facet hfacet => parse_facet (h.facets facet hfacet)
  have hrows : (page.candidates.map (·.toJson)).mapM (actionableCandidate js) =
      some page.candidates := mapM_written fun row hrow => parse_row (h.rows row hrow)
  have htotals : ¬(bigInt page.filteredTotal < page.candidates.length ∨
      bigInt page.selection.matchingSelectedCandidates > bigInt page.filteredTotal) :=
    not_or.mpr ⟨Nat.not_lt.mpr h.shown, Nat.not_lt.mpr h.matching⟩
  unfold parseCandidateQueryPage
  rw [hitem, record_checked hkeys, bind_some hversion, bind_some hfacetItems, bind_some hrowItems,
    bind_some hfacets, if_neg (not_not.mpr h.distinctFacets), bind_some hrows,
    if_neg (not_not.mpr h.distinctRows), bind_some hdecimals.2, bind_some hselection,
    if_neg htotals, bind_some hids.1, bind_some hids.2, bind_some hdecimals.1,
    bind_some hcursors.1, bind_some hcursors.2]
  rfl

theorem parse_update {update : CandidateSelectionUpdateDto} (h : ValidUpdate update) :
    parseCandidateSelectionUpdate update.toJson = some update := by
  obtain ⟨item, hitem⟩ : ∃ item, update.toJson = .object item := ⟨_, rfl⟩
  have hkeys : exactKeys item ["schemaVersion", "scanId", "queryId", "selectionRevision",
      "selection"] = true := by
    cases hitem
    rfl
  have hversion : schemaVersion (field item "schemaVersion") = some update.schemaVersion := by
    cases hitem
    rw [h.version]
    rfl
  have hrevision : decimal (field item "selectionRevision") = some update.selectionRevision := by
    have hdecimal := h.selection.decimals _ List.mem_cons_self
    rw [h.revision] at hdecimal
    cases hitem
    exact checkedText_string hdecimal
  have hselection : selectionSummary (field item "selection") = some update.selection := by
    cases hitem
    exact parse_summary h.selection
  have hids : opaqueId (field item "scanId") = some update.scanId ∧
      opaqueId (field item "queryId") = some update.queryId := by
    cases hitem
    exact ⟨checkedText_string h.ids.1, checkedText_string h.ids.2⟩
  unfold parseCandidateSelectionUpdate
  rw [hitem, record_checked hkeys, bind_some hversion, bind_some hrevision, bind_some hselection,
    if_neg (not_not.mpr h.revision), bind_some hids.1, bind_some hids.2]
  rfl

end Contract

end Undelete.Desktop
