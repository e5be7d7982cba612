import Mathlib.Algebra.GroupWithZero.Nat
import Mathlib.Data.Finset.Card
import Undelete.ForStd.Except
import Undelete.ForStd.Wp
import Undelete.Native.Desktop.Storage

/-!
# The selection of a scan session

Every update of the selection either fails and changes nothing, or succeeds from the current
revision and the active query, changes exactly what its operation names, raises the revision by
one, and returns a recount of the new selection (`selection_run`).
-/

namespace Undelete.Desktop

open EStateM Except

variable {env : ResultsEnv} {results : ScanResults}

def ScanResults.ids (results : ScanResults) : List Nat := results.candidates.map (·.candidate.id)

/-! ## Recounting a selection -/

/-- The counters of a selection, counted one by one. -/
def recount (env : ResultsEnv) (query : CandidateQuery) (selected : Finset Nat)
    (candidates : List StoredCandidate) : SelectionTotals :=
  let chosen := candidates.filter (·.candidate.id ∈ selected)
  { selectedCandidates := chosen.length
    selectedFiles := chosen.countP (·.candidate.kind = .file)
    selectedDirectories := chosen.countP (·.candidate.kind = .directory)
    selectedLogicalBytes := (chosen.map (·.candidate.size)).sum
    bestEffortCandidates := chosen.countP (candidateEligibility ·.candidate = .bestEffort)
    conflictedCandidates := chosen.countP (·.candidate.state = .conflicted)
    ineligibleCandidates := chosen.countP (candidateEligibility ·.candidate = .ineligible)
    matchingSelectedCandidates := chosen.countP (candidateMatches env query selected) }

def SelectionTotals.add (a b : SelectionTotals) : SelectionTotals where
  selectedCandidates := a.selectedCandidates + b.selectedCandidates
  selectedFiles := a.selectedFiles + b.selectedFiles
  selectedDirectories := a.selectedDirectories + b.selectedDirectories
  selectedLogicalBytes := a.selectedLogicalBytes + b.selectedLogicalBytes
  bestEffortCandidates := a.bestEffortCandidates + b.bestEffortCandidates
  conflictedCandidates := a.conflictedCandidates + b.conflictedCandidates
  ineligibleCandidates := a.ineligibleCandidates + b.ineligibleCandidates
  matchingSelectedCandidates := a.matchingSelectedCandidates + b.matchingSelectedCandidates

theorem checkedIncrement_eq_ok {n m : Nat} : checkedIncrement n = .ok m → m = n + 1 := by
  intro h
  rw [checkedIncrement, okOr_eq_ok, U64.checkedAdd_eq_some] at h
  exact h.2.symm

/-- What a selected candidate adds to the counters, matching aside. -/
def tallied (candidate : Candidate) : SelectionTotals where
  selectedCandidates := 1
  selectedFiles := if candidate.kind = .file then 1 else 0
  selectedDirectories := if candidate.kind = .directory then 1 else 0
  selectedLogicalBytes := candidate.size
  bestEffortCandidates := if candidateEligibility candidate = .bestEffort then 1 else 0
  conflictedCandidates := if candidate.state = .conflicted then 1 else 0
  ineligibleCandidates := if candidateEligibility candidate = .ineligible then 1 else 0

theorem tallyKind_eq_ok {totals totals' : SelectionTotals} {kind : CandidateKind}
    (h : tallyKind totals kind = .ok totals') :
    totals' = { totals with
      selectedFiles := totals.selectedFiles + if kind = .file then 1 else 0
      selectedDirectories := totals.selectedDirectories + if kind = .directory then 1 else 0 } := by
  cases kind with
  | file =>
    simp only [tallyKind, bind_eq_ok, pure_eq_ok] at h
    obtain ⟨n, hn, rfl⟩ := h
    simp [checkedIncrement_eq_ok hn]
  | directory =>
    simp only [tallyKind, bind_eq_ok, pure_eq_ok] at h
    obtain ⟨n, hn, rfl⟩ := h
    simp [checkedIncrement_eq_ok hn]

theorem tallyEligibility_eq_ok {totals totals' : SelectionTotals} {class' : RecoveryEligibility}
    (h : tallyEligibility totals class' = .ok totals') :
    totals' = { totals with
      bestEffortCandidates := totals.bestEffortCandidates + if class' = .bestEffort then 1 else 0
      ineligibleCandidates :=
        totals.ineligibleCandidates + if class' = .ineligible then 1 else 0 } := by
  cases class' with
  | complete =>
    cases h
    simp
  | bestEffort =>
    simp only [tallyEligibility, bind_eq_ok, pure_eq_ok] at h
    obtain ⟨n, hn, rfl⟩ := h
    simp [checkedIncrement_eq_ok hn]
  | ineligible =>
    simp only [tallyEligibility, bind_eq_ok, pure_eq_ok] at h
    obtain ⟨n, hn, rfl⟩ := h
    simp [checkedIncrement_eq_ok hn]

theorem tallyState_eq_ok {totals totals' : SelectionTotals} {state : CandidateState}
    (h : tallyState totals state = .ok totals') :
    totals' = { totals with
      conflictedCandidates :=
        totals.conflictedCandidates + if state = .conflicted then 1 else 0 } := by
  unfold tallyState at h
  split at h
  · next hstate =>
    simp only [bind_eq_ok, pure_eq_ok] at h
    obtain ⟨n, hn, rfl⟩ := h
    simp [checkedIncrement_eq_ok hn, hstate]
  · next hstate =>
    cases h
    simp [hstate]

theorem tallyMatching_eq_ok {totals totals' : SelectionTotals} {matching : Bool}
    (h : tallyMatching totals matching = .ok totals') :
    totals' = { totals with
      matchingSelectedCandidates :=
        totals.matchingSelectedCandidates + if matching then 1 else 0 } := by
  cases matching with
  | true =>
    simp only [tallyMatching, if_true, bind_eq_ok, pure_eq_ok] at h
    obtain ⟨n, hn, rfl⟩ := h
    simp [checkedIncrement_eq_ok hn]
  | false =>
    cases h
    simp

theorem tallySelected_eq_ok {totals totals' : SelectionTotals} {candidate : Candidate}
    (h : tallySelected totals candidate = .ok totals') :
    totals' = totals.add (tallied candidate) := by
  simp only [tallySelected, bind_eq_ok, okOr_eq_ok, U64.checkedAdd_eq_some] at h
  obtain ⟨selected, hselected, totals₁, hkind, bytes, ⟨_, rfl⟩, totals₂, hclass, hstate⟩ := h
  rw [tallyState_eq_ok hstate, tallyEligibility_eq_ok hclass, tallyKind_eq_ok hkind,
    checkedIncrement_eq_ok hselected]
  simp [SelectionTotals.add, tallied]

/-- One round of the loop adds the candidate, when it is selected. -/
theorem tallyCandidate_eq_ok {query : CandidateQuery} {selected : Finset Nat}
    {totals totals' : SelectionTotals} {stored : StoredCandidate}
    (h : tallyCandidate env selected (some query) totals stored = .ok totals') :
    totals' = totals.add (recount env query selected [stored]) := by
  simp only [tallyCandidate] at h
  by_cases hselected : stored.candidate.id ∈ selected
  · rw [if_neg (not_not.mpr hselected), bind_eq_ok] at h
    obtain ⟨totals₁, htally, hmatching⟩ := h
    rw [tallyMatching_eq_ok hmatching, tallySelected_eq_ok htally]
    simp [SelectionTotals.add, tallied, recount, hselected, List.countP_cons]
  · rw [if_pos hselected, pure_eq_ok] at h
    rw [← h]
    simp [SelectionTotals.add, recount, hselected]

theorem recount_cons {query : CandidateQuery} {selected : Finset Nat} {stored : StoredCandidate}
    {candidates : List StoredCandidate} :
    recount env query selected (stored :: candidates) =
      (recount env query selected [stored]).add (recount env query selected candidates) := by
  by_cases hselected : stored.candidate.id ∈ selected
  · simp [SelectionTotals.add, recount, hselected, List.countP_cons, Nat.add_comm]
  · simp [SelectionTotals.add, recount, hselected]

theorem SelectionTotals.add_assoc (a b c : SelectionTotals) :
    (a.add b).add c = a.add (b.add c) := by
  simp [SelectionTotals.add, Nat.add_assoc]

/-- The loop of `selection_summary` recounts the selection. -/
theorem tally_recount {query : CandidateQuery} {selected : Finset Nat}
    {totals totals' : SelectionTotals} {candidates : List StoredCandidate}
    (h : candidates.foldlM (tallyCandidate env selected (some query)) totals = .ok totals') :
    totals' = totals.add (recount env query selected candidates) := by
  induction candidates generalizing totals with
  | nil =>
    cases h
    simp [SelectionTotals.add, recount]
  | cons stored candidates ih =>
    rw [List.foldlM_cons, bind_eq_ok] at h
    obtain ⟨totals₁, hstep, hrest⟩ := h
    rw [ih hrest, tallyCandidate_eq_ok hstep, SelectionTotals.add_assoc, ← recount_cons]

theorem selectionSummary_eq_ok {query : CandidateQuery} {candidates : List StoredCandidate}
    {selected : Finset Nat} {revision : Nat} {summary : CandidateSelectionSummaryDto}
    (h : selectionSummary env candidates selected revision (some query) = .ok summary) :
    summary = (recount env query selected candidates).summary revision := by
  simp only [selectionSummary, bind_eq_ok, pure_eq_ok] at h
  obtain ⟨totals, hfold, rfl⟩ := h
  rw [tally_recount hfold]
  simp [SelectionTotals.add]

/-! ## What an operation proposes -/

/-- The ids that match the query under a selection. -/
def Matching (env : ResultsEnv) (results : ScanResults) (query : CandidateQuery)
    (selected : Finset Nat) (id : Nat) : Prop :=
  ∃ stored ∈ results.candidates, stored.candidate.id = id ∧
    candidateMatches env query selected stored = true

theorem mem_matchingIds {query : CandidateQuery} {selected : Finset Nat} {id : Nat} :
    id ∈ matchingIds env results.candidates query selected ↔
      Matching env results query selected id := by
  simp only [matchingIds, Matching, List.mem_map, List.mem_filter]
  apply exists_congr
  intro stored
  tauto

theorem mem_ids_of_matching {query : CandidateQuery} {selected : Finset Nat} {id : Nat}
    (h : Matching env results query selected id) : id ∈ results.ids := by
  obtain ⟨stored, hstored, rfl, _⟩ := h
  exact List.mem_map_of_mem (f := fun s : StoredCandidate => s.candidate.id) hstored

/-- The selection after an operation under the query that was active before it. -/
def Proposed (env : ResultsEnv) (results : ScanResults) (query : CandidateQuery)
    (before after : Finset Nat) : SelectionOperationDto → Prop
  | .setIds candidateIds selected =>
    ∃ listed : List Nat, candidateIds.map parseDecimalU64 = listed.map .ok ∧ listed.Nodup ∧
      0 < listed.length ∧ listed.length ≤ maxDirectSelectionIds ∧
      (∀ id ∈ listed, id ∈ results.ids) ∧
      ∀ id, id ∈ after ↔ if id ∈ listed then selected = true else id ∈ before
  | .selectAllMatching =>
    ∀ id, id ∈ after ↔ id ∈ before ∨ Matching env results query before id
  | .clearMatching =>
    ∀ id, id ∈ after ↔ id ∈ before ∧ ¬Matching env results query before id
  | .clearAll => after = ∅

theorem parseCandidateIds_eq_ok {candidateIds : List String} {unique : Finset Nat}
    {listed : List Nat}
    (h : parseCandidateIds results.candidateIndex candidateIds unique = .ok listed) :
    candidateIds.map parseDecimalU64 = listed.map .ok ∧ listed.Nodup ∧
      ∀ id ∈ listed, id ∉ unique ∧ id ∈ results.ids := by
  induction candidateIds generalizing unique listed with
  | nil =>
    cases h
    simp
  | cons candidateId candidateIds ih =>
    simp only [parseCandidateIds, bind_eq_ok, throw_bind, ite_throw_eq_ok, pure_eq_ok] at h
    obtain ⟨id, hid, hfresh, rest, hrest, rfl⟩ := h
    obtain ⟨hmap, hnodup, hlisted⟩ := ih hrest
    rw [not_or, Option.isNone_iff_eq_none, ← Ne, ← Option.isSome_iff_ne_none,
      results.indexed id] at hfresh
    refine ⟨by rw [List.map_cons, hid, hmap, List.map_cons], ?_, ?_⟩
    · rw [List.nodup_cons]
      exact ⟨fun hmem => (hlisted id hmem).1 (Finset.mem_insert_self id unique), hnodup⟩
    · intro other hother
      rcases List.mem_cons.mp hother with rfl | hother
      · exact hfresh
      · obtain ⟨hnew, hretained⟩ := hlisted other hother
        exact ⟨fun hmem => hnew (Finset.mem_insert_of_mem hmem), hretained⟩

theorem mem_foldl_insert {listed : List Nat} {before : Finset Nat} {id : Nat} :
    id ∈ listed.foldl (fun proposed id => insert id proposed) before ↔
      id ∈ before ∨ id ∈ listed := by
  induction listed generalizing before with
  | nil => simp
  | cons first listed ih =>
    rw [List.foldl_cons, ih, Finset.mem_insert, List.mem_cons]
    tauto

theorem mem_foldl_erase {listed : List Nat} {before : Finset Nat} {id : Nat} :
    id ∈ listed.foldl Finset.erase before ↔ id ∈ before ∧ id ∉ listed := by
  induction listed generalizing before with
  | nil => simp
  | cons first listed ih =>
    rw [List.foldl_cons, ih, Finset.mem_erase, List.mem_cons]
    tauto

theorem proposedSelection_eq_ok {query : CandidateQuery} {before after : Finset Nat}
    {operation : SelectionOperationDto}
    (h : proposedSelection env results query before operation = .ok after) :
    Proposed env results query before after operation := by
  cases operation with
  | setIds candidateIds selected =>
    simp only [proposedSelection, bind_eq_ok, throw_bind, ite_throw_eq_ok, pure_eq_ok] at h
    obtain ⟨hlength, listed, hlisted, rfl⟩ := h
    obtain ⟨hmap, hnodup, hmem⟩ := parseCandidateIds_eq_ok hlisted
    have hsame : candidateIds.length = listed.length := by
      simpa using congrArg List.length hmap
    rw [not_or, List.isEmpty_iff_length_eq_zero, hsame] at hlength
    refine ⟨listed, hmap, hnodup, by omega, by omega, fun id hid => (hmem id hid).2, ?_⟩
    intro id
    cases selected with
    | true =>
      simp only [if_true, mem_foldl_insert]
      split <;> simp_all
    | false =>
      show id ∈ listed.foldl Finset.erase before ↔ _
      rw [mem_foldl_erase]
      split <;> simp_all
  | selectAllMatching =>
    cases h
    intro id
    rw [mem_foldl_insert, mem_matchingIds]
  | clearMatching =>
    cases h
    intro id
    rw [mem_foldl_erase, mem_matchingIds]
  | clearAll =>
    cases h
    rfl

/-- No operation selects an id that is not retained. -/
theorem Proposed.retained {query : CandidateQuery} {before after : Finset Nat}
    {operation : SelectionOperationDto} (h : Proposed env results query before after operation)
    (hbefore : ∀ id ∈ before, id ∈ results.ids) : ∀ id ∈ after, id ∈ results.ids := by
  intro id hid
  cases operation with
  | setIds candidateIds selected =>
    obtain ⟨listed, _, _, _, _, hlisted, hafter⟩ := h
    rw [hafter id] at hid
    split at hid
    · next hmem => exact hlisted id hmem
    · exact hbefore id hid
  | selectAllMatching =>
    rcases (h id).mp hid with hid | hid
    · exact hbefore id hid
    · exact mem_ids_of_matching hid
  | clearMatching => exact hbefore id ((h id).mp hid).1
  | clearAll =>
    rw [show after = ∅ from h] at hid
    simp at hid

/-! ## One update -/

/-- What a successful update has done. -/
structure Updated (env : ResultsEnv) (results : ScanResults) (before after : ResultsState)
    (queryId : String) (operation : SelectionOperationDto) (expectedRevision : Nat)
    (dto : CandidateSelectionUpdateDto) : Prop where
  current : before.selectionRevision = expectedRevision
  revision : after.selectionRevision = before.selectionRevision + 1
  bound : after.selectionRevision < 2 ^ 64
  query : after.activeQuery = before.activeQuery
  active : ∃ binding, before.activeQuery = some binding ∧ binding.queryId = queryId ∧
    Proposed env results binding.query before.selected after.selected operation ∧
    dto = {
      schemaVersion := resultSchemaVersion
      scanId := results.scanId
      queryId
      selectionRevision := toString after.selectionRevision
      selection := (recount env binding.query after.selected results.candidates).summary
        after.selectionRevision }

theorem updateCandidateSelection_wp (env : ResultsEnv) (results : ScanResults)
    (queryId : String) (operation : SelectionOperationDto) (expectedRevision : Nat)
    (st : ResultsState) :
    (updateCandidateSelection env results queryId operation expectedRevision).Wp st
      (fun dto st' => Updated env results st st' queryId operation expectedRevision dto)
      (fun _ st' => st' = st) := by
  unfold updateCandidateSelection
  rw [wp_bind, wp_get, wp_guard]
  refine ⟨fun _ => rfl, fun hrevision => ?_⟩
  rw [not_not] at hrevision
  rw [wp_bind, wp_ofExcept]
  refine ⟨fun binding hbinding => ?_, fun _ _ => rfl⟩
  rw [okOr_eq_ok, Option.filter_eq_some_iff] at hbinding
  rw [wp_bind, wp_ofExcept]
  refine ⟨fun nextRevision hnext => ?_, fun _ _ => rfl⟩
  rw [okOr_eq_ok, U64.checkedAdd_eq_some] at hnext
  obtain ⟨hbound, rfl⟩ := hnext
  rw [wp_bind, wp_ofExcept]
  refine ⟨fun proposed hproposed => ?_, fun _ _ => rfl⟩
  rw [wp_bind, wp_ofExcept]
  refine ⟨fun summary hsummary => ?_, fun _ _ => rfl⟩
  rw [wp_bind, wp_set, wp_pure]
  exact {
    current := hrevision
    revision := rfl
    bound := hbound
    query := rfl
    active := ⟨binding, hbinding.1, by simpa using hbinding.2, proposedSelection_eq_ok hproposed,
      by rw [selectionSummary_eq_ok hsummary]⟩ }

/-! ## Pages -/

/-- A step that leaves the selection and its revision as they are, whatever becomes of it. -/
def KeepsSelection {α : Type} (x : ResultsM α) : Prop :=
  ∀ st, x.Wp st
    (fun _ st' => st'.selected = st.selected ∧ st'.selectionRevision = st.selectionRevision)
    (fun _ st' => st'.selected = st.selected ∧ st'.selectionRevision = st.selectionRevision)

theorem KeepsSelection.pure {α : Type} (a : α) : KeepsSelection (Pure.pure a : ResultsM α) :=
  fun _ => ⟨rfl, rfl⟩

theorem KeepsSelection.get : KeepsSelection (MonadState.get : ResultsM ResultsState) :=
  fun _ => ⟨rfl, rfl⟩

theorem KeepsSelection.ofExcept {α : Type} (x : Except ResultAuthorityError α) :
    KeepsSelection (MonadExcept.ofExcept x : ResultsM α) := by
  intro st
  rw [wp_ofExcept]
  exact ⟨fun _ _ => ⟨rfl, rfl⟩, fun _ _ => ⟨rfl, rfl⟩⟩

theorem KeepsSelection.bind {α β : Type} {x : ResultsM α} {f : α → ResultsM β}
    (hx : KeepsSelection x) (hf : ∀ a, KeepsSelection (f a)) : KeepsSelection (x >>= f) := by
  intro st
  rw [wp_bind]
  refine (hx st).mono (fun a st₁ h₁ => ?_) fun _ _ h => h
  refine (hf a st₁).mono (fun _ st₂ h₂ => ?_) fun _ st₂ h₂ => ?_ <;>
    exact ⟨h₂.1.trans h₁.1, h₂.2.trans h₁.2⟩

theorem bindQuery_keeps (queryId fingerprint : String) (query : CandidateQuery)
    (sort : CandidateSort) (cursor : Option String) :
    KeepsSelection (bindQuery queryId fingerprint query sort cursor) := by
  cases cursor with
  | some cursor => exact KeepsSelection.get.bind fun _ => .ofExcept _
  | none => exact fun _ => ⟨rfl, rfl⟩

theorem issueCursor_keeps (queryId fingerprint : String) (query : CandidateQuery)
    (sort : CandidateSort) (stop : Nat) :
    KeepsSelection (issueCursor env queryId fingerprint query sort stop) := by
  unfold issueCursor
  refine (KeepsSelection.ofExcept _).bind fun sortBytes => ?_
  intro st
  rw [wp_bind, wp_get, wp_bind, wp_ofExcept]
  refine ⟨fun binding _ => ?_, fun _ _ => ⟨rfl, rfl⟩⟩
  rw [wp_bind, wp_set, wp_pure]
  exact ⟨rfl, rfl⟩

theorem nextPageCursor_keeps (queryId fingerprint : String) (query : CandidateQuery)
    (sort : CandidateSort) (stop total : Nat) :
    KeepsSelection (nextPageCursor env queryId fingerprint query sort stop total) := by
  unfold nextPageCursor
  split
  · rw [map_eq_pure_bind]
    exact (issueCursor_keeps _ _ _ _ _).bind fun _ => .pure _
  · exact .pure _

theorem queryCandidatePage_keeps (env : ResultsEnv) (results : ScanResults)
    (query : CandidateQuery) (sort : CandidateSort) (cursor : Option String) :
    KeepsSelection (queryCandidatePage env results query sort cursor) := by
  unfold queryCandidatePage
  refine (KeepsSelection.ofExcept _).bind fun query => ?_
  refine (KeepsSelection.ofExcept _).bind fun fingerprint => ?_
  refine (KeepsSelection.ofExcept _).bind fun queryBytes => ?_
  refine (bindQuery_keeps _ _ _ _ _).bind fun offset => ?_
  refine KeepsSelection.get.bind fun st => ?_
  refine (KeepsSelection.ofExcept _).bind fun stop => ?_
  refine (KeepsSelection.ofExcept _).bind fun page => ?_
  refine (nextPageCursor_keeps _ _ _ _ _ _).bind fun nextCursor => ?_
  refine (KeepsSelection.ofExcept _).bind fun selection => ?_
  refine (KeepsSelection.ofExcept _).bind fun facets => ?_
  exact .pure _

/-! ## Requests on a session -/

/-- A request for a page changes neither the selection nor its revision. -/
theorem serve_page (env : ResultsEnv) (session : ScanSession) (query : CandidateQuery)
    (sort : CandidateSort) (cursor : Option String) :
    (session.serve env (.page query sort cursor)).2.state.selected = session.state.selected ∧
      (session.serve env (.page query sort cursor)).2.state.selectionRevision =
        session.state.selectionRevision := by
  have h := queryCandidatePage_keeps env session.results query sort cursor session.state
  unfold Wp at h
  simp only [ScanSession.serve]
  cases hpage : queryCandidatePage env session.results query sort cursor session.state with
  | ok page st => rw [hpage] at h; exact h
  | error e st => rw [hpage] at h; exact h

/-- An update fails without a trace, or does what `Updated` says. -/
theorem serve_update (env : ResultsEnv) (session : ScanSession) (queryId : String)
    (operation : SelectionOperationDto) (revision : Nat) :
    (∃ e, session.serve env (.update queryId operation revision) =
      (.update (.error e), session)) ∨
    ∃ dto st, session.serve env (.update queryId operation revision) =
        (.update (.ok dto), { session with state := st }) ∧
      Updated env session.results session.state st queryId operation revision dto := by
  have h := updateCandidateSelection_wp env session.results queryId operation revision
    session.state
  simp only [ScanSession.serve]
  rcases h.cases with ⟨dto, st, hst, hupdated⟩ | ⟨e, st, hst, rfl⟩
  · rw [hst]
    exact .inr ⟨dto, st, rfl, hupdated⟩
  · rw [hst]
    exact .inl ⟨_, rfl⟩

theorem serve_results {session : ScanSession} (request : ResultsRequest) :
    (session.serve env request).2.results = session.results := by
  cases request <;> rfl

theorem run_results (env : ResultsEnv) (session : ScanSession) (requests : List ResultsRequest) :
    (session.run env requests).results = session.results := by
  induction requests generalizing session with
  | nil => rfl
  | cons request requests ih =>
    show ((session.serve env request).2.run env requests).results = _
    rw [ih, serve_results]

/-- Every selected id is retained. -/
def ScanSession.Retained (session : ScanSession) : Prop :=
  ∀ id ∈ session.state.selected, id ∈ session.results.ids

/-- One request keeps the selection among the retained ids. -/
theorem serve_retained {session : ScanSession} (h : session.Retained) (request : ResultsRequest) :
    (session.serve env request).2.Retained := by
  cases request with
  | page query sort cursor =>
    rw [ScanSession.Retained, (serve_page env session query sort cursor).1, serve_results]
    exact h
  | update queryId operation revision =>
    rcases serve_update env session queryId operation revision with
      ⟨e, he⟩ | ⟨dto, st, hst, hupdated⟩
    · rw [he]
      exact h
    · rw [hst]
      obtain ⟨binding, _, _, hproposed, _⟩ := hupdated.active
      exact hproposed.retained h

theorem run_retained (env : ResultsEnv) {session : ScanSession} (h : session.Retained)
    (requests : List ResultsRequest) : (session.run env requests).Retained := by
  induction requests generalizing session with
  | nil => exact h
  | cons request requests ih => exact ih (serve_retained h request)

/-! ## The recount -/

theorem recount_kinds (query : CandidateQuery) (selected : Finset Nat)
    (candidates : List StoredCandidate) :
    (recount env query selected candidates).selectedFiles +
        (recount env query selected candidates).selectedDirectories =
      (recount env query selected candidates).selectedCandidates := by
  simp only [recount]
  generalize candidates.filter (·.candidate.id ∈ selected) = chosen
  induction chosen with
  | nil => rfl
  | cons stored chosen ih =>
    rw [List.countP_cons, List.countP_cons, List.length_cons]
    cases stored.candidate.kind <;> simp <;> omega

/-- The matching selected candidates are among those the query shows. -/
theorem recount_matching (query : CandidateQuery) (sort : CandidateSort) (selected : Finset Nat) :
    (recount env query selected results.candidates).matchingSelectedCandidates ≤
      (filteredCandidates env results query sort selected).length := by
  rw [filteredCandidates, List.length_insertionSort, ← List.countP_eq_length_filter]
  simp only [recount]
  rw [List.countP_filter]
  apply List.countP_mono_left
  intro stored _ h
  exact (Bool.and_eq_true_iff.mp h).1

/-- A selection of retained ids has as many members as the recount finds. -/
theorem recount_card {query : CandidateQuery} {selected : Finset Nat}
    (h : ∀ id ∈ selected, id ∈ results.ids) :
    (recount env query selected results.candidates).selectedCandidates = selected.card := by
  have hids : (results.candidates.filter (·.candidate.id ∈ selected)).map (·.candidate.id) =
      results.ids.filter (· ∈ selected) := by
    rw [ScanResults.ids, List.filter_map]
    rfl
  have hnodup : (results.ids.filter (· ∈ selected)).Nodup := results.distinct.filter _
  have hset : (results.ids.filter (· ∈ selected)).toFinset = selected := by
    ext id
    rw [List.mem_toFinset, List.mem_filter, decide_eq_true_eq]
    exact ⟨And.right, fun hid => ⟨h id hid, hid⟩⟩
  rw [← hset, List.toFinset_card_of_nodup hnodup, hset, ← hids, List.length_map]
  rfl

/-! ## The selection in every run -/

/-- The requests on a session, from its start: pages leave the selection alone; an update fails
    and leaves it alone, or does exactly what it says and reports the new selection. -/
theorem selection_run (env : ResultsEnv) (results : ScanResults) (requests : List ResultsRequest) :
    ((ScanSession.mk results {}).run env requests).Retained ∧
    (∀ query sort cursor, ∃ reply st,
      ((ScanSession.mk results {}).run env requests).serve env (.page query sort cursor) =
        (.page reply, ⟨results, st⟩) ∧
      st.selected = ((ScanSession.mk results {}).run env requests).state.selected ∧
      st.selectionRevision =
        ((ScanSession.mk results {}).run env requests).state.selectionRevision) ∧
    ∀ queryId operation revision,
      (∃ e, ((ScanSession.mk results {}).run env requests).serve env
          (.update queryId operation revision) =
        (.update (.error e), (ScanSession.mk results {}).run env requests)) ∨
      ∃ dto st totals, ((ScanSession.mk results {}).run env requests).serve env
          (.update queryId operation revision) = (.update (.ok dto), ⟨results, st⟩) ∧
        Updated env results ((ScanSession.mk results {}).run env requests).state st queryId
          operation revision dto ∧
        dto.selection = SelectionTotals.summary totals st.selectionRevision ∧
        totals.selectedCandidates = st.selected.card ∧
        totals.selectedFiles + totals.selectedDirectories = totals.selectedCandidates ∧
        ∃ binding, st.activeQuery = some binding ∧
          totals = recount env binding.query st.selected results.candidates ∧
          ∀ sort, totals.matchingSelectedCandidates ≤
            (filteredCandidates env results binding.query sort st.selected).length := by
  have hretained : (ScanSession.mk results {}).Retained := fun id hid => by simp at hid
  have hrun := run_retained env hretained requests
  have hresults := run_results env ⟨results, {}⟩ requests
  generalize (ScanSession.mk results {}).run env requests = session at hrun hresults ⊢
  obtain ⟨results', st⟩ := session
  obtain rfl : results' = results := hresults
  refine ⟨hrun, fun query sort cursor => ?_, fun queryId operation revision => ?_⟩
  · exact ⟨_, _, rfl, serve_page env _ query sort cursor⟩
  · rcases serve_update env ⟨results', st⟩ queryId operation revision with
      hfailed | ⟨dto, st', hst', hupdated⟩
    · exact .inl hfailed
    · obtain ⟨binding, hbinding, _, hproposed, hdto⟩ := hupdated.active
      refine .inr ⟨dto, st', recount env binding.query st'.selected results'.candidates, hst',
        hupdated, ?_, recount_card (hproposed.retained hrun), recount_kinds _ _ _, binding, ?_, rfl,
        fun sort => recount_matching _ _ _⟩
      · rw [hdto]
      · rw [hupdated.query, hbinding]

end Undelete.Desktop
