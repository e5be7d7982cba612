import Mathlib.Data.String.Basic
import Undelete.Spec.ContractCorrect

/-!
# Answers within the contract

What a scan session answers is valid for the contract: the counters of a selection and of the
extensions are words, the rows come out of the sanitizers, and ids and cursors are derived from
hashes. `replies_accepted` puts this together for every run of a session.
-/

namespace Undelete.Desktop

open EStateM Except Restore

variable {env : RowEnv} {js : TextEnv}

/-! ## Facets -/

/-- What the loop of `extension_facets` keeps of its map. -/
structure FacetCounts (env : ResultsEnv) (counts : List (String × Nat)) : Prop where
  sorted : (counts.map (·.1)).Pairwise (· < ·)
  few : counts.length ≤ maxRetainedCandidatesPerScan
  extensions : ∀ entry ∈ counts, ∃ candidate, entry.1 = candidateExtension env candidate
  words : ∀ entry ∈ counts, entry.2 < 2 ^ 64

theorem mem_incrementFacet {extension : String} {counts : List (String × Nat)} :
    ∀ entry ∈ incrementFacet extension counts, entry ∈ counts ∨
      (entry.1 = extension ∧
        (entry.2 = 1 ∨ ∃ count, counts.lookup extension = some count ∧ entry.2 = count + 1)) := by
  -- on the sorted counts, along the search for the extension
  induction counts with
  | nil =>
    intro entry hentry
    rw [List.mem_singleton.mp hentry]
    exact .inr ⟨rfl, .inl rfl⟩
  | cons head counts ih =>
    obtain ⟨key, count⟩ := head
    intro entry hentry
    unfold incrementFacet at hentry
    split at hentry
    · next hkey =>
      rw [hkey]
      rcases List.mem_cons.mp hentry with rfl | hmem
      · exact .inr ⟨rfl, .inr ⟨count, List.lookup_cons_self, rfl⟩⟩
      · exact .inl (List.mem_cons_of_mem _ hmem)
    · next hne =>
      split at hentry
      · rcases List.mem_cons.mp hentry with rfl | hmem
        · exact .inr ⟨rfl, .inl rfl⟩
        · exact .inl hmem
      · rcases List.mem_cons.mp hentry with rfl | hmem
        · exact .inl List.mem_cons_self
        · rcases ih entry hmem with hold | ⟨hkey, hcount⟩
          · exact .inl (List.mem_cons_of_mem _ hold)
          · refine .inr ⟨hkey, hcount.imp_right ?_⟩
            intro hexists
            obtain ⟨before, hbefore, heq⟩ := hexists
            refine ⟨before, ?_, heq⟩
            rw [List.lookup_cons, beq_false_of_ne hne]
            exact hbefore

/-- A new key goes to its place, a known one stays where it is. -/
theorem incrementFacet_keys {extension : String} {counts : List (String × Nat)}
    (h : (counts.map (·.1)).Pairwise (· < ·)) :
    ((incrementFacet extension counts).map (·.1)).Pairwise (· < ·) ∧
      (incrementFacet extension counts).length =
        counts.length + if (counts.lookup extension).isNone then 1 else 0 := by
  induction counts with
  | nil => exact ⟨List.pairwise_singleton _ _, rfl⟩
  | cons head counts ih =>
    obtain ⟨key, count⟩ := head
    rw [List.map_cons, List.pairwise_cons] at h
    obtain ⟨hhead, hrest⟩ := h
    obtain ⟨hsorted, hlength⟩ := ih hrest
    unfold incrementFacet
    -- the extension is found, belongs before the head, or comes later
    split
    · next hkey =>
      rw [hkey, List.lookup_cons_self]
      exact ⟨List.pairwise_cons.mpr ⟨hhead, hrest⟩, rfl⟩
    · next hne =>
      have hlookup : ((key, count) :: counts).lookup extension = counts.lookup extension := by
        rw [List.lookup_cons, beq_false_of_ne hne]
      rw [hlookup]
      split
      · next hlt =>
        -- in a sorted list nothing after the head can be the extension
        have hnone : counts.lookup extension = none := by
          rw [List.lookup_eq_none_iff]
          intro entry hentry
          have hlater := lt_trans hlt (hhead entry.1 (List.mem_map_of_mem hentry))
          exact bne_iff_ne.mpr (ne_of_lt hlater)
        rw [hnone]
        refine ⟨List.pairwise_cons.mpr ⟨?_, List.pairwise_cons.mpr ⟨hhead, hrest⟩⟩, rfl⟩
        rw [List.map_cons, List.forall_mem_cons]
        exact ⟨hlt, fun other hother => lt_trans hlt (hhead other hother)⟩
      · next hnlt =>
        have hlt : key < extension := lt_of_le_of_ne (not_lt.mp hnlt) (Ne.symm hne)
        refine ⟨List.pairwise_cons.mpr ⟨?_, hsorted⟩, ?_⟩
        · intro other hother
          obtain ⟨entry, hentry, rfl⟩ := List.mem_map.mp hother
          rcases mem_incrementFacet entry hentry with hold | ⟨hkey, _⟩
          · exact hhead entry.1 (List.mem_map_of_mem hold)
          · rw [hkey]
            exact hlt
        · rw [List.length_cons, List.length_cons, hlength]
          omega

/-- One round of the loop keeps the map. -/
theorem FacetCounts.countFacet {env : ResultsEnv} {counts counts' : List (String × Nat)}
    {stored : StoredCandidate} (hcounts : FacetCounts env counts)
    (h : countFacet env counts stored = .ok counts') : FacetCounts env counts' := by
  simp only [Desktop.countFacet, throw_bind, ite_throw_eq_ok, pure_eq_ok] at h
  -- the guards of the fold: room for a new extension, no overflow of an old count
  obtain ⟨hroom, hword, rfl⟩ := h
  obtain ⟨hsorted, hlength⟩ := @incrementFacet_keys (candidateExtension env stored.candidate) counts
    hcounts.sorted
  refine ⟨hsorted, ?_, ?_, ?_⟩
  · have hfew := hcounts.few
    rw [hlength]
    split
    · next hnew =>
      have hless : counts.length ≠ maxRetainedCandidatesPerScan := fun heq => hroom ⟨hnew, heq⟩
      omega
    · omega
  · intro entry hentry
    rcases mem_incrementFacet entry hentry with hold | ⟨hkey, _⟩
    · exact hcounts.extensions entry hold
    · exact ⟨_, hkey⟩
  · intro entry hentry
    rcases mem_incrementFacet entry hentry with hold | ⟨_, hone | ⟨count, hlookup, hcount⟩⟩
    · exact hcounts.words entry hold
    · rw [hone]
      decide
    · rw [hlookup, Option.any_some, decide_eq_true_eq] at hword
      omega

/-- The facets of a session are valid. -/
theorem extensionFacets_valid (laws : TextLaws env) (agree : TablesAgree env js)
    {candidates : List StoredCandidate} {facets : List ExtensionFacetDto}
    (h : extensionFacets env.toResultsEnv candidates = .ok facets) :
    facets.length ≤ maxRetainedCandidatesPerScan ∧
    (∀ facet ∈ facets, Contract.ValidFacet js facet) ∧
      (facets.map (·.extension)).Nodup := by
  simp only [extensionFacets, bind_eq_ok, pure_eq_ok] at h
  obtain ⟨counts, hfold, rfl⟩ := h
  have hempty : FacetCounts env.toResultsEnv [] :=
    ⟨List.Pairwise.nil, Nat.zero_le _, fun _ h => (by cases h), fun _ h => (by cases h)⟩
  have hcounts := foldlM_keeps (fun _ _ _ hcounts hstep => hcounts.countFacet hstep) hempty hfold
  refine ⟨by rw [List.length_map]; exact hcounts.few, ?_, ?_⟩
  · intro facet hfacet
    obtain ⟨entry, hentry, rfl⟩ := List.mem_map.mp hfacet
    obtain ⟨candidate, hextension⟩ := hcounts.extensions entry hentry
    refine ⟨?_, validCandidateId_toString (hcounts.words entry hentry)⟩
    rw [hextension]
    exact isNormalizedExtension_candidate laws agree candidate
  · rw [List.map_map]
    exact hcounts.sorted.imp ne_of_lt

/-! ## Totals -/

/-- The counters of a selection fit their words. -/
structure SelectionTotals.Words (totals : SelectionTotals) : Prop where
  selected : totals.selectedCandidates < 2 ^ 64
  files : totals.selectedFiles < 2 ^ 64
  directories : totals.selectedDirectories < 2 ^ 64
  bytes : totals.selectedLogicalBytes < 2 ^ 64
  bestEffort : totals.bestEffortCandidates < 2 ^ 64
  conflicted : totals.conflictedCandidates < 2 ^ 64
  ineligible : totals.ineligibleCandidates < 2 ^ 64
  matching : totals.matchingSelectedCandidates < 2 ^ 64

theorem checkedIncrement_lt {n m : Nat} (h : checkedIncrement n = .ok m) : m < 2 ^ 64 := by
  rw [checkedIncrement, okOr_eq_ok, U64.checkedAdd_eq_some] at h
  omega

section Words

variable {totals totals' : SelectionTotals}

theorem tallyKind_words {kind : CandidateKind} (hwords : totals.Words)
    (h : tallyKind totals kind = .ok totals') : totals'.Words := by
  cases kind with
  | file =>
    simp only [tallyKind, bind_eq_ok, pure_eq_ok] at h
    obtain ⟨n, hn, rfl⟩ := h
    exact { hwords with files := checkedIncrement_lt hn }
  | directory =>
    simp only [tallyKind, bind_eq_ok, pure_eq_ok] at h
    obtain ⟨n, hn, rfl⟩ := h
    exact { hwords with directories := checkedIncrement_lt hn }

theorem tallyEligibility_words {eligibility : RecoveryEligibility} (hwords : totals.Words)
    (h : tallyEligibility totals eligibility = .ok totals') : totals'.Words := by
  cases eligibility with
  | complete =>
    cases h
    exact hwords
  | bestEffort =>
    simp only [tallyEligibility, bind_eq_ok, pure_eq_ok] at h
    obtain ⟨n, hn, rfl⟩ := h
    exact { hwords with bestEffort := checkedIncrement_lt hn }
  | ineligible =>
    simp only [tallyEligibility, bind_eq_ok, pure_eq_ok] at h
    obtain ⟨n, hn, rfl⟩ := h
    exact { hwords with ineligible := checkedIncrement_lt hn }

theorem tallyState_words {state : CandidateState} (hwords : totals.Words)
    (h : tallyState totals state = .ok totals') : totals'.Words := by
  unfold tallyState at h
  split at h
  · simp only [bind_eq_ok, pure_eq_ok] at h
    obtain ⟨n, hn, rfl⟩ := h
    exact { hwords with conflicted := checkedIncrement_lt hn }
  · cases h
    exact hwords

theorem tallySelected_words {candidate : Candidate} (hwords : totals.Words)
    (h : tallySelected totals candidate = .ok totals') : totals'.Words := by
  simp only [tallySelected, bind_eq_ok, okOr_eq_ok, U64.checkedAdd_eq_some] at h
  obtain ⟨selected, hselected, totals₁, hkind, bytes, ⟨hbytes, rfl⟩, totals₂, heligibility,
    hstate⟩ := h
  have hcounted : ({ totals with selectedCandidates := selected } : SelectionTotals).Words :=
    { hwords with selected := checkedIncrement_lt hselected }
  have hwords₁ := tallyKind_words hcounted hkind
  have hmeasured : ({ totals₁ with
      selectedLogicalBytes := totals₁.selectedLogicalBytes + candidate.size } :
      SelectionTotals).Words := { hwords₁ with bytes := hbytes }
  exact tallyState_words (tallyEligibility_words hmeasured heligibility) hstate

/-- One round of the loop keeps the counters inside their words. -/
theorem tallyCandidate_words {env : ResultsEnv} {selected : Finset Nat}
    {query : Option CandidateQuery} {stored : StoredCandidate} (hwords : totals.Words)
    (h : tallyCandidate env selected query totals stored = .ok totals') : totals'.Words := by
  simp only [tallyCandidate] at h
  split at h
  · cases h
    exact hwords
  · rw [bind_eq_ok] at h
    obtain ⟨totals₁, hselected, hmatching⟩ := h
    have hwords₁ := tallySelected_words hwords hselected
    unfold tallyMatching at hmatching
    split at hmatching
    · simp only [bind_eq_ok, pure_eq_ok] at hmatching
      obtain ⟨n, hn, rfl⟩ := hmatching
      exact { hwords₁ with matching := checkedIncrement_lt hn }
    · cases hmatching
      exact hwords₁

end Words

/-- The summary of a selection is valid for the contract. -/
theorem selectionSummary_valid {env : ResultsEnv} {candidates : List StoredCandidate}
    {selected : Finset Nat} {revision : Nat} {query : CandidateQuery}
    {summary : CandidateSelectionSummaryDto} (hrevision : revision < 2 ^ 64)
    (h : selectionSummary env candidates selected revision (some query) = .ok summary) :
    Contract.ValidSummary summary := by
  have hsummary := selectionSummary_eq_ok h
  simp only [selectionSummary, bind_eq_ok, pure_eq_ok] at h
  obtain ⟨totals, hfold, htotals⟩ := h
  have hzero : (0 : Nat) < 2 ^ 64 := by decide
  -- checked additions keep every total below 2^64
  have hwords : totals.Words := foldlM_keeps (fun _ _ _ hwords hstep =>
    tallyCandidate_words hwords hstep)
      ⟨hzero, hzero, hzero, hzero, hzero, hzero, hzero, hzero⟩ hfold
  constructor
  · rw [← htotals]
    simp only [SelectionTotals.summary, List.forall_mem_cons, List.not_mem_nil, false_imp_iff,
      implies_true, and_true]
    exact ⟨validCandidateId_toString hrevision, validCandidateId_toString hwords.selected,
      validCandidateId_toString hwords.files, validCandidateId_toString hwords.directories,
      validCandidateId_toString hwords.bytes, validCandidateId_toString hwords.bestEffort,
      validCandidateId_toString hwords.conflicted, validCandidateId_toString hwords.ineligible,
      validCandidateId_toString hwords.matching⟩
  · rw [hsummary]
    simp only [Contract.coherentSummary, SelectionTotals.summary, bigInt_toString, Bool.and_eq_true,
      decide_eq_true_eq]
    refine ⟨⟨⟨⟨recount_kinds _ _ _, ?_⟩, ?_⟩, ?_⟩, ?_⟩ <;> exact List.countP_le_length

/-! ## Rows -/

/-- A session as a finished scan leaves it; ids and sizes of candidates are machine words. -/
structure BuiltSession (env : RowEnv) (results : ScanResults) : Prop where
  rows : ∃ ns evidence candidates,
    sessionCandidates env results.scanId ns evidence candidates = .ok results.candidates
  words : ∀ stored ∈ results.candidates,
    stored.candidate.id < 2 ^ 64 ∧ stored.candidate.size < 2 ^ 64

theorem score_le_hundred (inp : RecoverabilityInputs) : inp.score ≤ 100 := by
  by_cases hlen : inp.totalLen = 0
  · rw [RecoverabilityInputs.score, if_pos hlen]
    decide
  · have hcap := RecoverabilityInputs.score_le_cap (Nat.pos_of_ne_zero hlen)
    omega

theorem candidatePathState_mem (candidate : Candidate) (ns : Option Ntfs.NtfsNamespace) :
    candidatePathState candidate ns ∈ Contract.pathStates := by
  have hguess : (if candidate.nameCertain then "reconstructed" else "incomplete") ∈
      Contract.pathStates := by
    split <;> decide
  unfold candidatePathState
  split
  · exact hguess
  · split
    · decide
    · split
      · exact hguess
      · next path _ =>
        cases path.state <;> decide
      · decide

/-- The row of every candidate passes the checks of the contract. -/
theorem adaptCandidate_valid (laws : TextLaws env) (agree : TablesAgree env js) {scanId : String}
    {candidate : Candidate} {ns : Option Ntfs.NtfsNamespace} {hasEvidence : Bool}
    {row : CandidateRowDto} {expectedSha256 : Option Digest} (selected : Finset Nat)
    (hid : candidate.id < 2 ^ 64) (hsize : candidate.size < 2 ^ 64)
    (h : adaptCandidate env scanId candidate ns hasEvidence = .ok row) :
    Contract.ValidRow js
      (actionableRow env.toResultsEnv selected ⟨candidate, row, expectedSha256⟩) := by
  unfold adaptCandidate at h
  split at h
  · cases h
  · next hcount =>
    split at h
    · cases h
    · cases h
      have hrow : ∀ c ∈ (deriveOpaqueId env.toResultsEnv "cand"
          [scanId, toString candidate.id]).toList, isIdCharacter c = true :=
        isIdCharacter_hex _ (List.all_eq_true.mp
          (show "cand".toList.all isIdCharacter = true by decide))
      exact {
        decimals := ⟨validCandidateId_toString hid, validCandidateId_toString hsize⟩
        displayPath := validText_sanitizeCandidatePath laws hrow _
        extension := isNormalizedExtension_candidate laws agree candidate
        -- the enumerations are sent by name, and the frontend knows each name
        names := by
          refine ⟨?_, ?_, ?_, candidatePathState_mem candidate ns, ?_⟩
          · show kindName candidate.kind ∈ _
            cases candidate.kind <;> decide
          · show stateName candidate.state ∈ _
            cases candidate.state <;> decide
          · show confidenceName candidate.metadataConfidence ∈ _
            cases candidate.metadataConfidence <;> decide
          · show methodName candidate.method ∈ _
            cases candidate.method <;> decide
        score := by
          show Contract.ValidScore (kindName candidate.kind)
            (if candidate.kind = .file
              then some (candidateScore env candidate hasEvidence) else none)
          -- only files carry a score
          cases candidate.kind with
          | file => exact ⟨rfl, score_le_hundred _⟩
          | directory => exact rfl
        warningCount := by
          show (sanitizeWarnings env candidate.warnings).length ≤ _
          rw [sanitizeWarnings, List.length_map]
          exact List.length_take_le _ _
        warnings := by
          intro warning hwarning
          obtain ⟨text, _, rfl⟩ := List.mem_map.mp hwarning
          exact validText_sanitizeRequired laws text }

/-- The rows of a built session. -/
theorem BuiltSession.validRow (laws : TextLaws env) (agree : TablesAgree env js)
    {results : ScanResults} (hbuilt : BuiltSession env results) (selected : Finset Nat) :
    ∀ stored ∈ results.candidates,
      Contract.ValidRow js (actionableRow env.toResultsEnv selected stored) := by
  obtain ⟨ns, evidence, candidates, hrows⟩ := hbuilt.rows
  unfold sessionCandidates at hrows
  split at hrows
  · cases hrows
  · intro stored hstored
    obtain ⟨hid, hsize⟩ := hbuilt.words stored hstored
    obtain ⟨candidate, _, hcandidate⟩ := exists_of_mem_mapM hrows stored hstored
    simp only [bind_eq_ok, pure_eq_ok] at hcandidate
    obtain ⟨row, hrow, rfl⟩ := hcandidate
    exact adaptCandidate_valid laws agree selected hid hsize hrow

theorem BuiltSession.few {results : ScanResults} (hbuilt : BuiltSession env results) :
    results.candidates.length ≤ maxRetainedCandidatesPerScan ∧
      validOpaqueId results.scanId = true := by
  obtain ⟨ns, evidence, candidates, hrows⟩ := hbuilt.rows
  unfold sessionCandidates at hrows
  split at hrows
  · cases hrows
  · next hchecks =>
    rw [Bool.or_eq_true, not_or, Bool.not_eq_true, Bool.not_eq_false', decide_eq_true_eq] at hchecks
    rw [length_of_mapM hrows]
    exact ⟨Nat.not_lt.mp hchecks.2, hchecks.1⟩

/-! ## Pages -/

/-- What a page request reports about its query and about the whole session. -/
structure Answered (env : ResultsEnv) (results : ScanResults) (raw : CandidateQuery)
    (cursor : Option String) (st : ResultsState) (page : CandidateQueryPageDto) : Prop where
  version : page.schemaVersion = resultSchemaVersion
  scanId : page.scanId = results.scanId
  cursor : page.cursor = cursor
  queryId : ∃ fields, page.queryId = deriveId env "query" fields
  query : ∃ query, canonicalQuery env raw = .ok query ∧ page.queryRevision = query.revision ∧
    selectionSummary env results.candidates st.selected st.selectionRevision (some query) =
      .ok page.selection
  facets : extensionFacets env results.candidates = .ok page.extensionFacets

theorem queryCandidatePage_answered (env : ResultsEnv) (results : ScanResults)
    (raw : CandidateQuery) (sort : CandidateSort) (cursor : Option String) (st : ResultsState) :
    (queryCandidatePage env results raw sort cursor).Wp st
      (fun page _ => Answered env results raw cursor st page) (fun _ _ => True) := by
  unfold queryCandidatePage
  rw [wp_bind, wp_ofExcept]
  refine ⟨fun query hquery => ?_, fun _ _ => trivial⟩
  rw [wp_bind, wp_ofExcept]
  refine ⟨fun fingerprint _ => ?_, fun _ _ => trivial⟩
  rw [wp_bind, wp_ofExcept]
  refine ⟨fun queryBytes _ => ?_, fun _ _ => trivial⟩
  rw [wp_bind]
  refine (bindQuery_keeps _ _ _ _ _ st).mono (fun offset st₁ hkept => ?_) fun _ _ _ => trivial
  obtain ⟨hselected, hrevision⟩ := hkept
  -- from here on the selection is that of the request
  rw [wp_bind, wp_get, hselected, hrevision, wp_bind, wp_ofExcept]
  refine ⟨fun stop _ => ?_, fun _ _ => trivial⟩
  rw [wp_bind, wp_ofExcept]
  refine ⟨fun page _ => ?_, fun _ _ => trivial⟩
  rw [wp_bind]
  refine (nextPageCursor_keeps _ _ _ _ _ _ st₁).mono (fun next st₂ _ => ?_) fun _ _ _ => trivial
  rw [wp_bind, wp_ofExcept]
  refine ⟨fun selection hselection => ?_, fun _ _ => trivial⟩
  rw [wp_bind, wp_ofExcept]
  refine ⟨fun facets hfacets => ?_, fun _ _ => trivial⟩
  rw [wp_pure]
  exact ⟨rfl, rfl, rfl, ⟨_, rfl⟩, ⟨query, hquery, rfl, hselection⟩, hfacets⟩

theorem parseDecimalU64_lt {value : String} {n : Nat} (h : parseDecimalU64 value = .ok n) :
    n < 2 ^ 64 := by
  unfold parseDecimalU64 at h
  split at h
  · cases h
  · dsimp only at h
    split at h
    · next hlt =>
      cases h
      exact hlt
    · cases h

/-- A canonical query carries its revision as a decimal word. -/
theorem canonicalQuery_revision {env : ResultsEnv} {raw query : CandidateQuery}
    (h : canonicalQuery env raw = .ok query) :
    ∃ revision < 2 ^ 64, query.revision = toString revision := by
  simp only [canonicalQuery, bind_eq_ok, throw_bind, ite_throw_eq_ok, pure_eq_ok] at h
  obtain ⟨revision, hrevision, _, _, _, _, rfl⟩ := h
  exact ⟨revision, parseDecimalU64_lt hrevision, rfl⟩

theorem isOpaqueId_queryId (env : ResultsEnv) (fields : List Bytes) :
    Contract.isOpaqueId (deriveId env "query" fields) = true :=
  isOpaqueId_hex _ (by decide) (List.all_eq_true.mp
    (show "query".toList.all isIdCharacter = true by decide))

theorem isOpaqueId_cursor (env : ResultsEnv) (fields : List Bytes) :
    Contract.isOpaqueId (deriveId env "cursor" fields) = true :=
  isOpaqueId_hex _ (by decide) (List.all_eq_true.mp
    (show "cursor".toList.all isIdCharacter = true by decide))

/-- The cursors that a sound session has issued are opaque ids. -/
theorem SoundState.isOpaqueId {env : ResultsEnv} {results : ScanResults} {st : ResultsState}
    {key : PageKey} {sort : CandidateSort} {b : BoundCandidateQuery} {cursor : String}
    {offset : Nat}
    (hst : SoundState env results st) (hfits : Fits key sort st b)
    (hmem : (cursor, offset) ∈ b.cursors) : Contract.isOpaqueId cursor = true := by
  obtain ⟨_, sortBytes, _, hcursor⟩ := (hst.binding b hfits.active).cursors _ hmem
  dsimp only at hcursor
  rw [hcursor]
  exact isOpaqueId_cursor env _

/-- A page of a built session is valid for the contract. -/
theorem page_valid (laws : TextLaws env) (agree : TablesAgree env js) {results : ScanResults}
    (hbuilt : BuiltSession env results) {raw : CandidateQuery} {sort : CandidateSort}
    {cursor : Option String} {st st' : ResultsState} {page : CandidateQueryPageDto} {key : PageKey}
    {offset : Nat} (hst : SoundState env.toResultsEnv results st)
    (hst' : SoundState env.toResultsEnv results st')
    (hkey : KeyOf env.toResultsEnv results raw key)
    (hanswered : Answered env.toResultsEnv results raw cursor st page)
    (hshown : Shown env.toResultsEnv results key sort cursor st st' offset page) :
    Contract.ValidPage js page := by
  obtain ⟨query, hquery, hrevision, hselection⟩ := hanswered.query
  obtain rfl : key.query = query := ok.inj (hkey.query.symm.trans hquery)
  obtain ⟨revision, hlt, hdecimal⟩ := canonicalQuery_revision hquery
  obtain ⟨hfacetCount, hfacets, hdistinct⟩ := extensionFacets_valid laws agree hanswered.facets
  obtain ⟨hfew, hscanId⟩ := hbuilt.few
  obtain ⟨fields, hqueryId⟩ := hanswered.queryId
  obtain ⟨filtered, hfiltered⟩ : ∃ filtered, filtered =
    filteredCandidates env.toResultsEnv results key.query sort st.selected := ⟨_, rfl⟩
  have hrows := hshown.rows
  have htotal := hshown.total
  rw [← hfiltered] at hrows htotal
  -- the page is a stretch of the filtered rows
  have hpage : ((filtered.drop offset).take candidatePageLimit).Sublist filtered :=
    (List.take_sublist _ _).trans (List.drop_sublist _ _)
  have hmem : ∀ stored ∈ filtered, stored ∈ results.candidates := by
    intro stored hstored
    rw [hfiltered] at hstored
    exact ((mem_filteredCandidates _ _ _).mp hstored).1
  have hlength : filtered.length ≤ results.candidates.length := by
    rw [hfiltered, filteredCandidates, List.length_insertionSort]
    exact List.length_filter_le _ _
  have hbound : maxRetainedCandidatesPerScan < 2 ^ 64 := by decide
  refine {
    version := hanswered.version
    ids := ?_
    cursors := ⟨?_, ?_⟩
    decimals := ⟨?_, ?_⟩
    facetCount := hfacetCount
    facets := hfacets
    distinctFacets := hdistinct
    rowCount := ?_
    rows := ?_
    distinctRows := ?_
    selection := selectionSummary_valid hst.revision hselection
    shown := ?_
    matching := ?_ }
  · rw [hanswered.scanId, hqueryId]
    exact ⟨isOpaqueId_of_valid hscanId, isOpaqueId_queryId _ _⟩
  · rw [hanswered.cursor, Option.all_eq_true]
    intro c hc
    obtain ⟨b, hfits, hissued⟩ := hshown.resumed c hc
    exact hst.isOpaqueId hfits hissued
  · rw [Option.all_eq_true]
    intro c hc
    obtain ⟨_, b, hfits, hissued⟩ := hshown.next c hc
    exact hst'.isOpaqueId hfits (mem_of_lookup hissued)
  · rw [hrevision, hdecimal]
    exact validCandidateId_toString hlt
  · rw [htotal]
    exact validCandidateId_toString (by omega)
  · rw [hrows, List.length_map]
    exact List.length_take_le _ _
  · intro row hrow
    rw [hrows] at hrow
    obtain ⟨stored, hstored, rfl⟩ := List.mem_map.mp hrow
    exact hbuilt.validRow laws agree st.selected stored (hmem stored (hpage.subset hstored))
  -- rows are distinct as their decimal ids are
  · have hids : (filtered.map (·.candidate.id)).Nodup := by
      rw [hfiltered]
      exact filteredCandidates_distinct _ _ _
    have htexts := (hids.sublist (hpage.map _)).map fun _ _ heq => Decimal.toString_inj heq
    rw [List.map_map] at htexts
    rw [hrows, List.map_map]
    exact htexts
  · rw [htotal, bigInt_toString, hrows, List.length_map]
    exact hpage.length_le
  · rw [htotal, bigInt_toString, selectionSummary_eq_ok hselection]
    simp only [SelectionTotals.summary, bigInt_toString]
    rw [hfiltered]
    exact recount_matching _ _ _

/-! ## Updates -/

/-- An update of a built session is valid for the contract. -/
theorem update_valid {results : ScanResults} (hbuilt : BuiltSession env results) (queryId : String)
    (operation : SelectionOperationDto) (expectedRevision : Nat) {st : ResultsState}
    (hst : SoundState env.toResultsEnv results st) :
    (updateCandidateSelection env.toResultsEnv results queryId operation expectedRevision).Wp st
      (fun update _ => Contract.ValidUpdate update) (fun _ _ => True) := by
  unfold updateCandidateSelection
  rw [wp_bind, wp_get, wp_guard]
  refine ⟨fun _ => trivial, fun _ => ?_⟩
  rw [wp_bind, wp_ofExcept]
  refine ⟨fun binding hbinding => ?_, fun _ _ => trivial⟩
  rw [okOr_eq_ok, Option.filter_eq_some_iff, decide_eq_true_eq] at hbinding
  obtain ⟨hactive, hqueryId⟩ := hbinding
  rw [wp_bind, wp_ofExcept]
  refine ⟨fun nextRevision hnext => ?_, fun _ _ => trivial⟩
  rw [okOr_eq_ok, U64.checkedAdd_eq_some] at hnext
  obtain ⟨hbound, rfl⟩ := hnext
  rw [wp_bind, wp_ofExcept]
  refine ⟨fun proposed _ => ?_, fun _ _ => trivial⟩
  rw [wp_bind, wp_ofExcept]
  refine ⟨fun summary hsummary => ?_, fun _ _ => trivial⟩
  rw [wp_bind, wp_set, wp_pure]
  refine ⟨rfl, ⟨isOpaqueId_of_valid hbuilt.few.2, ?_⟩, ?_, selectionSummary_valid hbound hsummary⟩
  · -- the id of the active query was derived when the query was bound
    obtain ⟨bytes, _, hderived⟩ := (hst.binding binding hactive).queryId
    show Contract.isOpaqueId queryId = true
    rw [← hqueryId, hderived]
    exact isOpaqueId_queryId _ _
  · show summary.selectionRevision = _
    rw [selectionSummary_eq_ok hsummary]
    rfl

/-! ## Runs -/

/-- What the window makes of a reply: it reads back every page and every update unchanged. -/
def Accepted (js : TextEnv) : ResultsReply → Prop
  | .page (.ok page) => Contract.parseCandidateQueryPage js page.toJson = some page
  | .update (.ok update) => Contract.parseCandidateSelectionUpdate update.toJson = some update
  | _ => True

theorem serve_accepted (laws : TextLaws env) (agree : TablesAgree env js) {session : ScanSession}
    (hbuilt : BuiltSession env session.results)
    (hsound : SoundSession env.toResultsEnv session.results.scanId session)
    (request : ResultsRequest) : Accepted js (session.serve env.toResultsEnv request).1 := by
  cases request with
  | page query sort cursor =>
    have hpage := (queryCandidatePage_wp hsound.state query sort cursor).and
      (queryCandidatePage_answered env.toResultsEnv session.results query sort cursor session.state)
    simp only [ScanSession.serve]
    rcases hpage.cases with ⟨page, st, hst, ⟨hst', key, offset, hkey, hshown⟩, hanswered⟩ |
      ⟨e, st, hst, _⟩
    · rw [hst]
      exact Contract.parse_page
        (page_valid laws agree hbuilt hsound.state hst' hkey hanswered hshown)
    · rw [hst]
      exact trivial
  | update queryId operation revision =>
    have hupdate := update_valid hbuilt queryId operation revision hsound.state
    simp only [ScanSession.serve]
    rcases hupdate.cases with ⟨update, st, hst, hvalid⟩ | ⟨e, st, hst, _⟩
    · rw [hst]
      exact Contract.parse_update hvalid
    · rw [hst]
      exact trivial

theorem run_sound {env : ResultsEnv} {scanId : String} {session : ScanSession}
    (h : SoundSession env scanId session) (requests : List ResultsRequest) :
    SoundSession env scanId (session.run env requests) := by
  induction requests generalizing session with
  | nil => exact h
  | cons request requests ih => exact ih (serve_sound h request)

/-- In every run of a scan session the window accepts every answer, and reads what was written. -/
theorem replies_accepted (laws : TextLaws env) (agree : TablesAgree env js) {results : ScanResults}
    (hbuilt : BuiltSession env results) (requests : List ResultsRequest)
    (request : ResultsRequest) :
    Accepted js
      (((ScanSession.mk results {}).run env.toResultsEnv requests).serve env.toResultsEnv
        request).1 := by
  have hfresh : SoundSession env.toResultsEnv results.scanId ⟨results, {}⟩ :=
    ⟨rfl, Nat.two_pow_pos 64, fun b hb => (by cases hb)⟩
  have hrun := run_sound hfresh requests
  have hresults := run_results env.toResultsEnv ⟨results, {}⟩ requests
  refine serve_accepted laws agree ?_ ?_ request
  · rw [hresults]
    exact hbuilt
  · rw [hresults]
    exact hrun

/-! One file that is recovered whole, on the first page of its scan. -/

def report : Candidate where
  id := 7
  kind := .file
  method := .ntfsMetadata
  state := .likelyComplete
  name := "report.txt"
  nameCertain := true
  parentPath := ["docs"]
  metadataConfidence := .high
  size := 4
  timestamps := {}
  extents := [⟨0, some 4096, 4, .freeInSnapshot⟩]
  recordRef := 40
  sequence := some 2
  warnings := ["one fragment"]

def reportRow : CandidateRowDto :=
  ⟨"docs/report.txt", "file", "likelyComplete", "4", "high", some 84, "reconstructed",
    "ntfsMetadata", ["one fragment"]⟩

def reportIndex (id : Nat) : Option Nat := if id = 7 then some 0 else none

theorem reportIndex_isSome (id : Nat) : (reportIndex id).isSome = true ↔
    id ∈ [(⟨report, reportRow, none⟩ : StoredCandidate)].map (·.candidate.id) := by
  unfold reportIndex
  rw [List.map_singleton, List.mem_singleton]
  split
  · next h => exact ⟨fun _ => h, fun _ => rfl⟩
  · next h => exact ⟨fun hsome => absurd hsome Bool.false_ne_true, fun heq => absurd heq h⟩

theorem reportScanId_lt : ("s" : String).utf8ByteSize < 2 ^ 64 := by decide

theorem report_distinct :
    ([(⟨report, reportRow, none⟩ : StoredCandidate)].map (·.candidate.id)).Nodup :=
  List.nodup_singleton 7

def reportScan : ScanResults where
  scanId := "s"
  source := numberedScan.source
  candidates := [⟨report, reportRow, none⟩]
  candidateIndex := reportIndex
  distinct := report_distinct
  indexed := reportIndex_isSome
  scanId_lt := reportScanId_lt

/-- The tables on texts without upper case and without outer white space. -/
def reportEnv : RowEnv := { pagedEnv with trimEnd := id, order := .insertion }

theorem reportEnv_laws : TextLaws reportEnv :=
  ⟨fun _ => List.infix_rfl, fun _ => List.prefix_rfl, rfl, fun _ => rfl, fun _ => rfl,
    fun _ _ _ hc => hc⟩

theorem reportEnv_agrees : TablesAgree reportEnv ResultsWorkspace.plainText :=
  ⟨fun _ _ => rfl, fun _ _ => rfl⟩

/-- The paths of the rows of a page. -/
def pathsOf : ResultsReply → Option (List String)
  | .page (.ok page) => some (page.candidates.map (·.displayPath))
  | _ => none

theorem replies_accepted_report :
    ∃ page, ((ScanSession.mk reportScan {}).serve reportEnv.toResultsEnv
        (.page plainQuery bySize none)).1 = .page (.ok page) ∧
      page.candidates.map (·.displayPath) = ["docs/report.txt"] ∧
      Contract.parseCandidateQueryPage ResultsWorkspace.plainText page.toJson = some page := by
  have hbuilt : BuiltSession reportEnv reportScan := by
    refine ⟨⟨none, fun _ => none, [report], by decide +kernel⟩, ?_⟩
    intro stored hstored
    rw [List.mem_singleton.mp hstored]
    decide
  have haccepted := replies_accepted reportEnv_laws reportEnv_agrees hbuilt []
    (.page plainQuery bySize none)
  have hpaths : pathsOf ((ScanSession.mk reportScan {}).serve reportEnv.toResultsEnv
      (.page plainQuery bySize none)).1 = some ["docs/report.txt"] := by
    decide +kernel
  rw [show (ScanSession.mk reportScan {}).run reportEnv.toResultsEnv [] = ⟨reportScan, {}⟩ from rfl]
    at haccepted
  unfold pathsOf at hpaths
  split at hpaths
  · next page hreply =>
    rw [hreply] at haccepted
    exact ⟨page, hreply, Option.some.inj hpaths, haccepted⟩
  · cases hpaths

end Undelete.Desktop
