import Undelete.Spec.AnswersAccepted

/-!
# A cursor survives the updates of the selection

A query that does not look at the selection keeps its matches when the selection changes, and its
cursors keep their binding. So the request for the next page succeeds after any updates.

## Key results

- `updateCandidateSelection_ready`: one update.
- `queryCandidatePage_ready`: the request for the next page.
- `cursor_progress`: the two together, over every sequence of updates.
-/

namespace Undelete.Desktop

open EStateM Except

variable {env : ResultsEnv} {results : ScanResults} {key : PageKey} {sort : CandidateSort}
  {c : String} {stop : Nat} {st : ResultsState}

/-- The session can serve the page that starts at `stop` for the cursor `c`. -/
structure Ready (env : ResultsEnv) (results : ScanResults) (key : PageKey) (sort : CandidateSort)
    (c : String) (stop : Nat) (st : ResultsState) : Prop where
  bound : ∃ b, Fits key sort st b ∧ b.cursors.lookup c = some stop
  summarised : ∃ summary, selectionSummary env results.candidates st.selected
    st.selectionRevision (some key.query) = .ok summary

/-- An update leaves the session ready, whether it succeeds or not. -/
theorem updateCandidateSelection_ready (h : Ready env results key sort c stop st)
    (hquery : key.query.selectedOnly = false) (queryId : String)
    (operation : SelectionOperationDto) (revision : Nat) :
    (updateCandidateSelection env results queryId operation revision).Wp st
      (fun _ st' => Ready env results key sort c stop st')
      (fun _ st' => Ready env results key sort c stop st') := by
  obtain ⟨b, hfits, hlookup⟩ := h.bound
  unfold updateCandidateSelection
  rw [wp_bind, wp_get, wp_guard]
  refine ⟨fun _ => h, fun _ => ?_⟩
  rw [wp_bind, wp_ofExcept]
  refine ⟨fun binding hbinding => ?_, fun _ _ => h⟩
  rw [okOr_eq_ok, Option.filter_eq_some_iff] at hbinding
  obtain rfl : b = binding := Option.some.inj (hfits.active.symm.trans hbinding.1)
  rw [wp_bind, wp_ofExcept]
  refine ⟨fun nextRevision _ => ?_, fun _ _ => h⟩
  rw [wp_bind, wp_ofExcept]
  refine ⟨fun proposed _ => ?_, fun _ _ => h⟩
  rw [wp_bind, wp_ofExcept]
  refine ⟨fun summary hsummary => ?_, fun _ _ => h⟩
  rw [wp_bind, wp_set, wp_pure]
  -- the update counted the new selection for the query of the binding
  rw [hfits.query] at hsummary
  refine ⟨⟨b, ⟨hfits.active, hfits.queryId, hfits.fingerprint, hfits.query, hfits.sort,
    fun hselected => ?_⟩, hlookup⟩, summary, hsummary⟩
  rw [hquery] at hselected
  cases hselected

theorem run_ready (session : ScanSession)
    (h : Ready env session.results key sort c stop session.state)
    (hquery : key.query.selectedOnly = false)
    (updates : List (String × SelectionOperationDto × Nat)) :
    Ready env session.results key sort c stop
      (session.run env (updates.map fun u => .update u.1 u.2.1 u.2.2)).state := by
  induction updates generalizing session with
  | nil => exact h
  | cons u updates ih =>
    have hupdate := updateCandidateSelection_ready h hquery u.1 u.2.1 u.2.2
    have hready : Ready env session.results key sort c stop
        (session.serve env (.update u.1 u.2.1 u.2.2)).2.state := by
      simp only [ScanSession.serve]
      rcases hupdate.cases with ⟨dto, st, hst, hready⟩ | ⟨e, st, hst, hready⟩
      · rw [hst]
        exact hready
      · rw [hst]
        exact hready
    have hresults := @serve_results env session (.update u.1 u.2.1 u.2.2)
    rw [← hresults] at hready
    have hrun := ih _ hready
    rw [hresults] at hrun
    exact hrun

theorem length_filteredCandidates_le (query : CandidateQuery) (selected : Finset Nat) :
    (filteredCandidates env results query sort selected).length ≤ results.candidates.length := by
  rw [filteredCandidates, List.length_insertionSort]
  exact List.length_filter_le _ _

theorem filteredCandidates_congr {query : CandidateQuery} (hquery : query.selectedOnly = false)
    {selected selected' : Finset Nat} :
    filteredCandidates env results query sort selected =
      filteredCandidates env results query sort selected' := by
  unfold filteredCandidates
  congr 2
  funext stored
  exact candidateMatches_congr hquery _ _ stored

/-- Beside a binding, the cursor of the next page is issued. -/
theorem nextPageCursor_ready {b : BoundCandidateQuery} (hactive : st.activeQuery = some b)
    {sortBytes : Bytes} (hsort : env.sortToVec sort = some sortBytes) (total : Nat) :
    (nextPageCursor env key.queryId key.fingerprint key.query sort stop total).Wp st
      (fun _ _ => True) (fun _ _ => False) := by
  unfold nextPageCursor
  split
  · unfold issueCursor
    rw [map_eq_pure_bind, wp_bind, wp_bind, wp_ofExcept_of_ok (okOr_eq_ok.mpr hsort), wp_bind,
      wp_get, wp_bind, wp_ofExcept_of_ok (okOr_eq_ok.mpr hactive), wp_bind, wp_set, wp_pure,
      wp_pure]
    trivial
  · rw [wp_pure]
    trivial

/-- A ready session serves the request for the next page. -/
theorem queryCandidatePage_ready {raw : CandidateQuery} {sortBytes : Bytes}
    {facets : List ExtensionFacetDto} (h : Ready env results key sort c stop st)
    (hkey : KeyOf env results raw key) (hsort : env.sortToVec sort = some sortBytes)
    (hfacets : extensionFacets env results.candidates = .ok facets)
    (hstop : stop ≤ (filteredCandidates env results key.query sort st.selected).length)
    (hfew : results.candidates.length + candidatePageLimit < 2 ^ 64) :
    (queryCandidatePage env results raw sort (some c)).Wp st (fun _ _ => True)
      (fun _ _ => False) := by
  obtain ⟨b, hfits, hlookup⟩ := h.bound
  obtain ⟨summary, hsummary⟩ := h.summarised
  obtain ⟨queryBytes, hbytes, hid⟩ := hkey.queryId
  have hoffset : cursorOffset st key.queryId key.fingerprint key.query sort c = .ok stop := by
    simp only [cursorOffset, bind_eq_ok, okOr_eq_ok, Option.filter_eq_some_iff, decide_eq_true_eq]
    refine ⟨b, ⟨hfits.active, hfits.queryId, hfits.fingerprint, hfits.query, hfits.sort, ?_⟩,
      hlookup⟩
    cases hselected : key.query.selectedOnly with
    | false => exact .inl rfl
    | true => exact .inr (hfits.revision hselected)
  have hlength : (filteredCandidates env results key.query sort st.selected).length ≤
      results.candidates.length := length_filteredCandidates_le _ _
  unfold queryCandidatePage bindQuery
  rw [wp_bind, wp_ofExcept_of_ok hkey.query, wp_bind, wp_ofExcept_of_ok hkey.fingerprint, wp_bind,
    wp_ofExcept_of_ok (okOr_eq_ok.mpr hbytes), ← hid, wp_bind, wp_bind, wp_get,
    wp_ofExcept_of_ok hoffset, wp_bind, wp_get]
  generalize filteredCandidates env results key.query sort st.selected = filtered at hstop hlength ⊢
  have hend : (U64.checkedAdd stop candidatePageLimit).map (min · filtered.length) =
      some (min (stop + candidatePageLimit) filtered.length) := by
    rw [U64.checkedAdd_of_lt (by omega)]
    rfl
  have hslice : slice filtered stop (min (stop + candidatePageLimit) filtered.length) =
      some ((filtered.take (min (stop + candidatePageLimit) filtered.length)).drop stop) := by
    unfold slice
    rw [if_pos (by omega)]
  rw [wp_bind, wp_ofExcept_of_ok (okOr_eq_ok.mpr hend), wp_bind,
    wp_ofExcept_of_ok (okOr_eq_ok.mpr hslice), wp_bind]
  refine (nextPageCursor_ready hfits.active hsort _).mono (fun next st₁ _ => ?_) fun _ _ h => h
  rw [wp_bind, wp_ofExcept_of_ok hsummary, wp_bind, wp_ofExcept_of_ok hfacets, wp_pure]
  trivial

/-- A page of a query that does not look at the selection comes with a cursor that any number of
    updates leave valid: the request for the next page is served. -/
theorem cursor_progress {scanId : String} {session : ScanSession} {raw raw' query : CandidateQuery}
    {cursor : Option String} {page : CandidateQueryPageDto}
    (hsession : SoundSession env scanId session)
    (hfew : session.results.candidates.length + candidatePageLimit < 2 ^ 64)
    (hraw : canonicalQuery env raw = .ok query) (hraw' : canonicalQuery env raw' = .ok query)
    (hquery : query.selectedOnly = false)
    (hpage : (session.serve env (.page raw sort cursor)).1 = .page (.ok page))
    (hnext : page.nextCursor = some c) (updates : List (String × SelectionOperationDto × Nat)) :
    ∃ page', (((session.serve env (.page raw sort cursor)).2.run env
      (updates.map fun u => .update u.1 u.2.1 u.2.2)).serve env (.page raw' sort (some c))).1 =
        .page (.ok page') := by
  have hwp := ((queryCandidatePage_wp hsession.state raw sort cursor).and
    (queryCandidatePage_answered env session.results raw sort cursor session.state)).and
    (queryCandidatePage_keeps env session.results raw sort cursor session.state)
  simp only [ScanSession.serve] at hpage ⊢
  rcases hwp.cases with ⟨page₁, st, hst, ⟨⟨hsound, key, offset, hkey, hshown⟩, hanswered⟩, hkept⟩ |
    ⟨e, st, hst, _⟩
  · rw [hst] at hpage ⊢
    obtain rfl : page₁ = page := by simpa [mapResult] using hpage
    obtain rfl : key.query = query := ok.inj (hkey.query.symm.trans hraw)
    obtain ⟨hmore, b, hfits, hlookup⟩ := hshown.next c hnext
    obtain ⟨query', hquery', _, hsummary⟩ := hanswered.query
    obtain rfl : key.query = query' := ok.inj (hraw.symm.trans hquery')
    obtain ⟨hselected, hrevision⟩ := hkept
    rw [← hselected, ← hrevision] at hsummary
    have hready : Ready env session.results key sort c (offset + candidatePageLimit) st :=
      ⟨⟨b, hfits, hlookup⟩, _, hsummary⟩
    obtain ⟨hlt, sortBytes, hsort, _⟩ :=
      (hsound.binding b hfits.active).cursors _ (mem_of_lookup hlookup)
    rw [hfits.sort] at hsort
    -- the updates leave the matches, and the session, as they are
    have hready := run_ready { session with state := st } hready hquery updates
    have hresults := run_results env { session with state := st }
      (updates.map fun u => .update u.1 u.2.1 u.2.2)
    rw [show (mapResult (.ok page₁ st)).2 = st from rfl]
    generalize ScanSession.run env { session with state := st } _ = session' at hresults hready ⊢
    have hresults : session'.results = session.results := hresults
    have hkey' : KeyOf env session.results raw' key := ⟨hraw', hkey.fingerprint, hkey.queryId⟩
    have hwp' := queryCandidatePage_ready hready hkey' hsort hanswered.facets
      (by rw [filteredCandidates_congr hquery]; exact Nat.le_of_lt hmore) hfew
    rw [hresults]
    rcases hwp'.cases with ⟨page', st', hst', _⟩ | ⟨_, _, _, h⟩
    · rw [hst']
      exact ⟨page', rfl⟩
    · exact h.elim
  · rw [hst] at hpage
    simp [mapResult] at hpage

end Undelete.Desktop
