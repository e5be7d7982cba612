import Undelete.Spec.PageServed

/-!
# Following cursors

Pages and selection updates on all retained scans, in any order. As long as no two inputs that
were hashed collide, a cursor leads to the rest of the list its page was cut from, or nowhere:
following cursors from a first page to the end shows every match of the query once and in order
(`cursors_followed`), and a cursor is worthless under any other scan, query or sort.
-/

namespace Undelete.Desktop

open EStateM Except

variable {env : ResultsEnv}

/-! ## Traces -/

/-- What later requests find: the same results, and the same selection if its revision is. -/
structure Later (session session' : ScanSession) : Prop where
  results : session'.results = session.results
  revision : session.state.selectionRevision ≤ session'.state.selectionRevision
  selected : session.state.selectionRevision = session'.state.selectionRevision →
    session'.state.selected = session.state.selected

theorem Later.refl (session : ScanSession) : Later session session :=
  ⟨rfl, Nat.le_refl _, fun _ => rfl⟩

theorem Later.trans {s₁ s₂ s₃ : ScanSession} (h₁ : Later s₁ s₂) (h₂ : Later s₂ s₃) :
    Later s₁ s₃ where
  results := h₂.results.trans h₁.results
  revision := Nat.le_trans h₁.revision h₂.revision
  selected h := by
    have hle₁ := h₁.revision
    have hle₂ := h₂.revision
    rw [h₂.selected (by omega), h₁.selected (by omega)]

theorem serve_later (session : ScanSession) (request : ResultsRequest) :
    Later session (session.serve env request).2 := by
  cases request with
  | page query sort cursor =>
    obtain ⟨hselected, hrevision⟩ := serve_page env session query sort cursor
    exact ⟨rfl, Nat.le_of_eq hrevision.symm, fun _ => hselected⟩
  | update queryId operation revision =>
    rcases serve_update env session queryId operation revision with ⟨e, he⟩ |
      ⟨dto, st, hst, hupdated⟩
    · rw [he]
      exact Later.refl session
    · rw [hst]
      have hrevision := hupdated.revision
      exact ⟨rfl, by simp only; omega, fun h => by simp only at h; omega⟩

/-- What holds of every session between requests. -/
structure SoundSession (env : ResultsEnv) (scanId : String) (session : ScanSession) : Prop where
  scanId : session.results.scanId = scanId
  state : SoundState env session.results session.state

theorem serve_sound {scanId : String} {session : ScanSession}
    (h : SoundSession env scanId session) (request : ResultsRequest) :
    SoundSession env scanId (session.serve env request).2 := by
  refine ⟨by rw [serve_results]; exact h.scanId, ?_⟩
  cases request with
  | page query sort cursor =>
    have hpage := queryCandidatePage_wp h.state query sort cursor
    simp only [ScanSession.serve]
    rcases hpage.cases with ⟨page, st, hst, hsound, _⟩ | ⟨e, st, hst, hsound⟩
    · rw [hst]
      exact hsound
    · rw [hst]
      exact hsound
  | update queryId operation revision =>
    rcases serve_update env session queryId operation revision with ⟨e, he⟩ |
      ⟨dto, st, hst, hupdated⟩
    · rw [he]
      exact h.state
    · rw [hst]
      exact ⟨hupdated.bound, fun b hb => h.state.binding b (by rw [← hupdated.query]; exact hb)⟩

/-- Every served request worked on a sound session, and left a sound one. -/
structure ServedSoundly (env : ResultsEnv) (e : Served) : Prop where
  session : SoundSession env e.scanId e.session
  after : SoundSession env e.scanId e.after
  served : e.session.serve env e.request = (e.reply, e.after)

theorem serveAll_sound {scans : String → Option ScanSession}
    (h : ∀ id session, scans id = some session → SoundSession env id session)
    (requests : List (String × ResultsRequest)) :
    ∀ e ∈ serveAll env scans requests, ServedSoundly env e := by
  induction requests generalizing scans with
  | nil =>
    intro e he
    cases he
  | cons request requests ih =>
    obtain ⟨scanId, request⟩ := request
    simp only [serveAll]
    cases hsession : scans scanId with
    | none => exact ih h
    | some session =>
      intro e he
      have hsound := h scanId session hsession
      have hafter := serve_sound hsound request
      rcases List.mem_cons.mp he with rfl | he
      · exact ⟨hsound, hafter, rfl⟩
      · refine ih (fun id session' hid => ?_) e he
        split at hid
        · next heq =>
          cases hid
          rw [heq]
          exact hafter
        · exact h id session' hid

/-- Every served request found its session at a later state than it was stored in. -/
theorem serveAll_later {scans : String → Option ScanSession}
    (requests : List (String × ResultsRequest)) :
    ∀ e ∈ serveAll env scans requests, ∃ session, scans e.scanId = some session ∧
      Later session e.session := by
  induction requests generalizing scans with
  | nil =>
    intro e he
    cases he
  | cons request requests ih =>
    obtain ⟨scanId, request⟩ := request
    simp only [serveAll]
    cases hsession : scans scanId with
    | none => exact ih
    | some session =>
      intro e he
      rcases List.mem_cons.mp he with rfl | he
      · exact ⟨session, hsession, Later.refl session⟩
      · obtain ⟨session', hsession', hlater⟩ := ih e he
        split at hsession'
        · next heq =>
          cases hsession'
          exact ⟨session, by rw [heq]; exact hsession, (serve_later session request).trans hlater⟩
        · exact ⟨session', hsession', hlater⟩

/-- Of two requests on one scan, the one served later finds what the other left, or a later
    state of it. -/
theorem serveAll_pairwise (scans : String → Option ScanSession)
    (requests : List (String × ResultsRequest)) :
    (serveAll env scans requests).Pairwise fun e e' =>
      e'.scanId = e.scanId → Later e.after e'.session := by
  induction requests generalizing scans with
  | nil => exact List.Pairwise.nil
  | cons request requests ih =>
    obtain ⟨scanId, request⟩ := request
    simp only [serveAll]
    cases hsession : scans scanId with
    | none => exact ih scans
    | some session =>
      refine List.Pairwise.cons (fun e he hsame => ?_) (ih _)
      obtain ⟨session', hsession', hlater⟩ := serveAll_later requests e he
      rw [hsame, if_pos rfl] at hsession'
      cases hsession'
      exact hlater

theorem storedSessions_sound {retained : List ScanResults} {id : String} {session : ScanSession}
    (h : storedSessions retained id = some session) : SoundSession env id session := by
  obtain ⟨results, hfind, rfl⟩ := Option.map_eq_some_iff.mp h
  have hid := List.find?_some hfind
  exact ⟨by simpa using hid, show 0 < 2 ^ 64 by decide, fun b hb => by cases hb⟩

theorem trace_sound (env : ResultsEnv) (retained : List ScanResults)
    (requests : List (String × ResultsRequest)) :
    ∀ e ∈ serveAll env (storedSessions retained) requests, ServedSoundly env e :=
  serveAll_sound (fun _ _ h => storedSessions_sound h) requests

/-! ## Collisions -/

/-- The session inputs a request hashed: the source and the query of a page request, and the
    cursors that its session knows. -/
inductive InputOf (env : ResultsEnv) (e : Served) : Bytes → Prop
  | source {raw : CandidateQuery} {sort : CandidateSort} {cursor : Option String}
      (hrequest : e.request = .page raw sort cursor) :
      InputOf env e
        (deriveInput (sourceFields e.session.results.scanId e.session.results.source))
  | query {raw : CandidateQuery} {sort : CandidateSort} {cursor : Option String} {key : PageKey}
      {bytes : Bytes} (hrequest : e.request = .page raw sort cursor)
      (hkey : KeyOf env e.session.results raw key)
      (hbytes : env.queryToVec key.query = some bytes) :
      InputOf env e (deriveInput [Bytes.ofString key.fingerprint, bytes])
  | cursor {st : ResultsState} {b : BoundCandidateQuery} {sortBytes : Bytes} {x : String × Nat}
      (hst : st = e.session.state ∨ st = e.after.state) (hb : st.activeQuery = some b)
      (hsort : env.sortToVec b.sort = some sortBytes) (hx : x ∈ b.cursors) :
      InputOf env e (deriveInput (cursorInput b sortBytes x.2))

/-- No two inputs hashed in the trace have the same hash. -/
def CollisionFree (env : ResultsEnv) (trace : List Served) : Prop :=
  ∀ m m', (∃ e ∈ trace, InputOf env e m) → (∃ e ∈ trace, InputOf env e m') →
    env.sha256 m = env.sha256 m' → m = m'

/-- Equal cursor inputs of sound bindings agree in everything they are made of. -/
theorem cursorInput_inj {r r' : ScanResults} {b b' : BoundCandidateQuery}
    (hb : SoundBinding env r b) (hb' : SoundBinding env r' b') {s s' : Bytes} {n n' : Nat}
    (hs : env.sortToVec b.sort = some s) (hs' : env.sortToVec b'.sort = some s')
    (hn : n < 2 ^ 64) (hn' : n' < 2 ^ 64)
    (h : deriveInput (cursorInput b s n) = deriveInput (cursorInput b' s' n')) :
    b.sourceFingerprint = b'.sourceFingerprint ∧ b.queryId = b'.queryId ∧ s = s' ∧
      (b.query.selectedOnly = true → b'.query.selectedOnly = true →
        b.selectionRevision = b'.selectionRevision) ∧ n = n' := by
  obtain ⟨bytes, _, hid⟩ := hb.queryId
  obtain ⟨bytes', _, hid'⟩ := hb'.queryId
  have hword : ∀ k : Nat, (Bytes.ofLE 8 k).length < 2 ^ 64 := by
    intro k
    rw [Bytes.length_ofLE]
    decide
  simp only [cursorInput, cursorFields] at h
  obtain ⟨hfingerprint, h⟩ := deriveInput_cons_inj (by rw [hb.fingerprint]; exact length_sourceId _)
    (by rw [hb'.fingerprint]; exact length_sourceId _) h
  obtain ⟨hqueryId, h⟩ := deriveInput_cons_inj (by rw [hid]; exact length_queryId _)
    (by rw [hid']; exact length_queryId _) h
  obtain ⟨hsort, h⟩ := deriveInput_cons_inj (env.sortToVec_lt hs) (env.sortToVec_lt hs') h
  obtain ⟨hrevision, h⟩ := deriveInput_cons_inj (hword _) (hword _) h
  obtain ⟨hstop, _⟩ := deriveInput_cons_inj (hword _) (hword _) h
  refine ⟨Bytes.ofString_inj.mp hfingerprint, Bytes.ofString_inj.mp hqueryId, hsort,
    fun hselected hselected' => ?_, (Bytes.ofLE_inj hn hn').mp hstop⟩
  rw [hselected, hselected', if_pos rfl, if_pos rfl] at hrevision
  exact (Bytes.ofLE_inj hb.revision hb'.revision).mp hrevision

/-! ## Pages in a trace -/

/-- The request was a page of the query, and it was served. -/
structure PageServed (env : ResultsEnv) (e : Served) (scanId : String) (query : CandidateQuery)
    (sort : CandidateSort) (cursor : Option String) (page : CandidateQueryPageDto) : Prop where
  scanId : e.scanId = scanId
  request : ∃ raw, e.request = .page raw sort cursor ∧ canonicalQuery env raw = .ok query
  reply : e.reply = .page (.ok page)

theorem PageServed.shown {e : Served} {scanId : String} {query : CandidateQuery}
    {sort : CandidateSort} {cursor : Option String} {page : CandidateQueryPageDto}
    (h : PageServed env e scanId query sort cursor page) (hserved : ServedSoundly env e) :
    ∃ raw key offset, e.request = .page raw sort cursor ∧ key.query = query ∧
      KeyOf env e.session.results raw key ∧
      Shown env e.session.results key sort cursor e.session.state e.after.state offset page := by
  obtain ⟨raw, hrequest, hcanonical⟩ := h.request
  have hpage := queryCandidatePage_wp hserved.session.state raw sort cursor
  have hresult := hserved.served
  rw [hrequest, h.reply] at hresult
  simp only [ScanSession.serve] at hresult
  rcases hpage.cases with ⟨page', st, hst, _, key, offset, hkey, hshown⟩ | ⟨error, st, hst, _⟩
  · rw [hst] at hresult
    simp only [mapResult, Prod.mk.injEq, ResultsReply.page.injEq, ok.injEq] at hresult
    obtain ⟨rfl, hafter⟩ := hresult
    refine ⟨raw, key, offset, hrequest, ?_, hkey, ?_⟩
    · have := hkey.query
      rw [hcanonical] at this
      exact (ok.inj this).symm
    · rw [← hafter]
      exact hshown
  · rw [hst] at hresult
    simp [mapResult] at hresult

/-- A cursor that a page request got an offset for was issued under the same key and sort,
    and leads where the page it came with ended. -/
theorem cursor_resolves {trace : List Served} {e e' : Served} {key key' : PageKey}
    {sort sort' : CandidateSort} {b b' : BoundCandidateQuery} {c : String} {stop offset : Nat}
    (hfree : CollisionFree env trace) (he : e ∈ trace) (he' : e' ∈ trace)
    (hserved : ServedSoundly env e) (hserved' : ServedSoundly env e')
    (hissued : Fits key sort e.after.state b) (hstop : (c, stop) ∈ b.cursors)
    (hfound : Fits key' sort' e'.session.state b') (hoffset : (c, offset) ∈ b'.cursors) :
    key.fingerprint = key'.fingerprint ∧ key.queryId = key'.queryId ∧
      (∃ s, env.sortToVec sort = some s ∧ env.sortToVec sort' = some s) ∧
      (key.query.selectedOnly = true → key'.query.selectedOnly = true →
        e.after.state.selectionRevision = e'.session.state.selectionRevision) ∧ stop = offset := by
  have hb := hserved.after.state.binding b hissued.active
  have hb' := hserved'.session.state.binding b' hfound.active
  obtain ⟨hlt, s, hs, hcursor⟩ := hb.cursors (c, stop) hstop
  obtain ⟨hlt', s', hs', hcursor'⟩ := hb'.cursors (c, offset) hoffset
  simp only at hlt hlt' hcursor hcursor'
  -- equal cursor ids hash equal inputs, and no two inputs of the trace collide
  have hhash := sha256_eq_of_deriveId (hcursor.symm.trans hcursor')
  have hinput := hfree _ _ ⟨e, he, .cursor (.inr rfl) hissued.active hs hstop⟩
    ⟨e', he', .cursor (.inl rfl) hfound.active hs' hoffset⟩ hhash
  -- the input holds every field that binds the cursor
  obtain ⟨hfingerprint, hqueryId, rfl, hrevision, hsame⟩ :=
    cursorInput_inj hb hb' hs hs' hlt hlt' hinput
  refine ⟨?_, ?_, ⟨s, ?_, ?_⟩, fun hselected hselected' => ?_, hsame⟩
  · rw [← hissued.fingerprint, ← hfound.fingerprint, hfingerprint]
  · rw [← hissued.queryId, ← hfound.queryId, hqueryId]
  · rw [← hissued.sort]
    exact hs
  · rw [← hfound.sort]
    exact hs'
  · rw [← hissued.revision hselected, ← hfound.revision hselected']
    exact hrevision (by rw [hissued.query]; exact hselected)
      (by rw [hfound.query]; exact hselected')

/-! ## Following the cursors -/

/-- Pages of one query, each served for the cursor of the one before it, until no cursor is
    left. Other requests may have been served in between. -/
inductive Walk (env : ResultsEnv) (scanId : String) (query : CandidateQuery)
    (sort : CandidateSort) : Option String → List (Served × CandidateQueryPageDto) → Prop
  | last {cursor : Option String} {e : Served} {page : CandidateQueryPageDto}
      (hpage : PageServed env e scanId query sort cursor page) (hlast : page.nextCursor = none) :
      Walk env scanId query sort cursor [(e, page)]
  | next {cursor : Option String} {e : Served} {page : CandidateQueryPageDto} {c : String}
      {walk : List (Served × CandidateQueryPageDto)}
      (hpage : PageServed env e scanId query sort cursor page) (hnext : page.nextCursor = some c)
      (hwalk : Walk env scanId query sort (some c) walk) :
      Walk env scanId query sort cursor ((e, page) :: walk)

/-- The matches of the query in the session that served `e`. -/
def shownBy (env : ResultsEnv) (query : CandidateQuery) (sort : CandidateSort) (e : Served) :
    List StoredCandidate :=
  filteredCandidates env e.session.results query sort e.session.state.selected

theorem candidateMatches_congr {query : CandidateQuery} (hquery : query.selectedOnly = false)
    (selected selected' : Finset Nat) (stored : StoredCandidate) :
    candidateMatches env query selected stored = candidateMatches env query selected' stored := by
  simp only [candidateMatches, hquery, Bool.not_false, Bool.true_or]

/-- A page and the page its cursor was later used for are cut from the same list. -/
theorem shownBy_eq {e e' : Served} {query : CandidateQuery} {sort : CandidateSort}
    (hserved : ServedSoundly env e) {raw : CandidateQuery} {cursor : Option String}
    (hrequest : e.request = .page raw sort cursor) (hlater : Later e.after e'.session)
    (hrevision : query.selectedOnly = true →
      e.after.state.selectionRevision = e'.session.state.selectionRevision) :
    shownBy env query sort e' = shownBy env query sort e := by
  have hafter : e.after = (e.session.serve env e.request).2 := by rw [hserved.served]
  have hresults : e'.session.results = e.session.results := by
    rw [hlater.results, hafter, serve_results]
  have hmatches : ∀ stored, candidateMatches env query e'.session.state.selected stored =
      candidateMatches env query e.session.state.selected stored := by
    intro stored
    cases hquery : query.selectedOnly with
    | false => exact candidateMatches_congr hquery _ _ stored
    | true =>
      rw [hlater.selected (hrevision hquery), hafter, hrequest,
        (serve_page env _ raw sort cursor).1]
  simp only [shownBy, filteredCandidates, hresults]
  rw [show candidateMatches env query e'.session.state.selected =
    candidateMatches env query e.session.state.selected from funext hmatches]

/-- Following a walk from the offset of its first page shows the rest of one list. -/
theorem walk_shown {scanId : String} {query : CandidateQuery} {sort : CandidateSort}
    {cursor : Option String} {trace : List Served} {walk : List (Served × CandidateQueryPageDto)}
    (hwalk : Walk env scanId query sort cursor walk) (hfree : CollisionFree env trace)
    (htrace : ∀ e ∈ trace, ServedSoundly env e) (hmem : ∀ x ∈ walk, x.1 ∈ trace)
    (hlater : (walk.map Prod.fst).Pairwise fun e e' =>
      e'.scanId = e.scanId → Later e.after e'.session) :
    ∃ e page rest raw key offset, walk = (e, page) :: rest ∧
      PageServed env e scanId query sort cursor page ∧ key.query = query ∧
      KeyOf env e.session.results raw key ∧
      Shown env e.session.results key sort cursor e.session.state e.after.state offset page ∧
      (∀ x ∈ walk, shownBy env query sort x.1 = shownBy env query sort e ∧
        x.2.candidates.length ≤ candidatePageLimit ∧
        x.2.filteredTotal = toString (shownBy env query sort x.1).length) ∧
      walk.flatMap (fun x => x.2.candidates.map (·.id)) =
        ((shownBy env query sort e).drop offset).map (toString ·.candidate.id) := by
  induction hwalk with
  | @last cursor e page hpage hlast =>
    have hserved := htrace e (hmem (e, page) List.mem_cons_self)
    obtain ⟨raw, key, offset, _, hquery, hkey, hshown⟩ := hpage.shown hserved
    refine ⟨e, page, [], raw, key, offset, rfl, hpage, hquery, hkey, hshown, ?_, ?_⟩
    · intro x hx
      rw [List.mem_singleton.mp hx]
      subst hquery
      refine ⟨rfl, ?_, hshown.total⟩
      rw [hshown.rows, List.length_map]
      exact List.length_take_le _ _
    · have hend := hshown.last hlast
      subst hquery
      rw [List.flatMap_singleton, hshown.rows, List.map_map, List.take_of_length_le]
      · rfl
      · rw [List.length_drop]
        omega
  | @next cursor e page c walk hpage hnext hwalk ih =>
    obtain ⟨hhead, htail⟩ := List.pairwise_cons.mp hlater
    have he : e ∈ trace := hmem (e, page) List.mem_cons_self
    have hserved := htrace e he
    obtain ⟨raw, key, offset, hrequest, hquery, hkey, hshown⟩ := hpage.shown hserved
    obtain ⟨e', page', rest, raw', key', offset', rfl, hpage', hquery', hkey', hshown', hsame,
      hids⟩ :=
      ih (fun x hx => hmem x (List.mem_cons_of_mem _ hx)) htail
    have he' := hmem (e', page') (List.mem_cons_of_mem _ List.mem_cons_self)
    obtain ⟨hmore, b, hissued, hstop⟩ := hshown.next c hnext
    obtain ⟨b', hfound, hoffset⟩ := hshown'.resumed c rfl
    obtain ⟨_, _, _, hrevision, rfl⟩ := cursor_resolves hfree he he' hserved (htrace e' he') hissued
      (mem_of_lookup hstop) hfound hoffset
    -- the cursor resumes the list where the page ended
    have hlist : shownBy env query sort e' = shownBy env query sort e := by
      apply shownBy_eq hserved hrequest
      · exact hhead e' (by simp) (hpage'.scanId.trans hpage.scanId.symm)
      · intro hselected
        exact hrevision (by rw [hquery]; exact hselected) (by rw [hquery']; exact hselected)
    refine ⟨e, page, (e', page') :: rest, raw, key, offset, rfl, hpage, hquery, hkey,
      hshown, ?_, ?_⟩
    · intro x hx
      rcases List.mem_cons.mp hx with rfl | hx
      · subst hquery
        refine ⟨rfl, ?_, hshown.total⟩
        rw [hshown.rows, List.length_map]
        exact List.length_take_le _ _
      · obtain ⟨hx, hbound⟩ := hsame x hx
        exact ⟨hx.trans hlist, hbound⟩
    · rw [List.flatMap_cons, hids, hlist]
      subst hquery
      rw [hshown.rows, List.map_map]
      show ((shownBy env key.query sort e).drop offset |>.take candidatePageLimit).map
        (toString ·.candidate.id) ++ _ = _
      rw [← List.map_append, ← List.drop_drop, List.take_append_drop]

/-! ## Cursors that lead nowhere -/

theorem serveAll_results {retained : List ScanResults} {requests : List (String × ResultsRequest)}
    {e e' : Served} (he : e ∈ serveAll env (storedSessions retained) requests)
    (he' : e' ∈ serveAll env (storedSessions retained) requests) (h : e'.scanId = e.scanId) :
    e'.session.results = e.session.results := by
  obtain ⟨session, hsession, hlater⟩ := serveAll_later requests e he
  obtain ⟨session', hsession', hlater'⟩ := serveAll_later requests e' he'
  rw [h, hsession] at hsession'
  cases hsession'
  rw [hlater.results, hlater'.results]

/-- A page request that got a page for a cursor asked for the query and the sort the cursor was
    issued for, on the scan it was issued for. -/
theorem cursor_bound {trace : List Served} {e e' : Served} {scanId scanId' : String}
    {query query' : CandidateQuery} {sort sort' : CandidateSort} {cursor : Option String}
    {page page' : CandidateQueryPageDto} {c : String}
    (hquery : ∀ q q' bytes, env.queryToVec q = some bytes → env.queryToVec q' = some bytes → q = q')
    (hsort : ∀ s s' bytes, env.sortToVec s = some bytes → env.sortToVec s' = some bytes → s = s')
    (hfree : CollisionFree env trace) (he : e ∈ trace) (he' : e' ∈ trace)
    (hserved : ServedSoundly env e) (hserved' : ServedSoundly env e')
    (hpage : PageServed env e scanId query sort cursor page) (hnext : page.nextCursor = some c)
    (hpage' : PageServed env e' scanId' query' sort' (some c) page') :
    scanId' = scanId ∧ query' = query ∧ sort' = sort := by
  obtain ⟨raw, key, offset, hrequest, rfl, hkey, hshown⟩ := hpage.shown hserved
  obtain ⟨raw', key', offset', hrequest', rfl, hkey', hshown'⟩ := hpage'.shown hserved'
  obtain ⟨_, b, hissued, hstop⟩ := hshown.next c hnext
  obtain ⟨b', hfound, hoffset⟩ := hshown'.resumed c rfl
  obtain ⟨hfingerprint, hqueryId, ⟨s, hs, hs'⟩, _, _⟩ :=
    cursor_resolves hfree he he' hserved hserved' hissued (mem_of_lookup hstop) hfound hoffset
  refine ⟨?_, ?_, hsort _ _ s hs' hs⟩
  · -- equal source ids hash equal scan ids
    have hhash := sha256_eq_of_deriveId
      (hkey.fingerprint_eq.symm.trans (hfingerprint.trans hkey'.fingerprint_eq))
    have hinput := hfree _ _ ⟨e, he, .source hrequest⟩ ⟨e', he', .source hrequest'⟩ hhash
    have hlt : ∀ results : ScanResults, (Bytes.ofString results.scanId).length < 2 ^ 64 := by
      intro results
      rw [Bytes.length_ofString]
      exact results.scanId_lt
    obtain ⟨hid, _⟩ := deriveInput_cons_inj (hlt _) (hlt _) hinput
    rw [← hpage.scanId, ← hpage'.scanId, ← hserved.session.scanId, ← hserved'.session.scanId]
    exact (Bytes.ofString_inj.mp hid).symm
  · -- equal query ids hash equal queries
    obtain ⟨bytes, hbytes, hid⟩ := hkey.queryId
    obtain ⟨bytes', hbytes', hid'⟩ := hkey'.queryId
    have hhash := sha256_eq_of_deriveId (hid.symm.trans (hqueryId.trans hid'))
    have hinput := hfree _ _ ⟨e, he, .query hrequest hkey hbytes⟩
      ⟨e', he', .query hrequest' hkey' hbytes'⟩ hhash
    rw [hfingerprint] at hinput
    obtain ⟨_, hinput⟩ := deriveInput_cons_inj
      (by rw [hkey'.fingerprint_eq]; exact length_sourceId _)
      (by rw [hkey'.fingerprint_eq]; exact length_sourceId _) hinput
    obtain ⟨rfl, _⟩ := deriveInput_cons_inj (env.queryToVec_lt hbytes) (env.queryToVec_lt hbytes')
      hinput
    exact hquery _ _ bytes hbytes' hbytes

/-- A successful update moves the revision on. -/
theorem revision_updated {e : Served} {queryId : String} {operation : SelectionOperationDto}
    {revision : Nat} {dto : CandidateSelectionUpdateDto} (hserved : ServedSoundly env e)
    (hrequest : e.request = .update queryId operation revision)
    (hreply : e.reply = .update (.ok dto)) :
    e.session.state.selectionRevision < e.after.state.selectionRevision := by
  have hresult := hserved.served
  rw [hrequest, hreply] at hresult
  rcases serve_update env e.session queryId operation revision with ⟨error, he⟩ |
    ⟨_, st, hst, hupdated⟩
  · rw [he] at hresult
    simp at hresult
  · rw [hst] at hresult
    rw [← (Prod.mk.inj hresult).2]
    simp only
    have := hupdated.revision
    omega

/-- A cursor of a query on the selection is stale once the selection was updated. -/
theorem cursor_stale {retained : List ScanResults} {requests : List (String × ResultsRequest)}
    {scanId queryId : String} {query raw : CandidateQuery} {sort : CandidateSort}
    {cursor : Option String} {page : CandidateQueryPageDto} {c : String} {e u e' : Served}
    {operation : SelectionOperationDto} {revision : Nat} {dto : CandidateSelectionUpdateDto}
    (hfree : CollisionFree env (serveAll env (storedSessions retained) requests))
    (hsub : List.Sublist [e, u, e'] (serveAll env (storedSessions retained) requests))
    (hpage : PageServed env e scanId query sort cursor page) (hnext : page.nextCursor = some c)
    (hselected : query.selectedOnly = true) (hscan : u.scanId = scanId)
    (hupdate : u.request = .update queryId operation revision)
    (hreply : u.reply = .update (.ok dto))
    (hscan' : e'.scanId = scanId) (hrequest' : e'.request = .page raw sort (some c))
    (hraw : canonicalQuery env raw = .ok query) :
    e'.reply = .page (.error (mapResultError .staleCursor)) := by
  have hsound := trace_sound env retained requests
  have hmem := hsub.subset
  have he := hmem (show e ∈ [e, u, e'] by simp)
  have hu := hmem (show u ∈ [e, u, e'] by simp)
  have he' := hmem (show e' ∈ [e, u, e'] by simp)
  have hpairs := (serveAll_pairwise (storedSessions retained) requests).sublist hsub
  obtain ⟨raw₀, key, offset, hrequest, rfl, hkey, hshown⟩ := hpage.shown (hsound e he)
  obtain ⟨_, b, hissued, hstop⟩ := hshown.next c hnext
  have hresults : e'.session.results = e.session.results :=
    serveAll_results he he' (hscan'.trans hpage.scanId.symm)
  have hkey' : KeyOf env e'.session.results raw key := by
    rw [hresults]
    exact ⟨hraw, hkey.fingerprint, hkey.queryId⟩
  -- the revision at the second request is past the one the cursor was issued for
  have hrevision : e.after.state.selectionRevision < e'.session.state.selectionRevision := by
    simp only [List.pairwise_cons, List.mem_cons, List.not_mem_nil, or_false, forall_eq_or_imp,
      forall_eq] at hpairs
    have hbefore := (hpairs.1.1 (hscan.trans hpage.scanId.symm)).revision
    have hafter := (hpairs.2.1 (hscan'.trans hscan.symm)).revision
    have hmoved := revision_updated (hsound u hu) hupdate hreply
    omega
  have hstale : queryCandidatePage env e'.session.results raw sort (some c) e'.session.state =
      .error .staleCursor e'.session.state := by
    apply queryCandidatePage_stale hkey'
    intro hfits
    obtain ⟨b', offset', hfits, hoffset⟩ := hfits
    obtain ⟨_, _, _, hsame, _⟩ := cursor_resolves hfree he he' (hsound e he) (hsound e' he') hissued
      (mem_of_lookup hstop) hfits hoffset
    have := hsame hselected hselected
    omega
  have hresult := (hsound e' he').served
  rw [hrequest'] at hresult
  simp only [ScanSession.serve, hstale, mapResult] at hresult
  exact (Prod.mk.inj hresult).1.symm

/-! ## The whole trace -/

/-- What the pages of a walk show: `shown`, once and in order, in pages of bounded length. -/
structure ShowsAll (env : ResultsEnv) (query : CandidateQuery) (sort : CandidateSort)
    (walk : List (Served × CandidateQueryPageDto)) (shown : List StoredCandidate) : Prop where
  rows : walk.flatMap (fun x => x.2.candidates.map (·.id)) = shown.map (toString ·.candidate.id)
  ordered : shown.Pairwise (SortsBefore env sort)
  distinct : (shown.map (·.candidate.id)).Nodup
  bounded : ∀ x ∈ walk, x.2.candidates.length ≤ 100
  total : ∀ x ∈ walk, x.2.filteredTotal = toString shown.length
  matching : ∀ x ∈ walk, ∀ stored, stored ∈ shown ↔ stored ∈ x.1.session.results.candidates ∧
    candidateMatches env query x.1.session.state.selected stored = true

theorem walk_showsAll {retained : List ScanResults} {requests : List (String × ResultsRequest)}
    {scanId : String} {query : CandidateQuery} {sort : CandidateSort}
    {walk : List (Served × CandidateQueryPageDto)}
    (hfree : CollisionFree env (serveAll env (storedSessions retained) requests))
    (hsub : List.Sublist (walk.map Prod.fst) (serveAll env (storedSessions retained) requests))
    (hwalk : Walk env scanId query sort none walk) :
    ∃ shown, ShowsAll env query sort walk shown := by
  have hsound := trace_sound env retained requests
  have hpairs := (serveAll_pairwise (storedSessions retained) requests).sublist hsub
  obtain ⟨e, page, rest, raw, key, offset, _, hpage, rfl, hkey, hshown, hsame, hrows⟩ :=
    walk_shown hwalk hfree hsound
      (fun x hx => hsub.subset (List.mem_map_of_mem hx)) hpairs
  rw [hshown.start rfl, List.drop_zero] at hrows
  refine ⟨shownBy env key.query sort e, hrows, filteredCandidates_sorted _ _ _,
    filteredCandidates_distinct _ _ _, fun x hx => (hsame x hx).2.1, fun x hx => ?_,
    fun x hx stored => ?_⟩
  · obtain ⟨hlist, _, htotal⟩ := hsame x hx
    rw [htotal, hlist]
  · rw [← (hsame x hx).1]
    exact mem_filteredCandidates _ _ _

/-- In every trace of page requests and updates: a walk along the cursors shows every match once,
    in order; a cursor of a query on the selection is stale after an update; and no cursor serves
    another scan, source, query or sort. -/
theorem cursors_followed (env : ResultsEnv) (retained : List ScanResults)
    (requests : List (String × ResultsRequest))
    (hquery : ∀ q q' bytes, env.queryToVec q = some bytes → env.queryToVec q' = some bytes → q = q')
    (hsort : ∀ s s' bytes, env.sortToVec s = some bytes → env.sortToVec s' = some bytes → s = s')
    (hfree : CollisionFree env (serveAll env (storedSessions retained) requests)) :
    (∀ scanId query sort walk, Walk env scanId query sort none walk →
      List.Sublist (walk.map Prod.fst) (serveAll env (storedSessions retained) requests) →
      ∃ shown, ShowsAll env query sort walk shown) ∧
    (∀ scanId query sort cursor page c e u e' queryId operation revision dto raw,
      List.Sublist [e, u, e'] (serveAll env (storedSessions retained) requests) →
      PageServed env e scanId query sort cursor page → page.nextCursor = some c →
      query.selectedOnly = true →
      u.scanId = scanId → u.request = .update queryId operation revision →
      u.reply = .update (.ok dto) →
      e'.scanId = scanId → e'.request = .page raw sort (some c) →
      canonicalQuery env raw = .ok query →
      e'.reply = .page (.error (mapResultError .staleCursor))) ∧
    ∀ scanId query sort cursor page c, ∀ e ∈ serveAll env (storedSessions retained) requests,
      PageServed env e scanId query sort cursor page → page.nextCursor = some c →
      ∀ raw sort', ∀ e' ∈ serveAll env (storedSessions retained) requests,
        e'.request = .page raw sort' (some c) →
        e'.scanId ≠ scanId ∨ e'.session.results.source ≠ e.session.results.source ∨
          canonicalQuery env raw ≠ .ok query ∨ sort' ≠ sort →
        ∃ error, e'.reply = .page (.error error) := by
  -- the first two parts are `walk_showsAll` and `cursor_stale`
  refine ⟨fun _ _ _ _ hwalk hsub => walk_showsAll hfree hsub hwalk, ?_, ?_⟩
  · intro scanId query sort cursor page c e u e' queryId operation revision dto raw hsub hpage hnext
      hselected hscan hupdate hreply hscan' hrequest' hraw
    exact cursor_stale hfree hsub hpage hnext hselected hscan hupdate hreply hscan' hrequest' hraw
  · intro scanId query sort cursor page c e he hpage hnext raw sort' e' he' hrequest' hother
    have hsound := trace_sound env retained requests
    have hresult := (hsound e' he').served
    rw [hrequest'] at hresult
    simp only [ScanSession.serve] at hresult
    have hreply := (Prod.mk.inj hresult).1
    -- had the foreign request been answered, its query would be the bound one
    rcases (queryCandidatePage_wp (hsound e' he').session.state raw sort' (some c)).cases with
      ⟨page', st, hst, _, key, _, hkey, _⟩ | ⟨error, st, hst, _⟩
    · rw [hst] at hreply
      have hpage' : PageServed env e' e'.scanId key.query sort' (some c) page' :=
        ⟨rfl, ⟨raw, hrequest', hkey.query⟩, hreply.symm⟩
      obtain ⟨hscan, hkeyQuery, rfl⟩ := cursor_bound hquery hsort hfree he he' (hsound e he)
        (hsound e' he') hpage hnext hpage'
      have hresults := serveAll_results he he' (hscan.trans hpage.scanId.symm)
      rcases hother with hne | hne | hne | hne
      · exact absurd hscan hne
      · exact absurd (by rw [hresults]) hne
      · exact absurd (hkey.query.trans (by rw [hkeyQuery])) hne
      · exact absurd rfl hne
    · rw [hst] at hreply
      exact ⟨_, hreply.symm⟩

/-! A scan of 101 candidates, so that a second page is needed. -/

def plainQuery : CandidateQuery where
  revision := "1"
  search := ""
  extensions := []
  kinds := []
  metadataConfidences := []
  methods := []
  states := []
  minRecoverabilityScore := none
  maxRecoverabilityScore := none
  eligibilities := []
  selectedOnly := false

def bySize : CandidateSort := ⟨.size, .ascending⟩

def plainJson : Bytes := Bytes.ofString (
  "\x7b\"revision\":\"1\",\"search\":\"\",\"extensions\":[],\"kinds\":[]," ++
  "\"metadataConfidences\":[],\"methods\":[],\"states\":[],\"minRecoverabilityScore\":null," ++
  "\"maxRecoverabilityScore\":null,\"eligibilities\":[],\"selectedOnly\":false\x7d")

def bySizeJson : Bytes := Bytes.ofString "\x7b\"field\":\"size\",\"direction\":\"ascending\"\x7d"

/-- The hashes and the JSON texts of the requests below. -/
def pagedEnv : ResultsEnv where
  toLowercase := id
  trim := id
  sha256 bytes :=
    match bytes.length with
    | 90 => #v[
      0x00, 0x12, 0x3c, 0xcc, 0x6e, 0xf3, 0x70, 0x6b, 0x36, 0x3e, 0xd9, 0xc2,
      0x64, 0x43, 0x0c, 0x60, 0xe0, 0xf1, 0xde, 0xe6, 0x50, 0x5d, 0x52, 0xd3,
      0xe1, 0xf2, 0x30, 0xfb, 0x59, 0x70, 0xed, 0x82]
    | 327 => #v[
      0x00, 0x7f, 0x0e, 0xb5, 0xe6, 0x40, 0x55, 0x81, 0x70, 0x60, 0x29, 0x40,
      0x13, 0x0c, 0x5f, 0x19, 0x2a, 0x0a, 0x61, 0xdb, 0x05, 0xec, 0xa3, 0xb7,
      0xcf, 0x8e, 0x12, 0x0f, 0x96, 0x25, 0xca, 0x5c]
    | 272 => #v[
      0xf6, 0x68, 0xab, 0x7f, 0x8e, 0xbd, 0x8d, 0x2b, 0xab, 0x07, 0x6c, 0x9c,
      0xf2, 0x67, 0x26, 0x8b, 0x96, 0x30, 0x61, 0xc5, 0x68, 0x1b, 0x39, 0xbc,
      0x2b, 0x9f, 0xf7, 0x4f, 0xbc, 0xfe, 0x26, 0x36]
    | _ => Vector.replicate 32 0
  queryToVec query := if query = plainQuery then some plainJson else none
  sortToVec sort := if sort = bySize then some bySizeJson else none
  queryToVec_lt := by
    intro query bytes h
    split at h
    · cases h
      decide +kernel
    · cases h
  sortToVec_lt := by
    intro sort bytes h
    split at h
    · cases h
      decide +kernel
    · cases h

def numbered (id : Nat) : StoredCandidate where
  candidate := {
    id
    kind := .directory
    method := .ntfsMetadata
    state := .metadataOnly
    name := ""
    nameCertain := true
    parentPath := []
    metadataConfidence := .high
    size := 0
    timestamps := {}
    extents := []
    recordRef := id
    sequence := none
    warnings := [] }
  row := ⟨"", "", "", "0", "", none, "", "", []⟩
  expectedSha256 := none

def numberedScan : ScanResults where
  scanId := "s"
  source := ⟨"g", "v", 512, "ntfs", 0⟩
  candidates := (List.range 101).map numbered
  candidateIndex id := if id < 101 then some id else none
  distinct := by
    rw [List.map_map]
    exact (List.map_id (List.range 101)).symm ▸ List.nodup_range
  indexed := by
    intro id
    simp [numbered, Option.isSome_iff_exists]
  scanId_lt := by decide

def nextOf : ResultsReply → Option (Option String)
  | .page (.ok page) => some page.nextCursor
  | _ => none

/-- What the requests below hash: the source, the query and the cursor of the second page. -/
def sourceInput : Bytes := deriveInput (sourceFields "s" numberedScan.source)
def plainFingerprint : String := deriveId pagedEnv "source" (sourceFields "s" numberedScan.source)
def plainId : String := deriveId pagedEnv "query" [Bytes.ofString plainFingerprint, plainJson]
def secondFields : List Bytes := cursorFields plainFingerprint plainId bySizeJson false 0 100
def secondCursor : String := deriveId pagedEnv "cursor" secondFields

def pagedBinding : BoundCandidateQuery where
  queryId := plainId
  sourceFingerprint := plainFingerprint
  query := plainQuery
  sort := bySize
  selectionRevision := 0
  cursors := [(secondCursor, 100)]

/-- Two pages, and an update of the selection between them. -/
def pagedRequests : List (String × ResultsRequest) :=
  [("s", .page plainQuery bySize none), ("s", .update plainId .selectAllMatching 0),
    ("s", .page plainQuery bySize (some secondCursor))]

def paged : List Served := serveAll pagedEnv (storedSessions [numberedScan]) pagedRequests

theorem paged_served :
    paged.map (fun e => (e.scanId, e.request, nextOf e.reply)) =
      [("s", .page plainQuery bySize none, some (some secondCursor)),
        ("s", .update plainId .selectAllMatching 0, none),
        ("s", .page plainQuery bySize (some secondCursor), some none)] ∧
    ∀ e ∈ paged, e.session.results.scanId = "s" ∧
      e.session.results.source = numberedScan.source ∧
      (e.session.state.activeQuery = none ∨ e.session.state.activeQuery = some pagedBinding) ∧
      e.after.state.activeQuery = some pagedBinding := by
  decide +kernel

theorem canonical_plain : canonicalQuery pagedEnv plainQuery = .ok plainQuery := by
  decide +kernel

theorem paged_input {e : Served} (he : e ∈ paged) {m : Bytes} (h : InputOf pagedEnv e m) :
    m = sourceInput ∨ m = deriveInput [Bytes.ofString plainFingerprint, plainJson] ∨
      m = deriveInput secondFields := by
  obtain ⟨hscan, hsource, hbefore, hafter⟩ := paged_served.2 e he
  -- both requests of the run carry the same query
  have hraw : ∀ raw sort cursor, e.request = .page raw sort cursor → raw = plainQuery := by
    have hmem := List.mem_map_of_mem (f := fun e : Served =>
      (e.scanId, e.request, nextOf e.reply)) he
    rw [paged_served.1] at hmem
    intro raw sort cursor hrequest
    simp [hrequest] at hmem
    rcases hmem with h | h
    · exact h.2.1.1
    · exact h.2.1.1
  cases h with
  | source hrequest =>
    rw [hscan, hsource]
    exact .inl rfl
  | @query raw sort cursor key bytes hrequest hkey hbytes =>
    have hquery := hkey.query
    rw [hraw raw sort cursor hrequest, canonical_plain] at hquery
    cases key
    cases hquery
    cases hbytes
    have hfingerprint := hkey.fingerprint_eq
    simp only [hscan, hsource] at hfingerprint
    rw [hfingerprint]
    exact .inr (.inl rfl)
  | @cursor st b sortBytes x hst hb hsort hx =>
    -- the only binding of the run is the one the first page made
    have hactive : b = pagedBinding := by
      rcases hst with rfl | rfl
      · rcases hbefore with h | h
        · rw [h] at hb
          cases hb
        · rw [h] at hb
          exact (Option.some.inj hb).symm
      · rw [hafter] at hb
        exact (Option.some.inj hb).symm
    subst hactive
    cases hsort
    rw [List.mem_singleton.mp hx]
    exact .inr (.inr rfl)

theorem paged_collisionFree : CollisionFree pagedEnv paged := by
  obtain ⟨hquery, hcursor, hboth⟩ : pagedEnv.sha256 sourceInput ≠
        pagedEnv.sha256 (deriveInput [Bytes.ofString plainFingerprint, plainJson]) ∧
      pagedEnv.sha256 sourceInput ≠ pagedEnv.sha256 (deriveInput secondFields) ∧
      pagedEnv.sha256 (deriveInput [Bytes.ofString plainFingerprint, plainJson]) ≠
        pagedEnv.sha256 (deriveInput secondFields) := by
    decide +kernel
  intro m m' hm hm' hhash
  obtain ⟨e, he, hm⟩ := hm
  obtain ⟨e', he', hm'⟩ := hm'
  rcases paged_input he hm with rfl | rfl | rfl
  · rcases paged_input he' hm' with rfl | rfl | rfl
    · rfl
    · exact absurd hhash hquery
    · exact absurd hhash hcursor
  · rcases paged_input he' hm' with rfl | rfl | rfl
    · exact absurd hhash.symm hquery
    · rfl
    · exact absurd hhash hboth
  · rcases paged_input he' hm' with rfl | rfl | rfl
    · exact absurd hhash.symm hcursor
    · exact absurd hhash.symm hboth
    · rfl

theorem cursors_followed_two_pages :
    ∃ walk shown, walk.length = 2 ∧ ShowsAll pagedEnv plainQuery bySize walk shown := by
  have hquery : ∀ q q' bytes, pagedEnv.queryToVec q = some bytes →
      pagedEnv.queryToVec q' = some bytes → q = q' := by
    intro q q' bytes h h'
    simp only [pagedEnv] at h h'
    split at h <;> split at h' <;> simp_all
  have hsort : ∀ s s' bytes, pagedEnv.sortToVec s = some bytes →
      pagedEnv.sortToVec s' = some bytes → s = s' := by
    intro s s' bytes h h'
    simp only [pagedEnv] at h h'
    split at h <;> split at h' <;> simp_all
  have htrace := paged_served.1
  obtain ⟨followed, _, _⟩ := cursors_followed pagedEnv [numberedScan] pagedRequests hquery hsort
    paged_collisionFree
  change ∀ scanId query sort walk, Walk pagedEnv scanId query sort none walk →
    List.Sublist (walk.map Prod.fst) paged → _ at followed
  -- the trace has two entries, both pages
  rcases hpaged : paged with _ | ⟨e, _ | ⟨u, _ | ⟨e', _ | ⟨_, _⟩⟩⟩⟩ <;> simp [hpaged] at htrace
  obtain ⟨⟨hscan, hrequest, hnext⟩, _, hscan', hrequest', hnext'⟩ := htrace
  have hpage : ∀ e : Served, ∀ next, nextOf e.reply = some next →
      ∃ page, e.reply = .page (.ok page) ∧ page.nextCursor = next := by
    intro e next h
    unfold nextOf at h
    split at h
    · next page hreply => exact ⟨page, hreply, Option.some.inj h⟩
    · cases h
  obtain ⟨page, hreply, hpage₁⟩ := hpage e _ hnext
  obtain ⟨page', hreply', hpage₂⟩ := hpage e' _ hnext'
  obtain ⟨shown, hshown⟩ := followed "s" plainQuery bySize [(e, page), (e', page')]
    (.next ⟨hscan, ⟨plainQuery, hrequest, canonical_plain⟩, hreply⟩ hpage₁
      (.last ⟨hscan', ⟨plainQuery, hrequest', canonical_plain⟩, hreply'⟩ hpage₂))
    (by rw [hpaged]; simp)
  exact ⟨_, shown, rfl, hshown⟩

end Undelete.Desktop
