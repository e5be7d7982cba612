import Undelete.Spec.DerivedIds
import Undelete.Spec.PageOrder
import Undelete.Spec.SelectionCorrect

/-!
# One page of results

What a session knows about the cursors it has issued (`SoundState`), and what a served page
shows (`Shown`): the part of the sorted matches that starts where its cursor points to, and a
cursor for the rest.
-/

namespace Undelete.Desktop

open EStateM Except

variable {env : ResultsEnv} {results : ScanResults}

/-! ## Bindings and their cursors -/

/-- What a page request computes before it looks at the session. -/
structure PageKey where
  query : CandidateQuery
  fingerprint : String
  queryId : String

/-- The key of the query `raw` on the given results. -/
structure KeyOf (env : ResultsEnv) (results : ScanResults) (raw : CandidateQuery)
    (key : PageKey) : Prop where
  query : canonicalQuery env raw = .ok key.query
  fingerprint : sourceFingerprint env results.scanId results.source = .ok key.fingerprint
  queryId : ∃ bytes, env.queryToVec key.query = some bytes ∧
    key.queryId = deriveId env "query" [Bytes.ofString key.fingerprint, bytes]

/-- What the cursor of a binding is derived from. -/
def cursorInput (binding : BoundCandidateQuery) (sortBytes : Bytes) (stop : Nat) : List Bytes :=
  cursorFields binding.sourceFingerprint binding.queryId sortBytes binding.query.selectedOnly
    binding.selectionRevision stop

/-- The binding issued `cursor` for the page that starts at `stop`. -/
def CursorOf (env : ResultsEnv) (binding : BoundCandidateQuery) (cursor : String) (stop : Nat) :
    Prop :=
  stop < 2 ^ 64 ∧ ∃ sortBytes, env.sortToVec binding.sort = some sortBytes ∧
    cursor = deriveId env "cursor" (cursorInput binding sortBytes stop)

structure SoundBinding (env : ResultsEnv) (results : ScanResults)
    (binding : BoundCandidateQuery) : Prop where
  fingerprint : binding.sourceFingerprint =
    deriveId env "source" (sourceFields results.scanId results.source)
  queryId : ∃ bytes, env.queryToVec binding.query = some bytes ∧
    binding.queryId = deriveId env "query" [Bytes.ofString binding.sourceFingerprint, bytes]
  revision : binding.selectionRevision < 2 ^ 64
  cursors : ∀ x ∈ binding.cursors, CursorOf env binding x.1 x.2

structure SoundState (env : ResultsEnv) (results : ScanResults) (st : ResultsState) : Prop where
  revision : st.selectionRevision < 2 ^ 64
  binding : ∀ b, st.activeQuery = some b → SoundBinding env results b

/-- The binding is the one a request with the given key and sort works on. -/
structure Fits (key : PageKey) (sort : CandidateSort) (st : ResultsState)
    (binding : BoundCandidateQuery) : Prop where
  active : st.activeQuery = some binding
  queryId : binding.queryId = key.queryId
  fingerprint : binding.sourceFingerprint = key.fingerprint
  query : binding.query = key.query
  sort : binding.sort = sort
  revision : key.query.selectedOnly = true → binding.selectionRevision = st.selectionRevision

theorem KeyOf.fingerprint_eq {raw : CandidateQuery} {key : PageKey}
    (h : KeyOf env results raw key) :
    key.fingerprint = deriveId env "source" (sourceFields results.scanId results.source) := by
  have hfingerprint := h.fingerprint
  unfold sourceFingerprint at hfingerprint
  split at hfingerprint
  · cases hfingerprint
  · exact (ok.inj hfingerprint).symm

theorem mem_of_lookup {cursors : List (String × Nat)} {cursor : String} {offset : Nat}
    (h : cursors.lookup cursor = some offset) : (cursor, offset) ∈ cursors := by
  obtain ⟨before, after, rfl, _⟩ := List.lookup_eq_some_iff.mp h
  exact List.mem_append_right before List.mem_cons_self

theorem cursorOffset_eq_ok {st : ResultsState} {key : PageKey} {sort : CandidateSort}
    {cursor : String} {offset : Nat}
    (h : cursorOffset st key.queryId key.fingerprint key.query sort cursor = .ok offset) :
    ∃ b, Fits key sort st b ∧ (cursor, offset) ∈ b.cursors := by
  simp only [cursorOffset, bind_eq_ok, okOr_eq_ok, Option.filter_eq_some_iff,
    decide_eq_true_eq] at h
  obtain ⟨b, ⟨hactive, hid, hfingerprint, hquery, hsort, hrevision⟩, hlookup⟩ := h
  refine ⟨b, ⟨hactive, hid, hfingerprint, hquery, hsort, fun hselected => ?_⟩,
    mem_of_lookup hlookup⟩
  rcases hrevision with hfalse | hrevision
  · rw [hselected] at hfalse
    cases hfalse
  · exact hrevision

/-- A cursor lookup fails in one way only. -/
theorem cursorOffset_eq_error {st : ResultsState} {queryId fingerprint : String}
    {query : CandidateQuery} {sort : CandidateSort} {cursor : String} {e : ResultAuthorityError}
    (h : cursorOffset st queryId fingerprint query sort cursor = .error e) : e = .staleCursor := by
  simp only [cursorOffset, bind_eq_error, okOr_eq_error] at h
  rcases h with ⟨_, h⟩ | ⟨_, _, _, h⟩ <;> exact h.symm

/-- A page request whose cursor no fitting binding has issued fails, and changes nothing. -/
theorem queryCandidatePage_stale {st : ResultsState} {raw : CandidateQuery} {key : PageKey}
    {sort : CandidateSort} {cursor : String} (hkey : KeyOf env results raw key)
    (h : ¬∃ b offset, Fits key sort st b ∧ (cursor, offset) ∈ b.cursors) :
    queryCandidatePage env results raw sort (some cursor) st = .error .staleCursor st := by
  obtain ⟨bytes, hbytes, hid⟩ := hkey.queryId
  have hoffset : cursorOffset st key.queryId key.fingerprint key.query sort cursor =
      .error .staleCursor := by
    cases hcursor : cursorOffset st key.queryId key.fingerprint key.query sort cursor with
    | error e => rw [cursorOffset_eq_error hcursor]
    | ok offset =>
      obtain ⟨b, hfits, hmem⟩ := cursorOffset_eq_ok hcursor
      exact absurd ⟨b, offset, hfits, hmem⟩ h
  have hofExcept : ∀ {α : Type} {x : Except ResultAuthorityError α} {a : α}, x = .ok a →
      (ofExcept x : ResultsM α) st = .ok a st := by
    intro α x a hx
    rw [hx]
    rfl
  unfold queryCandidatePage
  rw [bind_of_ok (hofExcept hkey.query), bind_of_ok (hofExcept hkey.fingerprint),
    bind_of_ok (hofExcept (okOr_eq_ok.mpr hbytes))]
  apply bind_of_error
  rw [← hid]
  show (ofExcept (cursorOffset st key.queryId key.fingerprint key.query sort cursor) :
    ResultsM Nat) st = _
  rw [hoffset]
  rfl

/-! ## The steps of a page request -/

theorem bindQuery_wp {raw : CandidateQuery} {key : PageKey} {st : ResultsState}
    (hkey : KeyOf env results raw key) (hst : SoundState env results st) (sort : CandidateSort)
    (cursor : Option String) :
    (bindQuery key.queryId key.fingerprint key.query sort cursor).Wp st
      (fun offset st' => SoundState env results st' ∧
        (st'.selected = st.selected ∧ st'.selectionRevision = st.selectionRevision) ∧
        (∃ b, Fits key sort st' b) ∧ (cursor = none → offset = 0) ∧
        ∀ c, cursor = some c → ∃ b, Fits key sort st b ∧ (c, offset) ∈ b.cursors)
      (fun _ st' => SoundState env results st') := by
  cases cursor with
  | some cursor =>
    unfold bindQuery
    rw [wp_bind, wp_get, wp_ofExcept]
    refine ⟨fun offset hoffset => ?_, fun _ _ => hst⟩
    obtain ⟨b, hfits, hmem⟩ := cursorOffset_eq_ok hoffset
    exact ⟨hst, ⟨rfl, rfl⟩, ⟨b, hfits⟩, fun h => (by cases h),
      fun c hc => (by cases hc; exact ⟨b, hfits, hmem⟩)⟩
  | none =>
    unfold bindQuery
    rw [wp_bind, wp_modify, wp_pure]
    refine ⟨⟨hst.revision, fun b hb => ?_⟩, ⟨rfl, rfl⟩,
      ⟨_, ⟨rfl, rfl, rfl, rfl, rfl, fun _ => rfl⟩⟩, fun _ => rfl, fun c hc => (by cases hc)⟩
    -- the new binding has issued nothing yet
    cases hb
    exact ⟨hkey.fingerprint_eq, hkey.queryId, hst.revision, fun x hx => (by cases hx)⟩

theorem issueCursor_wp {key : PageKey} {sort : CandidateSort} {st : ResultsState}
    {b : BoundCandidateQuery} {stop : Nat} (hst : SoundState env results st)
    (hfits : Fits key sort st b) (hstop : stop < 2 ^ 64) :
    (issueCursor env key.queryId key.fingerprint key.query sort stop).Wp st
      (fun c st' => SoundState env results st' ∧
        (st'.selected = st.selected ∧ st'.selectionRevision = st.selectionRevision) ∧
        ∃ b', Fits key sort st' b' ∧ b'.cursors.lookup c = some stop)
      (fun _ st' => SoundState env results st') := by
  unfold issueCursor
  rw [wp_bind, wp_ofExcept]
  refine ⟨fun sortBytes hsort => ?_, fun _ _ => hst⟩
  rw [okOr_eq_ok] at hsort
  rw [wp_bind, wp_get, wp_bind, wp_ofExcept, hfits.active]
  refine ⟨fun binding hbinding => ?_, fun _ _ => hst⟩
  cases hbinding
  rw [wp_bind, wp_set, wp_pure]
  have hsound := hst.binding b hfits.active
  refine ⟨⟨hst.revision, fun b' hb' => ?_⟩, ⟨rfl, rfl⟩, _,
    ⟨rfl, hfits.queryId, hfits.fingerprint, hfits.query, hfits.sort, hfits.revision⟩,
    List.lookup_cons_self⟩
  cases hb'
  refine ⟨hsound.fingerprint, hsound.queryId, hsound.revision, fun x hx => ?_⟩
  rcases List.mem_cons.mp hx with rfl | hx
  · refine ⟨hstop, sortBytes, by rw [hfits.sort]; exact hsort, ?_⟩
    -- the revision is hashed only for queries on the selection, where it is the binding's
    simp only [cursorInput, hfits.fingerprint, hfits.queryId, hfits.query]
    cases hselected : key.query.selectedOnly with
    | false => simp only [cursorFields, Bool.false_eq_true, if_false]
    | true => rw [hfits.revision hselected]
  · exact hsound.cursors x hx

theorem nextPageCursor_wp {key : PageKey} {sort : CandidateSort} {st : ResultsState}
    {b : BoundCandidateQuery} {stop total : Nat} (hst : SoundState env results st)
    (hfits : Fits key sort st b) (hstop : stop < 2 ^ 64) :
    (nextPageCursor env key.queryId key.fingerprint key.query sort stop total).Wp st
      (fun next st' => SoundState env results st' ∧
        (st'.selected = st.selected ∧ st'.selectionRevision = st.selectionRevision) ∧
        (next = none → total ≤ stop) ∧
        ∀ c, next = some c →
          stop < total ∧ ∃ b', Fits key sort st' b' ∧ b'.cursors.lookup c = some stop)
      (fun _ st' => SoundState env results st') := by
  unfold nextPageCursor
  split
  · next hmore =>
    rw [map_eq_pure_bind, wp_bind]
    refine (issueCursor_wp hst hfits hstop).mono (fun c st' hissued => ?_) fun _ _ h => h
    rw [wp_pure]
    obtain ⟨hsound, hsame, hcursor⟩ := hissued
    exact ⟨hsound, hsame, fun h => (by cases h), fun c' hc' =>
      (by cases hc'; exact ⟨hmore, hcursor⟩)⟩
  · next hlast =>
    rw [wp_pure]
    exact ⟨hst, ⟨rfl, rfl⟩, fun _ => Nat.not_lt.mp hlast, fun c hc => (by cases hc)⟩

/-! ## Served pages -/

/-- The page of the matches that starts at `offset`. -/
structure Shown (env : ResultsEnv) (results : ScanResults) (key : PageKey) (sort : CandidateSort)
    (cursor : Option String) (st st' : ResultsState) (offset : Nat)
    (page : CandidateQueryPageDto) : Prop where
  start : cursor = none → offset = 0
  resumed : ∀ c, cursor = some c → ∃ b, Fits key sort st b ∧ (c, offset) ∈ b.cursors
  inside : offset ≤ (filteredCandidates env results key.query sort st.selected).length
  rows : page.candidates =
    (((filteredCandidates env results key.query sort st.selected).drop offset).take
      candidatePageLimit).map (actionableRow env st.selected)
  total : page.filteredTotal =
    toString (filteredCandidates env results key.query sort st.selected).length
  last : page.nextCursor = none →
    (filteredCandidates env results key.query sort st.selected).length ≤ offset + candidatePageLimit
  next : ∀ c, page.nextCursor = some c →
    offset + candidatePageLimit <
      (filteredCandidates env results key.query sort st.selected).length ∧
    ∃ b, Fits key sort st' b ∧ b.cursors.lookup c = some (offset + candidatePageLimit)

theorem slice_eq_some {α : Type} {xs page : List α} {offset : Nat}
    (h : slice xs offset (min (offset + candidatePageLimit) xs.length) = some page) :
    offset ≤ xs.length ∧ page = (xs.drop offset).take candidatePageLimit := by
  unfold slice at h
  split at h
  · next hbounds =>
    rw [← Option.some.inj h]
    refine ⟨by omega, ?_⟩
    rw [List.drop_take, List.take_eq_take_iff, List.length_drop]
    omega
  · cases h

theorem queryCandidatePage_wp {st : ResultsState} (hst : SoundState env results st)
    (raw : CandidateQuery) (sort : CandidateSort) (cursor : Option String) :
    (queryCandidatePage env results raw sort cursor).Wp st
      (fun page st' => SoundState env results st' ∧
        ∃ key offset, KeyOf env results raw key ∧
          Shown env results key sort cursor st st' offset page)
      (fun _ st' => SoundState env results st') := by
  unfold queryCandidatePage
  rw [wp_bind, wp_ofExcept]
  refine ⟨fun query hquery => ?_, fun _ _ => hst⟩
  rw [wp_bind, wp_ofExcept]
  refine ⟨fun fingerprint hfingerprint => ?_, fun _ _ => hst⟩
  rw [wp_bind, wp_ofExcept]
  refine ⟨fun queryBytes hbytes => ?_, fun _ _ => hst⟩
  rw [okOr_eq_ok] at hbytes
  obtain ⟨key, hkeyEq⟩ : ∃ key : PageKey, key = ⟨query, fingerprint,
    deriveId env "query" [Bytes.ofString fingerprint, queryBytes]⟩ := ⟨_, rfl⟩
  have hkey : KeyOf env results raw key := by
    rw [hkeyEq]
    exact ⟨hquery, hfingerprint, queryBytes, hbytes, rfl⟩
  obtain rfl : query = key.query := by rw [hkeyEq]
  obtain rfl : fingerprint = key.fingerprint := by rw [hkeyEq]
  rw [show deriveId env "query" [Bytes.ofString key.fingerprint, queryBytes] = key.queryId by
    rw [hkeyEq]]
  rw [wp_bind]
  refine (bindQuery_wp hkey hst sort cursor).mono (fun offset st₁ hbound => ?_) fun _ _ h => h
  obtain ⟨hst₁, ⟨hselected, hrevision⟩, ⟨b, hfits⟩, hstart, hresumed⟩ := hbound
  rw [wp_bind, wp_get, hselected, hrevision]
  obtain ⟨filtered, hfiltered⟩ : ∃ filtered, filtered =
    filteredCandidates env results key.query sort st.selected := ⟨_, rfl⟩
  rw [← hfiltered, wp_bind, wp_ofExcept]
  refine ⟨fun stop hstop => ?_, fun _ _ => hst₁⟩
  rw [okOr_eq_ok, Option.map_eq_some_iff] at hstop
  obtain ⟨sum, hsum, rfl⟩ := hstop
  obtain ⟨hlt, rfl⟩ := U64.checkedAdd_eq_some.mp hsum
  rw [wp_bind, wp_ofExcept]
  refine ⟨fun page hpage => ?_, fun _ _ => hst₁⟩
  obtain ⟨hinside, hrows⟩ := slice_eq_some (okOr_eq_ok.mp hpage)
  rw [wp_bind]
  refine (nextPageCursor_wp hst₁ hfits (by omega)).mono (fun next st₂ hnext => ?_) fun _ _ h => h
  obtain ⟨hst₂, _, hlast, hmore⟩ := hnext
  rw [wp_bind, wp_ofExcept]
  refine ⟨fun selection _ => ?_, fun _ _ => hst₂⟩
  rw [wp_bind, wp_ofExcept]
  refine ⟨fun facets _ => ?_, fun _ _ => hst₂⟩
  rw [wp_pure]
  refine ⟨hst₂, key, offset, hkey, hstart, hresumed, ?_, ?_, ?_, ?_, ?_⟩
  · rw [← hfiltered]
    exact hinside
  · rw [← hfiltered, ← hrows]
  · rw [← hfiltered]
  · intro hnone
    have := hlast hnone
    rw [← hfiltered]
    omega
  · intro c hc
    obtain ⟨hless, b', hb'⟩ := hmore c hc
    have hstop :
      min (offset + candidatePageLimit) filtered.length = offset + candidatePageLimit := by
      omega
    rw [hstop] at hb' hless
    rw [← hfiltered]
    exact ⟨hless, b', hb'⟩

end Undelete.Desktop
