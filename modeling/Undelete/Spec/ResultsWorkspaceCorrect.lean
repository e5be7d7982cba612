import Undelete.Native.Desktop.ResultsWorkspace
import Undelete.ForStd.Reach

/-!
# What the results workspace displays

A page on display should belong to the current scan and query, and its cursor should be the one
that the history has at its index. The page, the index and the history are set together, except
when an update of the selection is answered: the page is then requested again at the cursor
that it had when the update was sent, and at the index of the answer. The two belong together
in every run in which no selection command is taken while a page is requested. A search that is
refused unlocks the selection during such a request, and then the answer of the page unlocks
the paging during the update.

## Key results

- `Inv`: the invariant; `Keeps` says what a step leaves alone.
- `reachable_displays_page`: what is displayed in careful runs, and what one more step changes.
- `refresh_moves_page`: a page on display at the index of another one.
-/

namespace Undelete.Desktop.ResultsWorkspace

/-- The page belongs to the scan and the query, and to its place in the history. -/
structure PageDisplayed (s : ResultsWorkspaceState) (page : CachedCandidatePage) : Prop where
  scanId_eq : s.scanId = some page.scanId
  revision_eq : page.queryRevision = s.query.revision
  cursor_eq : s.cursorHistory[s.currentPageIndex]? = some page.cursor
  first : s.cursorHistory[0]? = some none

/-- What holds in a state: one native command, a page in its place, and no selection command
    sent twice. -/
structure Displays (h : ResultsWorkspace) : Prop where
  single : h.calls.length ≤ 1
  page : ∀ page, h.state.page = some page → PageDisplayed h.state page
  sent : ∀ call, .selection call ∈ h.calls → call ∈ h.sent
  sent_nodup : (h.sent.map (·.task.number)).Nodup

/-- The answer belongs to an earlier scan or query. -/
def Outdated (h : ResultsWorkspace) : Event → Prop
  | .pageAnswer call _ => h.taskIsCurrent call.task = false
  | .selectionAnswer call _ =>
    h.selectionIsCurrent call.task = false ∨
      h.state.requestRevision ≠ call.operationIntentRevision
  | _ => False

/-- Another scan is bound, or the same one again. -/
def BindsScan : Event → Prop
  | .mount _ => True
  | .scanChange _ => True
  | _ => False

/-- What a step changes. -/
structure StepDisplays (h : ResultsWorkspace) (e : Event) (h' : ResultsWorkspace) : Prop where
  revision_le : ¬BindsScan e → ∀ before, h.state.selection = some before →
    ∃ after, h'.state.selection = some after ∧
      bigInt before.selectionRevision ≤ bigInt after.selectionRevision
  sends : ∀ call ∈ h'.sent, call ∉ h.sent → ∃ page selection,
    h'.state.page = some page ∧ h'.state.selection = some selection ∧
      call.queryId = page.queryId ∧ call.expectedRevision = selection.selectionRevision
  accepts : ∀ call response, e = .selectionAnswer call (.ok response) →
    h'.state.selection ≠ h.state.selection → ∃ before, h.state.selection = some before ∧
      h'.state.selection = some response.selection ∧
      bigInt response.selection.selectionRevision = bigInt before.selectionRevision + 1
  outdated : Outdated h e → h'.state.page = h.state.page

/-- A page of the current query is queued or requested. -/
def PageOutstanding (h : ResultsWorkspace) : Prop :=
  ∃ task, (.page task ∈ h.tasks ∨ ∃ requestId, .page ⟨requestId, task⟩ ∈ h.calls) ∧
    h.taskIsCurrent task = true

/-- A selection command that is taken. -/
def Selects (h : ResultsWorkspace) : Command → Prop
  | .setCandidateSelected candidateId _ =>
    validCandidateId candidateId = true ∧ acceptsSelection h.state = true
  | .selectAllMatching => acceptsSelection h.state = true
  | .clearMatching => acceptsSelection h.state = true
  | .clearAll => acceptsSelection h.state = true
  | _ => False

/-- No selection command is taken while a page is requested. -/
def Careful (h : ResultsWorkspace) : Event → Prop
  | .command command => Selects h command → ¬PageOutstanding h
  | _ => True

/-! ## The invariant -/

/-- A page task that belongs to the scan and the query, with a history of its own. -/
structure Matches (generation : Nat) (s : ResultsWorkspaceState) (task : PageTask) : Prop where
  generation_eq : task.generation = generation
  intent_eq : task.intentRevision = s.requestRevision
  scanId_eq : s.scanId = some task.scanId
  query_eq : task.query = s.query
  cursor_eq : task.cursorHistory[task.pageIndex]? = some task.cursor
  first : task.cursorHistory[0]? = some none

structure PageInFlight (mounted : Bool) (generation : Nat) (s : ResultsWorkspaceState)
    (task : PageTask) : Prop where
  generation_le : task.generation ≤ generation
  intent_le : task.generation = generation → task.intentRevision ≤ s.requestRevision
  outdated : mounted = true →
    (task.generation = generation → task.intentRevision ≠ s.requestRevision) → s.page = none
  current : task.generation = generation → task.intentRevision = s.requestRevision →
    Matches generation s task

/-- While an update of the current query is on its way, its page stays on display. -/
structure SelectionInFlight (mounted : Bool) (generation : Nat) (s : ResultsWorkspaceState)
    (call : SelectionCall) : Prop where
  generation_le : call.task.generation ≤ generation
  intent_le : call.task.generation = generation → call.operationIntentRevision ≤ s.requestRevision
  outdated : mounted = true →
    (call.task.generation = generation → call.operationIntentRevision ≠ s.requestRevision) →
      s.page = none
  expected : call.task.generation = generation →
    s.selection.map (·.selectionRevision) = some call.expectedRevision
  current : call.task.generation = generation → call.operationIntentRevision = s.requestRevision →
    s.selectionPhase = .updating ∧ s.page = some call.page

def InFlight (mounted : Bool) (generation : Nat) (s : ResultsWorkspaceState) : ResultCall → Prop
  | .page call => PageInFlight mounted generation s call.task
  | .selection call => SelectionInFlight mounted generation s call

/-- What does not speak of the native commands. -/
structure Base (h : ResultsWorkspace) : Prop where
  intent_eq : h.intentRevision = h.state.requestRevision
  tasks : ∀ task ∈ h.tasks, ∃ page, task = .page page ∧ Matches h.generation h.state page
  unmounted : h.mounted = false → h.tasks = []
  cache : ∀ page ∈ h.state.pageCache, h.state.scanId = some page.scanId
  page : ∀ page, h.state.page = some page → PageDisplayed h.state page
  index : h.state.page = none → h.state.currentPageIndex = 0
  sent_le : ∀ call ∈ h.sent, call.task.number ≤ h.commands
  sent_nodup : (h.sent.map (·.task.number)).Nodup

structure Inv (h : ResultsWorkspace) : Prop extends Base h where
  calls : (h.running = false ∧ h.calls = [] ∧ h.tasks = []) ∨
    ∃ call, h.running = true ∧ h.calls = [call] ∧ InFlight h.mounted h.generation h.state call
  sent : ∀ call, .selection call ∈ h.calls → call ∈ h.sent

theorem Inv.displays {h : ResultsWorkspace} (hi : Inv h) : Displays h := by
  refine ⟨?_, hi.page, hi.sent, hi.sent_nodup⟩
  obtain ⟨_, hcalls, _⟩ | ⟨call, _, hcalls, _⟩ := hi.calls
  · simp [hcalls]
  · simp [hcalls]

theorem inv_initial (runtimeAvailable : Bool) (scanId : Option String) :
    Inv (initial runtimeAvailable scanId) where
  intent_eq := rfl
  tasks := by
    intro task htask
    cases htask
  unmounted := fun _ => rfl
  cache := by
    intro page hpage
    cases hpage
  page := by
    intro page hpage
    cases hpage
  index := fun _ => rfl
  sent_le := by
    intro call hcall
    cases hcall
  sent_nodup := List.nodup_nil
  calls := .inl ⟨rfl, rfl, rfl⟩
  sent := by
    intro call hcall
    cases hcall

variable {h h' : ResultsWorkspace}

/-- A step that keeps the invariant, the selection and the updates that were sent. -/
structure Keeps (h h' : ResultsWorkspace) : Prop where
  inv : Inv h'
  selection_eq : h'.state.selection = h.state.selection
  sent_eq : h'.sent = h.sent

theorem Inv.keeps (hi : Inv h) : Keeps h h := ⟨hi, rfl, rfl⟩

/-! ## The queue -/

/-- Of a queue of page tasks, the first one is requested. -/
theorem Base.pump (hb : Base h) (hrunning : h.running = false) (hcalls : h.calls = []) :
    Inv h.pump ∧ h.pump.state = h.state ∧ h.pump.sent = h.sent := by
  have hsent : ∀ call, .selection call ∈ h.calls → call ∈ h.sent := by
    intro call hcall
    rw [hcalls] at hcall
    cases hcall
  unfold ResultsWorkspace.pump
  rw [hrunning, Bool.or_false]
  cases hmounted : h.mounted with
  | false =>
    exact ⟨{ hb with calls := .inl ⟨hrunning, hcalls, hb.unmounted hmounted⟩, sent := hsent },
      rfl, rfl⟩
  | true =>
    -- a mounted workspace issues its first task, if it has one
    cases htasks : h.tasks with
    | nil =>
      refine ⟨?_, rfl, rfl⟩
      exact { hb with
        tasks := fun task htask => (by cases htask)
        unmounted := fun _ => rfl
        calls := .inl ⟨hrunning, hcalls, rfl⟩
        sent := hsent }
    | cons task tasks =>
      obtain ⟨page, rfl, hmatches⟩ := hb.tasks task (htasks ▸ List.mem_cons_self)
      refine ⟨?_, rfl, rfl⟩
      refine { hb with
        tasks := fun task htask => hb.tasks task (htasks ▸ List.mem_cons_of_mem _ htask)
        unmounted := fun hfalse => absurd (hmounted.symm.trans hfalse) (by decide)
        calls := .inr ⟨.page ⟨h.requestSequence + 1, page⟩, rfl, ?_, ?_⟩
        sent := ?_ }
      · exact congrArg _ hcalls
      · exact ⟨Nat.le_of_eq hmatches.generation_eq, fun _ => Nat.le_of_eq hmatches.intent_eq,
          fun _ hother => absurd hmatches.intent_eq (hother hmatches.generation_eq),
          fun _ _ => hmatches⟩
      · intro call hcall
        have hcall : ResultCall.selection call ∈ ResultCall.page _ :: h.calls := hcall
        simp only [hcalls, List.mem_singleton, reduceCtorEq] at hcall

theorem Base.finish (hb : Base h) (hcalls : h.calls = []) :
    Inv h.finish ∧ h.finish.state = h.state ∧ h.finish.sent = h.sent :=
  Base.pump (h := { h with running := false }) { hb with } rfl hcalls

/-- The tasks that a page task leaves in the queue. -/
theorem mem_pending {task : PageTask} {pending : ResultTask}
    (hmem : pending ∈ if (ResultTask.page task).isPage .query then h.tasks.filter (·.isSelection)
      else if (ResultTask.page task).isPage .page then h.tasks.filter (!·.isPage .page)
      else h.tasks) : pending ∈ h.tasks := by
  split at hmem
  · exact List.mem_of_mem_filter hmem
  · split at hmem
    · exact List.mem_of_mem_filter hmem
    · exact hmem

/-- A page task that waits behind a native command. -/
theorem Base.enqueueBehind (hb : Base h) {task : PageTask} (hmounted : h.mounted = true)
    (hrunning : h.running = true) (hmatches : Matches h.generation h.state task) :
    ∃ tasks, h.enqueueTask (.page task) = { h with tasks } ∧ Base { h with tasks } := by
  refine ⟨_, if_pos (by simp [hrunning]), ?_⟩
  exact { hb with
    tasks := fun pending hpending => by
      rcases List.mem_append.mp hpending with hold | hnew
      · exact hb.tasks pending (mem_pending hold)
      · exact ⟨task, List.mem_singleton.mp hnew, hmatches⟩
    unmounted := fun hfalse => absurd (hmounted.symm.trans hfalse) (by decide) }

theorem Inv.enqueuePage (hi : Inv h) {task : PageTask} (hmounted : h.mounted = true)
    (hmatches : Matches h.generation h.state task) : Keeps h (h.enqueueTask (.page task)) := by
  obtain ⟨hrunning, hcalls, htasks⟩ | ⟨call, hrunning, hcalls, hflight⟩ := hi.calls
  · have hbase : Base { h with tasks := [.page task] } :=
      { hi.toBase with
        tasks := fun pending hpending => ⟨task, List.mem_singleton.mp hpending, hmatches⟩
        unmounted := fun hfalse => absurd (hmounted.symm.trans hfalse) (by decide) }
    have heq : h.enqueueTask (.page task) =
      ResultsWorkspace.pump { h with tasks := [.page task] } := by
      simp only [ResultsWorkspace.enqueueTask, htasks, List.filter_nil, ite_self, List.nil_append]
    obtain ⟨hinv, hstate, hsent⟩ := hbase.pump hrunning hcalls
    rw [heq]
    exact ⟨hinv, congrArg _ hstate, hsent⟩
  · obtain ⟨tasks, heq, hbase⟩ := hi.toBase.enqueueBehind hmounted hrunning hmatches
    rw [heq]
    exact ⟨{ hbase with calls := .inr ⟨call, hrunning, hcalls, hflight⟩, sent := hi.sent },
      rfl, rfl⟩

/-- A fresh query replaces all the page tasks that wait. -/
theorem enqueueTask_query {task : PageTask} (hkind : task.kind = .query)
    (htasks : ∀ pending ∈ h.tasks, ∃ page, pending = .page page) :
    h.enqueueTask (.page task) = { h with tasks := [] }.enqueueTask (.page task) := by
  have hquery : (ResultTask.page task).isPage .query = true := by simp [ResultTask.isPage, hkind]
  have hfilter : h.tasks.filter (·.isSelection) = [] := by
    rw [List.filter_eq_nil_iff]
    intro pending hpending
    obtain ⟨page, rfl⟩ := htasks pending hpending
    exact Bool.false_ne_true
  simp only [ResultsWorkspace.enqueueTask, hquery, if_true, hfilter, List.filter_nil]

theorem freshQueryTask_matches {generation : Nat} {s : ResultsWorkspaceState} {task : PageTask}
    (htask : freshQueryTask generation s = some task) :
    task.kind = .query ∧ Matches generation s task := by
  unfold freshQueryTask at htask
  obtain ⟨scanId, hscan, rfl⟩ := Option.map_eq_some_iff.mp htask
  exact ⟨rfl, rfl, rfl, hscan, rfl, rfl, rfl⟩

/-! ## Local changes -/

/-- A change of what is neither displayed as a page nor read by a task. -/
theorem Inv.setPhase (hi : Inv h) (phase : ResultsWorkspacePhase)
    (error : Option StorageErrorCode) :
    Keeps h (h.commitState { h.state with phase, error }) := by
  refine ⟨{ hi with tasks := ?_, page := ?_, calls := ?_ }, rfl, rfl⟩
  · intro task htask
    obtain ⟨page, heq, hmatches⟩ := hi.tasks task htask
    exact ⟨page, heq, { hmatches with }⟩
  · exact fun page hpage => { hi.page page hpage with }
  · refine hi.calls.imp_right ?_
    rintro ⟨call, hrunning, hcalls, hflight⟩
    refine ⟨call, hrunning, hcalls, ?_⟩
    cases call with
    | page call =>
      exact { hflight with
        current := fun hgeneration hintent => { hflight.current hgeneration hintent with } }
    | selection call => exact { hflight with }

theorem Inv.recordLocalQueryError (hi : Inv h) : Keeps h h.recordLocalQueryError :=
  hi.setPhase .error (some .resultQueryInvalid)

/-- The calls of the earlier queries. -/
theorem InFlight.scheduled {mounted : Bool} {generation : Nat} {s s' : ResultsWorkspaceState}
    {call : ResultCall} (hflight : InFlight mounted generation s call)
    (hrevision : s'.requestRevision = s.requestRevision + 1) (hpage : s'.page = none)
    (hselection : s'.selection = s.selection) : InFlight mounted generation s' call := by
  cases call with
  | page call =>
    refine ⟨hflight.generation_le, fun heq => ?_, fun _ _ => hpage, fun heq hintent => ?_⟩
    · have := hflight.intent_le heq
      omega
    · have := hflight.intent_le heq
      omega
  | selection call =>
    refine ⟨hflight.generation_le, fun heq => ?_, fun _ _ => hpage, fun heq => ?_,
      fun heq hintent => ?_⟩
    · have := hflight.intent_le heq
      omega
    · rw [hselection]
      exact hflight.expected heq
    · have := hflight.intent_le heq
      omega

/-- A new query, before it is queued. -/
theorem Inv.scheduled (hi : Inv h) (s' : ResultsWorkspaceState)
    (hrevision : s'.requestRevision = h.state.requestRevision + 1) (hpage : s'.page = none)
    (hindex : s'.currentPageIndex = 0) (hcache : s'.pageCache = [])
    (hselection : s'.selection = h.state.selection) :
    Keeps h { h with intentRevision := s'.requestRevision, tasks := [], state := s' } := by
  refine ⟨?_, hselection, rfl⟩
  exact { hi with
    intent_eq := rfl
    tasks := fun task htask => (by cases htask)
    unmounted := fun _ => rfl
    cache := fun page hmem => (by cases hcache ▸ hmem)
    page := fun page hsome => (by cases hpage.symm.trans hsome)
    index := fun _ => hindex
    calls := by
      obtain ⟨hrunning, hcalls, _⟩ | ⟨call, hrunning, hcalls, hflight⟩ := hi.calls
      · exact .inl ⟨hrunning, hcalls, rfl⟩
      · exact .inr ⟨call, hrunning, hcalls, hflight.scheduled hrevision hpage hselection⟩ }

theorem Keeps.trans {h'' : ResultsWorkspace} (first : Keeps h h') (second : Keeps h' h'') :
    Keeps h h'' :=
  ⟨second.inv, second.selection_eq.trans first.selection_eq, second.sent_eq.trans first.sent_eq⟩

theorem Inv.scheduleIntent (hi : Inv h) (hmounted : h.mounted = true) (runtimeAvailable : Bool)
    (query : CandidateQuery) (sort : CandidateSort) :
    Keeps h (h.scheduleIntent runtimeAvailable query sort) := by
  unfold ResultsWorkspace.scheduleIntent
  dsimp only
  split
  · exact hi.keeps
  · next hguard =>
    split
    · next task htask =>
      obtain ⟨hkind, hmatches⟩ := freshQueryTask_matches htask
      rw [enqueueTask_query hkind]
      · have hkeeps := hi.scheduled { h.state with
            phase := .loading
            query := { query with revision := toString (h.state.requestRevision + 1) }
            sort
            requestRevision := h.state.requestRevision + 1
            currentPageIndex := 0
            cursorHistory := [none]
            pageCache := []
            page := none
            selectionPhase := if h.state.selectionPhase = .updating then .updating else .idle
            error := none } rfl rfl rfl rfl rfl
        exact hkeeps.trans (hkeeps.inv.enqueuePage hmounted hmatches)
      · exact fun pending hpending => (hi.tasks pending hpending).imp fun _ hpage => hpage.1
    · next htask =>
      -- the guard has seen the scan
      simp only [Bool.or_eq_true, decide_eq_true_eq, not_or] at hguard
      exact absurd (Option.map_eq_none_iff.mp htask) hguard.1.2

/-! ## Pages -/

theorem cachedAt_spec {s : ResultsWorkspaceState} {cursor : Option String}
    {page : CachedCandidatePage} (hcached : cachedAt s cursor = some page) :
    page ∈ s.pageCache ∧ page.cursor = cursor ∧ page.queryRevision = s.query.revision := by
  unfold cachedAt at hcached
  have hfound := List.find?_some hcached
  simp only [Bool.and_eq_true, decide_eq_true_eq] at hfound
  exact ⟨List.mem_of_find?_eq_some hcached, hfound⟩

theorem mem_touchPage {pages : List CachedCandidatePage} {page touched : CachedCandidatePage}
    (hmem : touched ∈ touchPage pages page) : touched ∈ pages ∨ touched = page := by
  rcases List.mem_append.mp (List.mem_of_mem_drop hmem) with hold | hnew
  · exact .inl (List.mem_of_mem_filter hold)
  · exact .inr (List.mem_singleton.mp hnew)

/-- A page of the current query, displayed at its place. No update of the selection can be
    outstanding. -/
theorem Inv.display (hi : Inv h) (hmounted : h.mounted = true)
    (hidle : h.state.selectionPhase = .idle) (hdisplayed : h.state.page ≠ none)
    (s' : ResultsWorkspaceState) {page : CachedCandidatePage} (hscan : s'.scanId = h.state.scanId)
    (hquery : s'.query = h.state.query) (hrevision : s'.requestRevision = h.state.requestRevision)
    (hselection : s'.selection = h.state.selection) (hpage : s'.page = some page)
    (hplace : PageDisplayed s' page)
    (hcache : ∀ page ∈ s'.pageCache, page ∈ h.state.pageCache) :
    Keeps h (h.commitState s') := by
  -- a page that is only displayed changes no request
  have hmatches : ∀ task, Matches h.generation h.state task → Matches h.generation s' task :=
    fun task hm => ⟨hm.generation_eq, hm.intent_eq.trans hrevision.symm, hscan.trans hm.scanId_eq,
      hm.query_eq.trans hquery.symm, hm.cursor_eq, hm.first⟩
  refine ⟨?_, hselection, rfl⟩
  refine { hi with intent_eq := ?_, tasks := ?_, cache := ?_, page := ?_, index := ?_, calls := ?_ }
  · exact hi.intent_eq.trans hrevision.symm
  · intro task htask
    exact (hi.tasks task htask).imp fun page hm => ⟨hm.1, hmatches page hm.2⟩
  · intro cached hcached
    exact hscan.trans (hi.cache cached (hcache cached hcached))
  · intro shown hshown
    cases hpage.symm.trans hshown
    exact hplace
  · intro hnone
    cases hpage.symm.trans hnone
  · refine hi.calls.imp_right ?_
    rintro ⟨call, hrunning, hcalls, hflight⟩
    refine ⟨call, hrunning, hcalls, ?_⟩
    cases call with
    | page call =>
      refine ⟨hflight.generation_le, fun heq => hrevision ▸ hflight.intent_le heq, ?_, ?_⟩
      · exact fun _ hother => absurd (hflight.outdated hmounted (hrevision ▸ hother)) hdisplayed
      · exact fun heq hintent => hmatches _ (hflight.current heq (hintent.trans hrevision))
    | selection call =>
      refine ⟨hflight.generation_le, fun heq => hrevision ▸ hflight.intent_le heq, ?_, ?_, ?_⟩
      · exact fun _ hother => absurd (hflight.outdated hmounted (hrevision ▸ hother)) hdisplayed
      · exact fun heq => hselection ▸ hflight.expected heq
      -- and no selection is under way, as the phase is idle
      · intro heq hintent
        have hupdating := (hflight.current heq (hintent.trans hrevision)).1
        cases hidle.symm.trans hupdating

theorem Inv.requestPage (hi : Inv h) (hmounted : h.mounted = true) {cursor : Option String}
    {pageIndex : Nat} {cursorHistory : List (Option String)}
    (hcursor : cursorHistory[pageIndex]? = some cursor) (hfirst : cursorHistory[0]? = some none) :
    Keeps h (h.requestPage cursor pageIndex cursorHistory) := by
  unfold ResultsWorkspace.requestPage
  split
  · next scanId page hscan _ =>
    have hkeeps := hi.setPhase .loading none
    exact hkeeps.trans (hkeeps.inv.enqueuePage hmounted ⟨rfl, rfl, hscan, rfl, hcursor, hfirst⟩)
  · exact hi.keeps

theorem Inv.activatePage (hi : Inv h) (hmounted : h.mounted = true)
    (hidle : h.state.selectionPhase = .idle) (hdisplayed : h.state.page ≠ none) {cursor : String}
    {pageIndex : Nat} {cursorHistory : List (Option String)}
    (hcursor : cursorHistory[pageIndex]? = some (some cursor))
    (hfirst : cursorHistory[0]? = some none) :
    Keeps h (h.activatePage cursor pageIndex cursorHistory) := by
  unfold ResultsWorkspace.activatePage
  split
  · next cached hcached =>
    obtain ⟨hmem, heq, hrevision⟩ := cachedAt_spec hcached
    refine hi.display hmounted hidle hdisplayed _ rfl rfl rfl rfl rfl
      ⟨hi.cache cached hmem, hrevision, hcursor.trans (congrArg some heq.symm), hfirst⟩ ?_
    exact fun page hpage => (mem_touchPage hpage).elim id (· ▸ hmem)
  · exact hi.requestPage hmounted hcursor hfirst

theorem Inv.nextPage (hi : Inv h) (hmounted : h.mounted = true) : Keeps h h.nextPage := by
  unfold ResultsWorkspace.nextPage
  split
  · exact hi.keeps
  · next cursor hcursor =>
    split
    · exact hi.keeps
    · next hready =>
      simp only [Bool.or_eq_true, decide_eq_true_eq, not_or, Decidable.not_not] at hready
      obtain ⟨page, hpage, _⟩ := Option.bind_eq_some_iff.mp hcursor
      have hplace := hi.page page hpage
      have hlength : h.state.currentPageIndex < h.state.cursorHistory.length :=
        (List.getElem?_eq_some_iff.mp hplace.cursor_eq).1
      have htaken : (h.state.cursorHistory.take (h.state.currentPageIndex + 1)).length =
          h.state.currentPageIndex + 1 := by
        rw [List.length_take]
        omega
      apply hi.activatePage hmounted hready.2 (by simp [hpage])
      · rw [List.getElem?_append_right (Nat.le_of_eq htaken), htaken, Nat.sub_self]
        rfl
      · rw [List.getElem?_append_left (by omega), List.getElem?_take_of_lt (Nat.succ_pos _)]
        exact hplace.first

theorem Inv.previousPage (hi : Inv h) (hmounted : h.mounted = true) : Keeps h h.previousPage := by
  unfold ResultsWorkspace.previousPage
  split
  · exact hi.keeps
  · next hready =>
    simp only [Bool.or_eq_true, decide_eq_true_eq, not_or, Decidable.not_not] at hready
    have hdisplayed : h.state.page ≠ none := fun hnone => hready.2 (hi.index hnone)
    obtain ⟨page, hpage⟩ := Option.ne_none_iff_exists'.mp hdisplayed
    have hplace := hi.page page hpage
    dsimp only
    split
    · exact hi.keeps
    · next hentry =>
      split
      · split
        -- a page in the cache is displayed at once, another one is requested
        · next cached hcached =>
          obtain ⟨hmem, heq, hrevision⟩ := cachedAt_spec hcached
          refine hi.display hmounted hready.1.2 hdisplayed _ rfl rfl rfl rfl rfl
            ⟨hi.cache cached hmem, hrevision, hplace.first.trans (congrArg some heq.symm),
              hplace.first⟩ ?_
          exact fun page hpage => (mem_touchPage hpage).elim id (· ▸ hmem)
        · exact hi.requestPage hmounted hplace.first hplace.first
      · exact hi.keeps
    · next cursor hentry =>
      exact hi.activatePage hmounted hready.1.2 hdisplayed hentry hplace.first

/-! ## The selection -/

/-- A step that sends one update, for what is displayed. -/
structure Sends (h : ResultsWorkspace) (call : SelectionCall) (h' : ResultsWorkspace) : Prop where
  inv : Inv h'
  selection_eq : h'.state.selection = h.state.selection
  sent_eq : h'.sent = call :: h.sent
  page_eq : h'.state.page = some call.page
  expected : h'.state.selection.map (·.selectionRevision) = some call.expectedRevision

theorem acceptsSelection_spec {s : ResultsWorkspaceState} (haccepts : acceptsSelection s = true) :
    ∃ page selection, s.page = some page ∧ s.selection = some selection ∧
      s.selectionPhase ≠ .updating := by
  simp only [acceptsSelection, Bool.and_eq_true, decide_eq_true_eq] at haccepts
  obtain ⟨page, hpage⟩ := Option.ne_none_iff_exists'.mp haccepts.1.1.1
  obtain ⟨selection, hselection⟩ := Option.ne_none_iff_exists'.mp haccepts.1.1.2
  exact ⟨page, selection, hpage, hselection, haccepts.2⟩

/-- A careful selection command finds nothing outstanding. -/
theorem Inv.quiet (hi : Inv h) (hmounted : h.mounted = true)
    (haccepts : acceptsSelection h.state = true) (hquiet : ¬PageOutstanding h) :
    h.running = false ∧ h.calls = [] ∧ h.tasks = [] := by
  obtain ⟨page, _, hpage, _, hphase⟩ := acceptsSelection_spec haccepts
  have hdisplayed : h.state.page ≠ none := by simp [hpage]
  apply hi.calls.resolve_right
  rintro ⟨call, _, hcalls, hflight⟩
  cases call with
  | page call =>
    have hcurrent : ¬(call.task.generation = h.generation →
        call.task.intentRevision ≠ h.state.requestRevision) :=
      fun hother => hdisplayed (hflight.outdated hmounted hother)
    simp only [Classical.not_imp, Decidable.not_not] at hcurrent
    obtain ⟨hgeneration, hintent⟩ := hcurrent
    have hmatches := hflight.current hgeneration hintent
    refine hquiet ⟨call.task, .inr ⟨call.requestId, by simp [hcalls]⟩, ?_⟩
    simp [taskIsCurrent, hmounted, hgeneration, hi.intent_eq, hintent, hmatches.scanId_eq]
  | selection call =>
    have hcurrent : ¬(call.task.generation = h.generation →
        call.operationIntentRevision ≠ h.state.requestRevision) :=
      fun hother => hdisplayed (hflight.outdated hmounted hother)
    simp only [Classical.not_imp, Decidable.not_not] at hcurrent
    exact hphase (hflight.current hcurrent.1 hcurrent.2).1

theorem Inv.enqueueSelection (hi : Inv h) (hmounted : h.mounted = true)
    (hquiet : acceptsSelection h.state = true → ¬PageOutstanding h)
    (operation : SelectionOperationDto) :
    Keeps h (h.enqueueSelection operation) ∨
    ∃ call, Sends h call (h.enqueueSelection operation) := by
  unfold ResultsWorkspace.enqueueSelection
  split
  · exact .inl hi.keeps
  · next scanId hscan =>
    split
    · exact .inl hi.keeps
    · next haccepts =>
      have haccepts : acceptsSelection h.state = true := by simpa using haccepts
      -- no page is outstanding: this is where the run must be careful
      obtain ⟨hrunning, hcalls, htasks⟩ := hi.quiet hmounted haccepts (hquiet haccepts)
      obtain ⟨page, selection, hpage, hselection, _⟩ := acceptsSelection_spec haccepts
      refine .inr ⟨⟨h.requestSequence + 1, ⟨h.commands + 1, h.generation, scanId, operation⟩, page,
        selection.selectionRevision, h.state.requestRevision⟩, ?_⟩
      simp only [ResultsWorkspace.enqueueTask, ResultTask.isPage, commitState, htasks,
        List.nil_append, Bool.false_eq_true, if_false, ResultsWorkspace.pump, hmounted, hrunning,
        Bool.not_true, Bool.or_false, pumpTasks, selectionIsCurrent, hscan, decide_true,
        Bool.and_true, hpage, hselection, hcalls]
      refine ⟨?_, hselection.symm, rfl, rfl, rfl⟩
      exact { hi with
        tasks := fun task htask => (by cases htask)
        unmounted := fun _ => rfl
        page := fun shown hshown => by
          cases hshown
          exact { hi.page page hpage with scanId_eq := hscan ▸ (hi.page page hpage).scanId_eq }
        index := fun hnone => (by cases hnone)
        cache := fun cached hcached => hscan ▸ hi.cache cached hcached
        sent_le := fun call hcall => by
          rcases List.mem_cons.mp hcall with rfl | hcall
          · exact Nat.le_refl _
          · exact Nat.le_succ_of_le (hi.sent_le call hcall)
        -- the request is numbered beyond all that were sent
        sent_nodup := by
          refine List.nodup_cons.mpr ⟨fun hmem => ?_, hi.sent_nodup⟩
          obtain ⟨call, hcall, heq⟩ := List.mem_map.mp hmem
          have := hi.sent_le call hcall
          simp only at heq
          omega
        calls := .inr ⟨_, rfl, rfl, Nat.le_refl _, fun _ => Nat.le_refl _,
          fun _ hother => absurd rfl (hother rfl), fun _ => rfl, fun _ _ => ⟨rfl, rfl⟩⟩
        sent := fun call hcall => by
          cases List.mem_singleton.mp hcall
          exact List.mem_cons_self }

/-! ## Answers -/

/-- What the end of a task leaves for the next one. -/
structure Settles (h h' : ResultsWorkspace) : Prop where
  base : Base h'
  calls_eq : h'.calls = h.calls
  selection_eq : h'.state.selection = h.state.selection
  sent_eq : h'.sent = h.sent
  page_none : h.state.page = none → h'.state.page = none

theorem Base.failWith (hb : Base h) (code : StorageErrorCode) : Settles h (h.failWith code) := by
  refine ⟨{ hb with tasks := ?_, page := ?_ }, rfl, rfl, rfl, id⟩
  · intro task htask
    obtain ⟨page, heq, hmatches⟩ := hb.tasks task htask
    exact ⟨page, heq, { hmatches with }⟩
  · exact fun page hpage => { hb.page page hpage with }

theorem Base.recoverThroughFreshQuery (hb : Base h) (hmounted : h.mounted = true)
    (hrunning : h.running = true) : Settles h h.recoverThroughFreshQuery := by
  unfold ResultsWorkspace.recoverThroughFreshQuery
  split
  · exact ⟨hb, rfl, rfl, rfl, id⟩
  · next task htask =>
    obtain ⟨hkind, hmatches⟩ := freshQueryTask_matches htask
    -- the old pages are forgotten, so nothing is displayed
    have hbase : Base { h with
        tasks := []
        state := { h.state with
          phase := .loading
          currentPageIndex := 0
          cursorHistory := [none]
          pageCache := []
          page := none
          error := none } } :=
      { hb with
        tasks := fun task htask => (by cases htask)
        unmounted := fun _ => rfl
        cache := fun page hpage => (by cases hpage)
        page := fun page hpage => (by cases hpage)
        index := fun _ => rfl }
    rw [enqueueTask_query hkind]
    · obtain ⟨tasks, heq, hbase'⟩ :=
        hbase.enqueueBehind hmounted hrunning { hmatches with }
      refine (congrArg (Settles h) heq).mpr ?_
      exact ⟨hbase', rfl, rfl, rfl, fun _ => rfl⟩
    · exact fun pending hpending => (hb.tasks pending hpending).imp fun _ hpage => hpage.1

theorem taskIsCurrent_iff {task : PageTask} : h.taskIsCurrent task = true ↔
    h.mounted = true ∧ task.generation = h.generation ∧ task.intentRevision = h.intentRevision ∧
      h.state.scanId = some task.scanId ∧ h.state.requestRevision = task.intentRevision := by
  simp only [taskIsCurrent, Bool.and_eq_true, decide_eq_true_eq, and_assoc]

theorem selectionIsCurrent_iff {task : SelectionTask} : h.selectionIsCurrent task = true ↔
    h.mounted = true ∧ task.generation = h.generation ∧ h.state.scanId = some task.scanId := by
  simp only [selectionIsCurrent, Bool.and_eq_true, decide_eq_true_eq, and_assoc]

theorem Base.pageFailed (hb : Base h) (hrunning : h.running = true) (task : PageTask)
    (code : StorageErrorCode) : Settles h (h.pageFailed task code) := by
  unfold ResultsWorkspace.pageFailed
  split
  · exact ⟨hb, rfl, rfl, rfl, id⟩
  · next hcurrent =>
    have hcurrent : h.taskIsCurrent task = true := by simpa using hcurrent
    split
    · exact hb.recoverThroughFreshQuery (taskIsCurrent_iff.mp hcurrent).1 hrunning
    · exact hb.failWith code

theorem Base.selectionFailed (hb : Base h) (hmounted : h.mounted = true)
    (hrunning : h.running = true) (code : StorageErrorCode) :
    Settles h (h.selectionFailed code) := by
  unfold ResultsWorkspace.selectionFailed
  split
  · exact hb.recoverThroughFreshQuery hmounted hrunning
  · exact hb.failWith code

/-- A page that answers the current task is displayed at the place that the task carries. -/
theorem Base.showPage (hb : Base h) {task : PageTask}
    (hmatches : Matches h.generation h.state task) {page : CandidateQueryPageDto}
    (haccepted : h.pageRefused task page = false) :
    Base (h.commitState { h.state with
      phase := .ready
      currentPageIndex := task.pageIndex
      cursorHistory := task.cursorHistory
      pageCache := touchPage h.state.pageCache (cachedPage page)
      page := some (cachedPage page)
      selection := some page.selection
      extensionFacets := page.extensionFacets
      selectionPhase := .idle
      error := none }) := by
  -- the checks say that the page answers the task
  simp only [pageRefused, Bool.or_eq_false_iff, decide_eq_false_iff_not, Decidable.not_not]
    at haccepted
  obtain ⟨⟨⟨⟨⟨hscan, hrevision⟩, hcursor⟩, _⟩, _⟩, _⟩ := haccepted
  have hscan : h.state.scanId = some (cachedPage page).scanId :=
    hmatches.scanId_eq.trans (congrArg some hscan.symm)
  exact { hb with
    tasks := fun pending hpending => by
      obtain ⟨other, heq, hm⟩ := hb.tasks pending hpending
      exact ⟨other, heq, { hm with }⟩
    cache := fun cached hcached => by
      rcases mem_touchPage hcached with hold | rfl
      · exact hb.cache cached hold
      · exact hscan
    page := fun shown hshown => by
      cases hshown
      exact ⟨hscan, hrevision.trans (congrArg _ hmatches.query_eq),
        hmatches.cursor_eq.trans (congrArg some hcursor.symm), hmatches.first⟩
    index := fun hnone => (by cases hnone) }

/-- A step that is no command and displays no other update. -/
theorem StepDisplays.of_eq {e : Event} (hselection : h'.state.selection = h.state.selection)
    (hsent : h'.sent = h.sent) (hpage : Outdated h e → h'.state.page = h.state.page) :
    StepDisplays h e h' where
  revision_le := fun _ before hbefore => ⟨before, hselection.trans hbefore, Nat.le_refl _⟩
  sends := fun _ hcall hnew => absurd (hsent ▸ hcall) hnew
  accepts := fun _ _ _ hne => absurd hselection hne
  outdated := hpage

theorem Inv.pageAnswered (hi : Inv h) {call : PageCall} (hcall : .page call ∈ h.calls)
    (answer : Except StorageErrorCode CandidateQueryPageDto) :
    Inv (h.pageAnswered call answer) ∧
      StepDisplays h (.pageAnswer call answer) (h.pageAnswered call answer) := by
  -- the answered call is the only one
  obtain ⟨_, hcalls, _⟩ | ⟨other, hrunning, hcalls, hflight⟩ := hi.calls
  · cases hcalls ▸ hcall
  cases List.mem_singleton.mp (hcalls ▸ hcall)
  have hflight : PageInFlight h.mounted h.generation h.state call.task := hflight
  have hbase : Base { h with calls := [] } := { hi.toBase with }
  unfold ResultsWorkspace.pageAnswered
  rw [show h.calls.erase (.page call) = [] by simp [hcalls]]
  have hsettled : ∀ h', Settles { h with calls := [] } h' →
      (Outdated h (.pageAnswer call answer) → h'.state.page = h.state.page) →
      Inv h'.finish ∧ StepDisplays h (.pageAnswer call answer) h'.finish := by
    intro h' hs hpage
    obtain ⟨hinv, hstate, hsent⟩ := hs.base.finish hs.calls_eq
    refine ⟨hinv, .of_eq ?_ (hsent.trans hs.sent_eq) fun houtdated => ?_⟩
    · rw [hstate]
      exact hs.selection_eq
    · rw [hstate]
      exact hpage houtdated
  -- an outdated answer changes nothing
  by_cases hcurrent : h.taskIsCurrent call.task = true
  · have hnot : ∀ h' : ResultsWorkspace, Outdated h (.pageAnswer call answer) →
        h'.state.page = h.state.page := fun _ houtdated => absurd (hcurrent.symm.trans houtdated)
      (by decide)
    obtain ⟨_, hgeneration, _, _, hrevision⟩ := taskIsCurrent_iff.mp hcurrent
    have hmatches := hflight.current hgeneration hrevision.symm
    cases answer with
    | error code => exact hsettled _ (hbase.pageFailed hrunning call.task code) (hnot _)
    | ok page =>
      unfold pageSettled
      dsimp only
      have hguard : taskIsCurrent { h with calls := [] } call.task = true := hcurrent
      rw [if_neg (by simp [hguard])]
      split
      · exact hsettled _ (hbase.pageFailed hrunning call.task _) (hnot _)
      -- a page that is accepted is displayed with its selection, whose revision is no older
      · next haccepted =>
        have haccepted := Bool.eq_false_iff.mpr haccepted
        have hshown := hbase.showPage hmatches haccepted
        obtain ⟨hinv, hstate, hsent⟩ := hshown.finish rfl
        refine ⟨hinv, fun _ before hbefore => ?_, ?_, ?_, hnot _⟩
        · refine ⟨page.selection, congrArg _ hstate, ?_⟩
          simp only [pageRefused, Bool.or_eq_false_iff] at haccepted
          have hle := haccepted.2
          rw [hbefore] at hle
          simpa using hle
        · exact fun _ hcall hnew => absurd (hsent ▸ hcall) hnew
        · intro _ _ heq
          cases heq
  · have hunchanged :
      pageSettled call.task answer { h with calls := [] } = { h with calls := [] } := by
      have hguard : taskIsCurrent { h with calls := [] } call.task = false :=
        Bool.eq_false_iff.mpr hcurrent
      cases answer with
      | error code => exact if_pos (by simp [hguard])
      | ok page => exact if_pos (by simp [hguard])
    rw [hunchanged]
    exact hsettled _ ⟨hbase, rfl, rfl, rfl, id⟩ fun _ => rfl

/-- The page that is requested after an update, at the place of the page that is displayed. -/
theorem Base.refreshPage (hb : Base h) (hcalls : h.calls = []) (hrunning : h.running = true)
    {call : SelectionCall} (hgeneration : call.task.generation = h.generation)
    (hscan : h.state.scanId = some call.task.scanId)
    (hintent : h.state.requestRevision = call.operationIntentRevision)
    (hpage : h.state.page = some call.page) : Keeps h (h.refreshPage call) := by
  have hplace := hb.page call.page hpage
  unfold ResultsWorkspace.refreshPage
  -- a query of the selected candidates starts again at its first page, any other one stays where
  -- it is
  cases hselectedOnly : h.state.query.selectedOnly with
  | true =>
    simp only [hselectedOnly, if_true]
    refine ⟨?_, rfl, rfl⟩
    have hmatches : Matches h.generation h.state
        { kind := .page
          generation := call.task.generation
          intentRevision := call.operationIntentRevision
          scanId := call.task.scanId
          query := h.state.query
          sort := h.state.sort
          cursor := none
          pageIndex := 0
          cursorHistory := [none]
          expectedQueryId := none } := ⟨hgeneration, hintent.symm, hscan, rfl, rfl, rfl⟩
    refine { hb with tasks := ?_, page := ?_, index := fun _ => rfl, calls := ?_, sent := ?_ }
    · intro task htask
      obtain ⟨page, heq, hm⟩ := hb.tasks task htask
      exact ⟨page, heq, { hm with }⟩
    · intro page hpage
      cases hpage
    · refine .inr ⟨_, hrunning, congrArg _ hcalls, ?_⟩
      exact ⟨Nat.le_of_eq hgeneration, fun _ => Nat.le_of_eq hintent.symm, fun _ _ => rfl,
        fun _ _ => { hmatches with }⟩
    · intro update hupdate
      have hupdate : ResultCall.selection update ∈ ResultCall.page _ :: h.calls := hupdate
      simp only [hcalls, List.mem_singleton, reduceCtorEq] at hupdate
  | false =>
    simp only [hselectedOnly, Bool.false_eq_true, if_false]
    refine ⟨?_, rfl, rfl⟩
    refine { hb with calls := ?_, sent := ?_ }
    · refine .inr ⟨_, hrunning, congrArg _ hcalls, ?_⟩
      exact ⟨Nat.le_of_eq hgeneration, fun _ => Nat.le_of_eq hintent.symm,
        fun _ hother => absurd hintent.symm (hother hgeneration),
        fun _ _ => ⟨hgeneration, hintent.symm, hscan, rfl, hplace.cursor_eq, hplace.first⟩⟩
    · intro update hupdate
      have hupdate : ResultCall.selection update ∈ ResultCall.page _ :: h.calls := hupdate
      simp only [hcalls, List.mem_singleton, reduceCtorEq] at hupdate

/-- An accepted update is displayed, and the cached pages are dropped. -/
theorem Base.showSelection (hb : Base h) (selection : CandidateSelectionSummaryDto) :
    Base (h.commitState { h.state with
      selection := some selection, pageCache := [], error := none }) :=
  { hb with
    tasks := fun pending hpending => by
      obtain ⟨other, heq, hm⟩ := hb.tasks pending hpending
      exact ⟨other, heq, { hm with }⟩
    cache := fun cached hcached => (by cases hcached)
    page := fun shown hshown => { hb.page shown hshown with } }

theorem Inv.selectionAnswered (hi : Inv h) {call : SelectionCall}
    (hcall : .selection call ∈ h.calls)
    (answer : Except StorageErrorCode CandidateSelectionUpdateDto) :
    Inv (h.selectionAnswered call answer) ∧
      StepDisplays h (.selectionAnswer call answer) (h.selectionAnswered call answer) := by
  obtain ⟨_, hcalls, _⟩ | ⟨other, hrunning, hcalls, hflight⟩ := hi.calls
  · cases hcalls ▸ hcall
  cases List.mem_singleton.mp (hcalls ▸ hcall)
  have hflight : SelectionInFlight h.mounted h.generation h.state call := hflight
  have hbase : Base { h with calls := [] } := { hi.toBase with }
  unfold ResultsWorkspace.selectionAnswered
  rw [show h.calls.erase (.selection call) = [] by simp [hcalls]]
  have hsettled : ∀ h', Settles { h with calls := [] } h' →
      (Outdated h (.selectionAnswer call answer) → h'.state.page = h.state.page) →
      Inv h'.finish ∧ StepDisplays h (.selectionAnswer call answer) h'.finish := by
    intro h' hs hpage
    obtain ⟨hinv, hstate, hsent⟩ := hs.base.finish hs.calls_eq
    refine ⟨hinv, .of_eq ?_ (hsent.trans hs.sent_eq) fun houtdated => ?_⟩
    · rw [hstate]
      exact hs.selection_eq
    · rw [hstate]
      exact hpage houtdated
  unfold selectionSettled
  by_cases hcurrent : h.selectionIsCurrent call.task = true
  · obtain ⟨hmounted, hgeneration, hscan⟩ := selectionIsCurrent_iff.mp hcurrent
    have hguard : selectionIsCurrent { h with calls := [] } call.task = true := hcurrent
    -- an update of an earlier query finds no page on display
    have hnone : Outdated h (.selectionAnswer call answer) → h.state.page = none := by
      rintro (hfalse | hintent)
      · cases hcurrent.symm.trans hfalse
      · exact hflight.outdated hmounted fun _ => hintent.symm
    have hfailed : ∀ code, Inv (selectionFailed code { h with calls := [] }).finish ∧
        StepDisplays h (.selectionAnswer call answer)
          (selectionFailed code { h with calls := [] }).finish := by
      intro code
      have hs := hbase.selectionFailed hmounted hrunning code
      exact hsettled _ hs fun houtdated =>
        (hs.page_none (hnone houtdated)).trans (hnone houtdated).symm
    simp only [hguard, Bool.not_true, Bool.false_eq_true, if_false]
    cases answer with
    | error code => exact hfailed code
    | ok response =>
      dsimp only
      split
      · exact hfailed _
      · next haccepted =>
        simp only [selectionRefused, Bool.or_eq_true, decide_eq_true_eq, not_or, Decidable.not_not,
          Bool.not_eq_true', Bool.not_eq_false, nextSelectionRevision] at haccepted
        obtain ⟨⟨_, hresponse⟩, hnext⟩ := haccepted
        obtain ⟨before, hbefore, hexpected⟩ :=
          Option.map_eq_some_iff.mp (hflight.expected hgeneration)
        have hnext : bigInt response.selection.selectionRevision =
            bigInt before.selectionRevision + 1 := by
          rw [hexpected, ← hresponse, hnext]
        have hdisplays : ∀ h' : ResultsWorkspace,
            h'.state.selection = some response.selection → h'.sent = h.sent →
            (Outdated h (.selectionAnswer call (.ok response)) → h'.state.page = h.state.page) →
            StepDisplays h (.selectionAnswer call (.ok response)) h' := by
          intro h' hselection hsent hpage
          refine ⟨fun _ earlier hearlier => ⟨response.selection, hselection, ?_⟩, ?_, ?_, hpage⟩
          · cases hbefore.symm.trans hearlier
            omega
          · exact fun _ hmem hnew => absurd (hsent ▸ hmem) hnew
          · intro call' response' heq _
            cases heq
            exact ⟨before, hbefore, hselection, hnext⟩
        have hshown := hbase.showSelection response.selection
        split
        · obtain ⟨hinv, hstate, hsent⟩ := hshown.finish rfl
          have hpage := congrArg (·.page) hstate
          exact ⟨hinv, hdisplays _ (congrArg _ hstate) hsent fun _ => hpage⟩
        · next hintent =>
          have hintent := Decidable.not_not.mp hintent
          have hpage := (hflight.current hgeneration hintent.symm).2
          obtain ⟨hinv, hselection, hsent⟩ :=
            hshown.refreshPage rfl hrunning hgeneration hscan hintent hpage
          refine ⟨hinv, hdisplays _ hselection hsent fun houtdated => ?_⟩
          cases hpage.symm.trans (hnone houtdated)
  · have hguard : selectionIsCurrent { h with calls := [] } call.task = false :=
      Bool.eq_false_iff.mpr hcurrent
    simp only [hguard, Bool.not_false, if_true]
    exact hsettled _ ⟨hbase, rfl, rfl, rfl, id⟩ fun _ => rfl

/-! ## Effects and commands -/

/-- The calls of an earlier generation. -/
theorem InFlight.later {mounted mounted' : Bool} {generation : Nat} {s s' : ResultsWorkspaceState}
    {call : ResultCall} (hflight : InFlight mounted generation s call)
    (hpage : mounted' = true → s'.page = none) : InFlight mounted' (generation + 1) s' call := by
  cases call with
  | page call =>
    have hle := hflight.generation_le
    refine ⟨Nat.le_succ_of_le hle, fun heq => ?_, fun hmounted _ => hpage hmounted, fun heq => ?_⟩
    · omega
    · omega
  | selection call =>
    have hle := hflight.generation_le
    refine ⟨Nat.le_succ_of_le hle, fun heq => ?_, fun hmounted _ => hpage hmounted, fun heq => ?_,
      fun heq => ?_⟩
    · omega
    · omega
    · omega

/-- The state starts anew, mounted or not. -/
theorem Inv.mount (hi : Inv h) (runtimeAvailable : Bool) (scanId : Option String) :
    Inv (h.mount runtimeAvailable scanId) ∧ (h.mount runtimeAvailable scanId).sent = h.sent := by
  -- the new generation outdates what is still in flight
  have hinv : Inv { h with
      mounted := true
      generation := h.generation + 1
      intentRevision := 0
      tasks := []
      state := initialResultsState runtimeAvailable scanId } :=
    { hi with
      intent_eq := rfl
      tasks := fun task htask => (by cases htask)
      unmounted := fun _ => rfl
      cache := fun page hpage => (by cases hpage)
      page := fun page hpage => (by cases hpage)
      index := fun _ => rfl
      calls := by
        obtain ⟨hrunning, hcalls, _⟩ | ⟨call, hrunning, hcalls, hflight⟩ := hi.calls
        · exact .inl ⟨hrunning, hcalls, rfl⟩
        · exact .inr ⟨call, hrunning, hcalls, hflight.later fun _ => rfl⟩ }
  unfold ResultsWorkspace.mount ResultsWorkspace.bindScan
  dsimp only
  split
  · split
    · next task htask =>
      have hkeeps := hinv.enqueuePage rfl (freshQueryTask_matches htask).2
      exact ⟨hkeeps.inv, hkeeps.sent_eq⟩
    · exact ⟨hinv, rfl⟩
  · exact ⟨hinv, rfl⟩

theorem bindScan_eq_mount (hmounted : h.mounted = true) (runtimeAvailable : Bool)
    (scanId : Option String) :
    h.bindScan runtimeAvailable scanId = h.mount runtimeAvailable scanId := by
  unfold ResultsWorkspace.mount
  rw [← hmounted]

theorem Inv.unmount (hi : Inv h) : Keeps h h.unmount := by
  refine ⟨?_, rfl, rfl⟩
  exact { hi with
    tasks := fun task htask => (by cases htask)
    unmounted := fun _ => rfl
    calls := by
      obtain ⟨hrunning, hcalls, _⟩ | ⟨call, hrunning, hcalls, hflight⟩ := hi.calls
      · exact .inl ⟨hrunning, hcalls, rfl⟩
      · refine .inr ⟨call, hrunning, hcalls, hflight.later fun hfalse => ?_⟩
        cases hfalse }

section Execute

variable (hi : Inv h) (hmounted : h.mounted = true) (runtimeAvailable : Bool)
include hi hmounted

theorem Inv.submitSearch (search : String) : Keeps h (h.submitSearch runtimeAvailable search) := by
  unfold ResultsWorkspace.submitSearch
  split
  · exact hi.recordLocalQueryError
  · exact hi.scheduleIntent hmounted runtimeAvailable _ _

theorem Inv.toggleExtension (env : TextEnv) (extension : String) :
    Keeps h (h.toggleExtension runtimeAvailable env extension) := by
  unfold ResultsWorkspace.toggleExtension
  split
  · exact hi.recordLocalQueryError
  · dsimp only
    split
    · exact hi.recordLocalQueryError
    · exact hi.scheduleIntent hmounted runtimeAvailable _ _

theorem Inv.setScoreRange (minimum maximum : Option JsNumber) :
    Keeps h (h.setScoreRange runtimeAvailable minimum maximum) := by
  unfold ResultsWorkspace.setScoreRange
  split
  · split
    · exact hi.recordLocalQueryError
    · exact hi.scheduleIntent hmounted runtimeAvailable _ _
  · exact hi.recordLocalQueryError

theorem Inv.setSelectedOnly (selectedOnly : Bool) :
    Keeps h (h.setSelectedOnly runtimeAvailable selectedOnly) := by
  unfold ResultsWorkspace.setSelectedOnly
  split
  · exact hi.keeps
  · exact hi.scheduleIntent hmounted runtimeAvailable _ _

theorem Inv.retry : Keeps h (h.retry runtimeAvailable) := by
  unfold ResultsWorkspace.retry
  split
  · exact hi.keeps
  · exact hi.scheduleIntent hmounted runtimeAvailable _ _

theorem Inv.setCandidateSelected (candidateId : String) (selected : Bool)
    (hquiet : Selects h (.setCandidateSelected candidateId selected) → ¬PageOutstanding h) :
    Keeps h (h.setCandidateSelected candidateId selected) ∨
      ∃ call, Sends h call (h.setCandidateSelected candidateId selected) := by
  unfold ResultsWorkspace.setCandidateSelected
  split
  · exact .inl (hi.setPhase .error (some .resultSelectionInvalid))
  · next hvalid =>
    have hvalid : validCandidateId candidateId = true := by simpa using hvalid
    exact hi.enqueueSelection hmounted (fun haccepts => hquiet ⟨hvalid, haccepts⟩) _

/-- A careful command sends one update or none. -/
theorem Inv.execute (env : TextEnv) (command : Command)
    (hquiet : Selects h command → ¬PageOutstanding h) :
    Keeps h (h.execute env runtimeAvailable command) ∨
      ∃ call, Sends h call (h.execute env runtimeAvailable command) := by
  -- only the commands of the selection send an update
  cases command with
  | submitSearch search => exact .inl (hi.submitSearch hmounted runtimeAvailable search)
  | toggleExtension extension =>
    exact .inl (hi.toggleExtension hmounted runtimeAvailable env extension)
  | toggleKind kind => exact .inl (hi.scheduleIntent hmounted runtimeAvailable _ _)
  | toggleMetadataConfidence confidence =>
    exact .inl (hi.scheduleIntent hmounted runtimeAvailable _ _)
  | toggleMethod method => exact .inl (hi.scheduleIntent hmounted runtimeAvailable _ _)
  | toggleCandidateState candidateState =>
    exact .inl (hi.scheduleIntent hmounted runtimeAvailable _ _)
  | toggleEligibility eligibility => exact .inl (hi.scheduleIntent hmounted runtimeAvailable _ _)
  | setScoreRange minimum maximum =>
    exact .inl (hi.setScoreRange hmounted runtimeAvailable minimum maximum)
  | setSelectedOnly selectedOnly =>
    exact .inl (hi.setSelectedOnly hmounted runtimeAvailable selectedOnly)
  | sortBy field => exact .inl (hi.scheduleIntent hmounted runtimeAvailable _ _)
  | retry => exact .inl (hi.retry hmounted runtimeAvailable)
  | nextPage => exact .inl (hi.nextPage hmounted)
  | previousPage => exact .inl (hi.previousPage hmounted)
  | setCandidateSelected candidateId selected =>
    exact hi.setCandidateSelected hmounted candidateId selected hquiet
  | selectAllMatching => exact hi.enqueueSelection hmounted hquiet _
  | clearMatching => exact hi.enqueueSelection hmounted hquiet _
  | clearAll => exact hi.enqueueSelection hmounted hquiet _

end Execute

/-! ## Runs -/

theorem Keeps.displays (hkeeps : Keeps h h') {e : Event} (he : ¬Outdated h e) :
    StepDisplays h e h' :=
  .of_eq hkeeps.selection_eq hkeeps.sent_eq fun houtdated => absurd houtdated he

theorem Sends.displays {call : SelectionCall} (hsends : Sends h call h') {e : Event}
    (he : ¬Outdated h e) : StepDisplays h e h' where
  revision_le := fun _ before hbefore =>
    ⟨before, hsends.selection_eq.trans hbefore, Nat.le_refl _⟩
  sends := by
    intro sent hmem hnew
    rcases List.mem_cons.mp (hsends.sent_eq ▸ hmem) with rfl | hold
    · obtain ⟨selection, hselection, heq⟩ := Option.map_eq_some_iff.mp hsends.expected
      exact ⟨sent.page, selection, hsends.page_eq, hselection, rfl, heq.symm⟩
    · exact absurd hold hnew
  accepts := fun _ _ _ hne => absurd hsends.selection_eq hne
  outdated := fun houtdated => absurd houtdated he

/-- Every careful step keeps the invariant and displays what it may. -/
theorem inv_next {env : TextEnv} {runtimeAvailable : Bool} {e : Event} (hi : Inv h)
    (hcareful : Careful h e) (hnext : h.next env runtimeAvailable e = some h') :
    Inv h' ∧ StepDisplays h e h' := by
  -- a mount and a change of the scan bind the workspace anew
  have hbound : ∀ scanId, BindsScan e → (∀ call answer, e ≠ .selectionAnswer call answer) →
      ¬Outdated h e → h' = h.mount runtimeAvailable scanId → Inv h' ∧ StepDisplays h e h' := by
    intro scanId hbinds hanswer houtdated heq
    obtain ⟨hinv, hsent⟩ := hi.mount runtimeAvailable scanId
    rw [heq]
    refine ⟨hinv, fun hnot => absurd hbinds hnot, ?_, ?_, fun hold => absurd hold houtdated⟩
    · exact fun _ hcall hnew => absurd (hsent ▸ hcall) hnew
    · exact fun call response heq => absurd heq (hanswer call (.ok response))
  cases e with
  | mount scanId =>
    obtain ⟨_, heq⟩ := Option.ite_none_right_eq_some.mp hnext
    exact hbound scanId trivial (by simp) id (Option.some.inj heq).symm
  | unmount =>
    obtain ⟨_, heq⟩ := Option.ite_none_right_eq_some.mp hnext
    cases heq
    exact ⟨hi.unmount.inv, hi.unmount.displays id⟩
  | scanChange scanId =>
    obtain ⟨hmounted, heq⟩ := Option.ite_none_right_eq_some.mp hnext
    rw [bindScan_eq_mount hmounted] at heq
    exact hbound scanId trivial (by simp) id (Option.some.inj heq).symm
  | command command =>
    obtain ⟨hmounted, heq⟩ := Option.ite_none_right_eq_some.mp hnext
    cases heq
    obtain hkeeps | ⟨call, hsends⟩ := hi.execute hmounted runtimeAvailable env command hcareful
    · exact ⟨hkeeps.inv, hkeeps.displays id⟩
    · exact ⟨hsends.inv, hsends.displays id⟩
  | pageAnswer call answer =>
    obtain ⟨hcall, heq⟩ := Option.ite_none_right_eq_some.mp hnext
    cases heq
    exact hi.pageAnswered hcall answer
  | selectionAnswer call answer =>
    obtain ⟨hcall, heq⟩ := Option.ite_none_right_eq_some.mp hnext
    cases heq
    exact hi.selectionAnswered hcall answer

/-- What is displayed in every state that careful steps lead to, and after one more of them. -/
theorem reachable_displays_page (env : TextEnv) (runtimeAvailable : Bool) (scanId : Option String)
    (h : ResultsWorkspace)
    (hreach : Reachable (next env runtimeAvailable) Careful (initial runtimeAvailable scanId) h) :
    Displays h ∧ ∀ e h', Careful h e → h.next env runtimeAvailable e = some h' →
      StepDisplays h e h' := by
  have hi := hreach.invariant (inv_initial runtimeAvailable scanId) fun _ _ _ hi hcareful hnext =>
    (inv_next hi hcareful hnext).1
  exact ⟨hi.displays, fun e h' hcareful hnext => (inv_next hi hcareful hnext).2⟩

/-! ## An update that is answered behind another page -/

def plainText : TextEnv := ⟨id, id⟩

def selectionAt (revision : String) : CandidateSelectionSummaryDto :=
  ⟨revision, "0", "0", "0", "0", "0", "0", "0", "0"⟩

/-- A page of the first query. -/
def pageAt (cursor nextCursor : Option String) (revision : String) : CandidateQueryPageDto :=
  ⟨1, "s", "q", "0", cursor, nextCursor, "0", [], selectionAt revision, []⟩

def queryTask : PageTask where
  kind := .query
  generation := 1
  intentRevision := 0
  scanId := "s"
  query := initialQuery
  sort := ⟨.recoverabilityScore, .descending⟩
  cursor := none
  pageIndex := 0
  cursorHistory := [none]
  expectedQueryId := none

/-- The page behind the first one. -/
def secondTask : PageTask :=
  { queryTask with
    kind := .page, cursor := some "c", pageIndex := 1, cursorHistory := [none, some "c"],
    expectedQueryId := some "q" }

/-- The second page again, at the index of the first one. -/
def movedTask : PageTask := { secondTask with pageIndex := 0 }

def updateAt (requestId : Nat) (cursor nextCursor : Option String) : SelectionCall :=
  ⟨requestId, ⟨1, 1, "s", .selectAllMatching⟩, cachedPage (pageAt cursor nextCursor "0"), "0", 0⟩

def updateAnswer : CandidateSelectionUpdateDto := ⟨1, "s", "q", "1", selectionAt "1"⟩

/-- A page is shown, all its candidates are selected, and it is shown again. -/
def selectEvents : List Event :=
  [.mount (some "s"), .pageAnswer ⟨1, queryTask⟩ (.ok (pageAt none (some "c") "0")),
    .command .selectAllMatching, .selectionAnswer (updateAt 2 none (some "c")) (.ok updateAnswer),
    .pageAnswer ⟨3, { queryTask with kind := .page, expectedQueryId := some "q" }⟩
      (.ok (pageAt none (some "c") "1"))]

theorem reachable_displays_selected :
    ∃ h, Reachable.run (next plainText true) (initial true (some "s")) selectEvents = some h ∧
      h.state.page = some (cachedPage (pageAt none (some "c") "1")) ∧
      h.state.selection = some (selectionAt "1") ∧ Displays h := by
  have hallowed : Reachable.Allowed (next plainText true) Careful (initial true (some "s"))
      selectEvents := by
    refine ⟨trivial, trivial, ?_, trivial, trivial, trivial⟩
    rintro _ ⟨task, htask | ⟨requestId, hcall⟩, _⟩
    · cases htask
    · cases hcall
  exact ⟨_, rfl, rfl, rfl,
    (reachable_displays_page plainText true (some "s") _ (Reachable.init.of_run hallowed rfl)).1⟩

/-- The second page is requested, a refused search unlocks the selection, and all the candidates
    are selected; when the page is there, the first one is shown again before the update is
    answered. -/
def overlapEvents : List Event :=
  [.mount (some "s"), .pageAnswer ⟨1, queryTask⟩ (.ok (pageAt none (some "c") "0")),
    .command .nextPage, .command (.setScoreRange (some .other) none), .command .selectAllMatching,
    .pageAnswer ⟨2, secondTask⟩ (.ok (pageAt (some "c") none "0")), .command .previousPage,
    .selectionAnswer (updateAt 3 (some "c") none) (.ok updateAnswer),
    .pageAnswer ⟨4, movedTask⟩ (.ok (pageAt (some "c") none "1"))]

/-- The second page is on display at the index of the first one. -/
theorem refresh_moves_page :
    ∃ h, Reachable (next plainText true) (fun _ _ => True) (initial true (some "s")) h ∧
      h.state.page = some (cachedPage (pageAt (some "c") none "1")) ∧
      h.state.cursorHistory[h.state.currentPageIndex]? = some none ∧ ¬Displays h := by
  refine ⟨_, Reachable.init.of_run (Reachable.allowed_of_forall (fun _ _ => trivial) _
    overlapEvents) rfl, rfl, rfl, fun hdisplays => ?_⟩
  cases (hdisplays.page _ rfl).cursor_eq

end Undelete.Desktop.ResultsWorkspace
