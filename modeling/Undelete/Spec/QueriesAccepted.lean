import Undelete.Spec.AnswersAccepted

/-!
# Queries within the contract

Whatever the results workspace has requested, the query of the request is one that the native
side accepts (`reachable_queries_accepted`). The two sides check queries on their own and with
their own tables; the invariant is that every query in the state, in the queue and in flight has
passed the checks of the window (`ValidQuery`), and `ValidQuery.accepted` compares these with the
native ones. Texts with a lone surrogate, which no `String` is, are not covered: they cannot be
encoded for the native side as they are.
-/

namespace Undelete.Desktop

open Except

variable {env : RowEnv} {js : TextEnv}

/-! ## One query -/

/-- What the checks of the window leave of a query. -/
structure ValidQuery (env : RowEnv) (query : CandidateQuery) : Prop where
  revision : ∃ n : Nat, query.revision = toString n
  search : ResultsWorkspace.validSearch query.search = true
  extensionCount : query.extensions.length ≤ maxQueryExtensions
  extensions : ∀ extension ∈ query.extensions, extension = "" ∨ CanonicalExtension env extension
  minimum : ∀ low ∈ query.minRecoverabilityScore, low ≤ 100
  maximum : ∀ high ∈ query.maxRecoverabilityScore, high ≤ 100
  ordered : ∀ low ∈ query.minRecoverabilityScore, ∀ high ∈ query.maxRecoverabilityScore, low ≤ high

theorem validQuery_initial (env : RowEnv) : ValidQuery env initialQuery where
  revision := ⟨0, rfl⟩
  search := by decide
  extensionCount := by decide
  extensions _ h := by cases h
  minimum _ h := by cases h
  maximum _ h := by cases h
  ordered _ h := by cases h

theorem utf8ByteSize_digits {text : String} (h : text.toList.all Char.isDigit = true) :
    text.utf8ByteSize = text.length := by
  have hbytes : Bytes.ofString text = text.toList.flatMap String.utf8EncodeChar := by
    rw [← Bytes.ofString_ofList, String.ofList_toList]
  rw [← Bytes.length_ofString, hbytes, List.length_flatMap, ← String.length_toList]
  rw [List.all_eq_true] at h
  generalize text.toList = chars at h
  induction chars with
  | nil => rfl
  | cons c chars ih =>
    have hdigit := h c List.mem_cons_self
    have hone : (String.utf8EncodeChar c).length = 1 := by
      have hascii : c.val.toNat ≤ 0x7f := by
        simp only [Char.isDigit, ge_iff_le, UInt32.le_iff_toNat_le, Bool.and_eq_true,
          decide_eq_true_eq] at hdigit
        simp only [Char.reduceVal, UInt32.reduceToNat] at hdigit
        omega
      simp only [String.utf8EncodeChar]
      rw [if_pos hascii, List.length_singleton]
    rw [List.map_cons, List.sum_cons, List.length_cons, hone,
      ih fun other hother => h other (List.mem_cons_of_mem _ hother)]
    omega

/-- The native side reads back the decimal text of a word. -/
theorem parseDecimalU64_toString {n : Nat} (h : n < 2 ^ 64) :
    parseDecimalU64 (toString n) = .ok n := by
  have hdigits := Decimal.isDigit_toString n
  have hlength := Decimal.length_toString_le h
  have hvalue : (toString n).toList.foldl (fun m c => 10 * m + (c.toNat - '0'.toNat)) 0 = n :=
    bigInt_toString n
  unfold parseDecimalU64
  rw [if_neg]
  · dsimp only
    rw [hvalue, if_pos h]
  · rw [utf8ByteSize_digits hdigits, hdigits, not_or, not_or, not_or]
    refine ⟨?_, Nat.not_lt.mpr hlength, not_not.mpr rfl, ?_⟩
    · rw [String.isEmpty_iff, ← String.toList_eq_nil_iff, Decimal.toList_toString]
      exact Nat.toDigits_ne_nil
    · -- only the text of zero starts with a zero, and it has one digit
      intro hzero
      obtain ⟨hlong, hhead⟩ := hzero
      cases n with
      | zero => exact absurd hlong (by decide)
      | succ n =>
        have hnonzero := Decimal.head?_toString (Nat.zero_lt_succ n)
        rw [hhead] at hnonzero
        cases hnonzero

/-- What has passed the checks of the window passes the native ones. -/
theorem ValidQuery.accepted {query : CandidateQuery} (h : ValidQuery env query) :
    ∃ canonical, canonicalQuery env.toResultsEnv (sentQuery query) = .ok canonical := by
  have hrevision := parseDecimalU64_toString (n := min (bigInt query.revision) (2 ^ 53)) (by omega)
  obtain ⟨hlength, hforbidden⟩ : query.search.length ≤ maxQueryTextScalars ∧
      ∀ c ∈ query.search.toList, forbiddenQueryCharacter c = false := by
    have hsearch := h.search
    rw [ResultsWorkspace.validSearch, Bool.and_eq_true, decide_eq_true_eq, Bool.not_eq_true',
      List.any_eq_false] at hsearch
    refine ⟨hsearch.1, fun c hc => ?_⟩
    rw [Bool.eq_false_iff, ← forbiddenQueryCharacter_eq]
    exact hsearch.2 c hc
  have hextensions : query.extensions.mapM (fun extension =>
      if extension.isEmpty then Except.ok extension
      else okOr (canonicalExtension env.toResultsEnv extension) ResultAuthorityError.invalidQuery) =
      .ok query.extensions := by
    have hmap := @mapM_eq_ok ResultAuthorityError String String (fun extension =>
      if extension.isEmpty then Except.ok extension
      else okOr (canonicalExtension env.toResultsEnv extension) ResultAuthorityError.invalidQuery)
      id query.extensions ?_
    · rwa [List.map_id] at hmap
    · intro extension hextension
      by_cases hempty : extension = ""
      · rw [hempty]
        rfl
      · have hcanonical := ((h.extensions extension hextension).resolve_left hempty).canonical
          hempty
        rw [if_neg (by rwa [String.isEmpty_iff]), hcanonical]
        rfl
  have hscores : ¬(query.minRecoverabilityScore.any (· > 100) ∨
      query.maxRecoverabilityScore.any (· > 100) ∨ query.minRecoverabilityScore.any fun minimum =>
        query.maxRecoverabilityScore.any (minimum > ·)) := by
    simp only [Option.any_eq_true, decide_eq_true_eq, not_or, not_exists, not_and, Nat.not_lt,
      gt_iff_lt]
    exact ⟨h.minimum, h.maximum, fun low hlow high hhigh => h.ordered low hlow high hhigh⟩
  have hshape : ¬(query.search.length > maxQueryTextScalars ∨
      query.search.toList.any forbiddenQueryCharacter ∨
      query.extensions.length > maxQueryExtensions) := by
    simp only [not_or, Nat.not_lt, gt_iff_lt, Bool.not_eq_true, List.any_eq_false]
    exact ⟨hlength, fun c hc => by simp [hforbidden c hc], h.extensionCount⟩
  unfold canonicalQuery sentQuery
  dsimp only
  rw [hrevision, bind_ok, if_neg hshape, hextensions]
  exact ⟨_, if_neg hscores⟩

/-! ## The queries of a workspace -/

/-- The queries of the state, of the queue and of the commands that wait for an answer. -/
structure QueriesValid (env : RowEnv) (h : ResultsWorkspace) : Prop where
  state : ValidQuery env h.state.query
  tasks : ∀ task, .page task ∈ h.tasks → ValidQuery env task.query
  calls : ∀ call, .page call ∈ h.calls → ValidQuery env call.task.query

/-- The fields that hold no query change freely. -/
theorem QueriesValid.commitState {h : ResultsWorkspace} (hvalid : QueriesValid env h)
    {next : ResultsWorkspaceState} (hnext : next.query = h.state.query) :
    QueriesValid env (h.commitState next) :=
  ⟨by rw [show (h.commitState next).state = next from rfl, hnext]; exact hvalid.state,
    hvalid.tasks, hvalid.calls⟩

namespace ResultsWorkspace

variable {h : ResultsWorkspace} {task : PageTask}

theorem queriesValid_sendPage (hvalid : QueriesValid env h) (htask : ValidQuery env task.query) :
    QueriesValid env (h.sendPage task) where
  state := hvalid.state
  tasks := hvalid.tasks
  calls call hcall := by
    rcases List.mem_cons.mp hcall with heq | hold
    · cases heq
      exact htask
    · exact hvalid.calls call hold

/-- The queue is shifted until a task waits; no query is changed on the way. -/
theorem queriesValid_pumpTasks {tasks : List ResultTask}
    (htasks : ∀ task, .page task ∈ tasks → ValidQuery env task.query)
    (hstate : ValidQuery env h.state.query)
    (hcalls : ∀ call, .page call ∈ h.calls → ValidQuery env call.task.query) :
    QueriesValid env (pumpTasks tasks h) := by
  induction tasks generalizing h with
  | nil => exact ⟨hstate, fun _ hnone => (by cases hnone), hcalls⟩
  | cons task tasks ih =>
    have hrest : ∀ task, .page task ∈ tasks → ValidQuery env task.query :=
      fun task hmem => htasks task (List.mem_cons_of_mem _ hmem)
    cases task with
    | page task =>
      exact queriesValid_sendPage (h := { h with tasks, running := true })
        ⟨hstate, hrest, hcalls⟩ (htasks task List.mem_cons_self)
    | selection task =>
      unfold pumpTasks
      split
      · exact ih hrest hstate hcalls
      · split
        · refine ⟨hstate, hrest, fun call hcall => ?_⟩
          rcases List.mem_cons.mp hcall with heq | hold
          · cases heq
          · exact hcalls call hold
        · exact ih hrest hstate hcalls

theorem queriesValid_pump (hvalid : QueriesValid env h) : QueriesValid env h.pump := by
  unfold pump
  split
  · exact hvalid
  · exact queriesValid_pumpTasks hvalid.tasks hvalid.state hvalid.calls

theorem queriesValid_finish (hvalid : QueriesValid env h) : QueriesValid env h.finish :=
  queriesValid_pump (h := { h with running := false }) ⟨hvalid.state, hvalid.tasks, hvalid.calls⟩

theorem mem_enqueued {pending task : ResultTask}
    (hmem : pending ∈ (if task.isPage .query then h.tasks.filter (·.isSelection)
      else if task.isPage .page then h.tasks.filter (!·.isPage .page) else h.tasks) ++ [task]) :
    pending ∈ h.tasks ∨ pending = task := by
  rcases List.mem_append.mp hmem with hold | hnew
  · split at hold
    · exact .inl (List.mem_of_mem_filter hold)
    · split at hold
      · exact .inl (List.mem_of_mem_filter hold)
      · exact .inl hold
  · exact .inr (List.mem_singleton.mp hnew)

theorem queriesValid_enqueueTask (hvalid : QueriesValid env h) {task : ResultTask}
    (htask : ∀ page, task = .page page → ValidQuery env page.query) :
    QueriesValid env (h.enqueueTask task) := by
  refine queriesValid_pump ⟨hvalid.state, fun page hpage => ?_, hvalid.calls⟩
  rcases mem_enqueued hpage with hold | hnew
  · exact hvalid.tasks page hold
  · exact htask page hnew.symm

theorem queriesValid_enqueuePage (hvalid : QueriesValid env h) (htask : ValidQuery env task.query) :
    QueriesValid env (h.enqueueTask (.page task)) :=
  queriesValid_enqueueTask hvalid fun page heq => by
    cases heq
    exact htask

theorem freshQueryTask_query {generation : Nat} {current : ResultsWorkspaceState}
    (hfresh : freshQueryTask generation current = some task) : task.query = current.query := by
  obtain ⟨scanId, _, rfl⟩ := Option.map_eq_some_iff.mp hfresh
  rfl

theorem queriesValid_recover (hvalid : QueriesValid env h) :
    QueriesValid env h.recoverThroughFreshQuery := by
  unfold recoverThroughFreshQuery
  split
  · exact hvalid
  · next task hfresh =>
    refine queriesValid_enqueuePage (hvalid.commitState rfl) ?_
    rw [freshQueryTask_query hfresh]
    exact hvalid.state

/-! ## Answers -/

theorem queriesValid_pageFailed (hvalid : QueriesValid env h) (code : StorageErrorCode) :
    QueriesValid env (h.pageFailed task code) := by
  unfold pageFailed
  split
  · exact hvalid
  · split
    · exact queriesValid_recover hvalid
    · exact hvalid.commitState rfl

theorem queriesValid_pageAnswered (hvalid : QueriesValid env h) (call : PageCall)
    (answer : Except StorageErrorCode CandidateQueryPageDto) :
    QueriesValid env (h.pageAnswered call answer) := by
  have hrest : QueriesValid env { h with calls := h.calls.erase (.page call) } :=
    ⟨hvalid.state, hvalid.tasks, fun other hother =>
      hvalid.calls other (List.mem_of_mem_erase hother)⟩
  apply queriesValid_finish
  cases answer with
  | error code => exact queriesValid_pageFailed hrest code
  | ok page =>
    unfold pageSettled
    dsimp only
    split
    · exact hrest
    · split
      · exact queriesValid_pageFailed hrest _
      · exact hrest.commitState rfl

theorem queriesValid_refreshPage (hvalid : QueriesValid env h) (call : SelectionCall) :
    QueriesValid env (h.refreshPage call) := by
  unfold refreshPage
  refine queriesValid_sendPage ?_ hvalid.state
  split
  · exact hvalid.commitState rfl
  · exact hvalid

theorem queriesValid_selectionAnswered (hvalid : QueriesValid env h) (call : SelectionCall)
    (answer : Except StorageErrorCode CandidateSelectionUpdateDto) :
    QueriesValid env (h.selectionAnswered call answer) := by
  have hrest : QueriesValid env { h with calls := h.calls.erase (.selection call) } :=
    ⟨hvalid.state, hvalid.tasks, fun other hother =>
      hvalid.calls other (List.mem_of_mem_erase hother)⟩
  have hfailed : ∀ code, QueriesValid env
      (selectionFailed code { h with calls := h.calls.erase (.selection call) }) := by
    intro code
    unfold selectionFailed
    split
    · exact queriesValid_recover hrest
    · exact hrest.commitState rfl
  have hsettled : QueriesValid env
      (selectionSettled call answer { h with calls := h.calls.erase (.selection call) }).1 := by
    unfold selectionSettled
    split
    · exact hrest
    · cases answer with
      | error code => exact hfailed code
      | ok response =>
        dsimp only
        split
        · show QueriesValid env (selectionFailed .reportIncompatible _)
          exact hfailed .reportIncompatible
        · split
          · exact hrest.commitState rfl
          · refine queriesValid_refreshPage ?_ call
            exact hrest.commitState rfl
  unfold selectionAnswered
  dsimp only
  split
  · exact hsettled
  · exact queriesValid_finish hsettled

/-! ## Effects and commands -/

theorem queriesValid_bindScan (hvalid : QueriesValid env h) (runtimeAvailable : Bool)
    (scanId : Option String) : QueriesValid env (h.bindScan runtimeAvailable scanId) := by
  have hquery : (initialResultsState runtimeAvailable scanId).query = initialQuery := rfl
  have hfresh : QueriesValid env { h with
      generation := h.generation + 1
      intentRevision := 0
      tasks := []
      state := initialResultsState runtimeAvailable scanId } :=
    ⟨validQuery_initial env, fun _ hnone => (by cases hnone), hvalid.calls⟩
  unfold bindScan
  dsimp only
  split
  · split
    · next task htask =>
      refine queriesValid_enqueuePage hfresh ?_
      rw [freshQueryTask_query htask, hquery]
      exact validQuery_initial env
    · exact hfresh
  · exact hfresh

/-- A new query gets the next revision, and replaces the one of the state. -/
theorem queriesValid_scheduleIntent (hvalid : QueriesValid env h) (runtimeAvailable : Bool)
    {query : CandidateQuery}
    (hquery : ∀ n : Nat, ValidQuery env { query with revision := toString n })
    (sort : CandidateSort) : QueriesValid env (h.scheduleIntent runtimeAvailable query sort) := by
  unfold scheduleIntent
  dsimp only
  split
  · exact hvalid
  · split
    · next task htask =>
      refine queriesValid_enqueuePage ⟨hquery _, hvalid.tasks, hvalid.calls⟩ ?_
      rw [freshQueryTask_query htask]
      exact hquery _
    · exact ⟨hquery _, hvalid.tasks, hvalid.calls⟩

/-- The query of the state under a new revision. -/
theorem queriesValid_reschedule (hvalid : QueriesValid env h) (runtimeAvailable : Bool)
    (sort : CandidateSort) :
    QueriesValid env (h.scheduleIntent runtimeAvailable h.state.query sort) :=
  queriesValid_scheduleIntent hvalid runtimeAvailable
    (fun n => { hvalid.state with revision := ⟨n, rfl⟩ }) sort

theorem queriesValid_toggleExtension (laws : TextLaws env) (agree : TablesAgree env js)
    (hvalid : QueriesValid env h) (runtimeAvailable : Bool) (extension : String) :
    QueriesValid env (h.toggleExtension runtimeAvailable js extension) := by
  unfold toggleExtension
  split
  · exact hvalid.commitState rfl
  · next normalized hnormalized =>
    have hcanonical := canonicalExtension_workspace laws agree hnormalized
    dsimp only
    split
    · exact hvalid.commitState rfl
    · next hcount =>
      refine queriesValid_scheduleIntent hvalid runtimeAvailable (fun n => ?_) _
      refine { hvalid.state with
        revision := ⟨n, rfl⟩
        extensionCount := Nat.not_lt.mp hcount
        extensions := fun other hother => ?_ }
      -- toggling adds the new extension at most
      have hother : other ∈ toggleValue h.state.query.extensions normalized := hother
      unfold toggleValue at hother
      split at hother
      · exact hvalid.state.extensions other (List.mem_of_mem_filter hother)
      · rcases List.mem_append.mp hother with hold | hnew
        · exact hvalid.state.extensions other hold
        · rw [List.mem_singleton.mp hnew]
          exact hcanonical

theorem validScore_eq_some {score : Option JsNumber} {value : Option Nat}
    (hscore : validScore score = some value) : ∀ n ∈ value, n ≤ 100 := by
  intro n hn
  unfold validScore at hscore
  split at hscore
  · cases hscore
    cases hn
  · split at hscore
    · next hrange =>
      rw [Bool.and_eq_true, decide_eq_true_eq, decide_eq_true_eq] at hrange
      cases hscore
      cases hn
      omega
    · cases hscore
  · cases hscore

theorem queriesValid_setScoreRange (hvalid : QueriesValid env h) (runtimeAvailable : Bool)
    (minimum maximum : Option JsNumber) :
    QueriesValid env (h.setScoreRange runtimeAvailable minimum maximum) := by
  unfold setScoreRange
  split
  · next low high hlow hhigh =>
    split
    · exact hvalid.commitState rfl
    · next hordered =>
      simp only [Option.any_eq_true, decide_eq_true_eq, not_exists, not_and, gt_iff_lt,
        Nat.not_lt] at hordered
      refine queriesValid_scheduleIntent hvalid runtimeAvailable (fun n => ?_) _
      exact { hvalid.state with
        revision := ⟨n, rfl⟩
        minimum := validScore_eq_some hlow
        maximum := validScore_eq_some hhigh
        ordered := fun lower hlower upper hupper => hordered lower hlower upper hupper }
  · exact hvalid.commitState rfl

theorem queriesValid_requestPage (hvalid : QueriesValid env h) (cursor : Option String)
    (pageIndex : Nat) (cursorHistory : List (Option String)) :
    QueriesValid env (h.requestPage cursor pageIndex cursorHistory) := by
  unfold requestPage
  split
  · exact queriesValid_enqueuePage (hvalid.commitState rfl) hvalid.state
  · exact hvalid

theorem queriesValid_activatePage (hvalid : QueriesValid env h) (cursor : String) (pageIndex : Nat)
    (cursorHistory : List (Option String)) :
    QueriesValid env (h.activatePage cursor pageIndex cursorHistory) := by
  unfold activatePage
  split
  · exact hvalid.commitState rfl
  · exact queriesValid_requestPage hvalid _ _ _

theorem queriesValid_previousPage (hvalid : QueriesValid env h) :
    QueriesValid env h.previousPage := by
  unfold previousPage
  dsimp only
  split
  · exact hvalid
  · split
    · exact hvalid
    · split
      · split
        · exact hvalid.commitState rfl
        · exact queriesValid_requestPage hvalid _ _ _
      · exact hvalid
    · exact queriesValid_activatePage hvalid _ _ _

theorem queriesValid_nextPage (hvalid : QueriesValid env h) : QueriesValid env h.nextPage := by
  unfold nextPage
  split
  · exact hvalid
  · split
    · exact hvalid
    · exact queriesValid_activatePage hvalid _ _ _

theorem queriesValid_enqueueSelection (hvalid : QueriesValid env h)
    (operation : SelectionOperationDto) : QueriesValid env (h.enqueueSelection operation) := by
  unfold enqueueSelection
  split
  · exact hvalid
  · dsimp only
    split
    · exact hvalid
    · refine queriesValid_enqueueTask ?_ fun page heq => (by cases heq)
      exact ⟨hvalid.state, hvalid.tasks, hvalid.calls⟩

theorem queriesValid_execute (laws : TextLaws env) (agree : TablesAgree env js)
    (hvalid : QueriesValid env h) (runtimeAvailable : Bool) (command : Command) :
    QueriesValid env (h.execute js runtimeAvailable command) := by
  cases command with
  | submitSearch search =>
    show QueriesValid env (h.submitSearch runtimeAvailable search)
    unfold submitSearch
    split
    · exact hvalid.commitState rfl
    · next hsearch =>
      rw [Bool.not_eq_true', Bool.not_eq_false] at hsearch
      refine queriesValid_scheduleIntent hvalid runtimeAvailable (fun n => ?_) _
      exact { hvalid.state with revision := ⟨n, rfl⟩, search := hsearch }
  | toggleExtension extension =>
    exact queriesValid_toggleExtension laws agree hvalid runtimeAvailable extension
  | toggleKind _ | toggleMetadataConfidence _ | toggleMethod _ | toggleCandidateState _
  | toggleEligibility _ =>
    -- nothing that is checked changes
    refine queriesValid_scheduleIntent hvalid runtimeAvailable (fun n => ?_) _
    exact { hvalid.state with revision := ⟨n, rfl⟩ }
  | setScoreRange minimum maximum =>
    exact queriesValid_setScoreRange hvalid runtimeAvailable minimum maximum
  | setSelectedOnly selectedOnly =>
    show QueriesValid env (h.setSelectedOnly runtimeAvailable selectedOnly)
    unfold setSelectedOnly
    split
    · exact hvalid
    · refine queriesValid_scheduleIntent hvalid runtimeAvailable (fun n => ?_) _
      exact { hvalid.state with revision := ⟨n, rfl⟩ }
  | sortBy field => exact queriesValid_reschedule hvalid runtimeAvailable _
  | retry =>
    show QueriesValid env (h.retry runtimeAvailable)
    unfold retry
    split
    · exact hvalid
    · exact queriesValid_reschedule hvalid runtimeAvailable _
  | nextPage => exact queriesValid_nextPage hvalid
  | previousPage => exact queriesValid_previousPage hvalid
  | setCandidateSelected candidateId selected =>
    show QueriesValid env (h.setCandidateSelected candidateId selected)
    unfold setCandidateSelected
    split
    · exact hvalid.commitState rfl
    · exact queriesValid_enqueueSelection hvalid _
  | selectAllMatching | clearMatching | clearAll => exact queriesValid_enqueueSelection hvalid _

/-! ## Steps and runs -/

/-- Every step keeps the invariant. -/
theorem queriesValid_next {h' : ResultsWorkspace} {runtimeAvailable : Bool} {e : Event}
    (laws : TextLaws env) (agree : TablesAgree env js) (hvalid : QueriesValid env h)
    (hnext : h.next js runtimeAvailable e = some h') : QueriesValid env h' := by
  cases e with
  | mount scanId =>
    obtain ⟨_, heq⟩ := Option.ite_none_right_eq_some.mp hnext
    cases heq
    exact queriesValid_bindScan (h := { h with mounted := true })
      ⟨hvalid.state, hvalid.tasks, hvalid.calls⟩ runtimeAvailable scanId
  | unmount =>
    obtain ⟨_, heq⟩ := Option.ite_none_right_eq_some.mp hnext
    cases heq
    exact ⟨hvalid.state, fun _ hnone => (by cases hnone), hvalid.calls⟩
  | scanChange scanId =>
    obtain ⟨_, heq⟩ := Option.ite_none_right_eq_some.mp hnext
    cases heq
    exact queriesValid_bindScan hvalid runtimeAvailable scanId
  | command command =>
    obtain ⟨_, heq⟩ := Option.ite_none_right_eq_some.mp hnext
    cases heq
    exact queriesValid_execute laws agree hvalid runtimeAvailable command
  | pageAnswer call answer =>
    obtain ⟨_, heq⟩ := Option.ite_none_right_eq_some.mp hnext
    cases heq
    exact queriesValid_pageAnswered hvalid call answer
  | selectionAnswer call answer =>
    obtain ⟨_, heq⟩ := Option.ite_none_right_eq_some.mp hnext
    cases heq
    exact queriesValid_selectionAnswered hvalid call answer

/-- In every state that events lead to, in any order and with any answers, the native side
    accepts the query of every page that is requested. -/
theorem reachable_queries_accepted (laws : TextLaws env) (agree : TablesAgree env js)
    (runtimeAvailable : Bool) (scanId : Option String) {h : ResultsWorkspace}
    (hreach : Reachable (next js runtimeAvailable) (fun _ _ => True)
      (initial runtimeAvailable scanId) h) :
    ∀ call, .page call ∈ h.calls → ∃ canonical,
      canonicalQuery env.toResultsEnv (sentQuery call.task.query) = .ok canonical := by
  have hinitial : QueriesValid env (initial runtimeAvailable scanId) :=
    ⟨validQuery_initial env, fun _ hnone => (by cases hnone), fun _ hnone => (by cases hnone)⟩
  have hvalid := hreach.invariant hinitial fun _ _ _ hvalid _ hnext =>
    queriesValid_next laws agree hvalid hnext
  intro call hcall
  exact (hvalid.calls call hcall).accepted

/-- An extension is added to the first query once its page is there. -/
def extensionEvents : List Event :=
  [.mount (some "s"), .pageAnswer ⟨1, queryTask⟩ (.ok (pageAt none (some "c") "0")),
    .command (.toggleExtension "jpg")]

theorem reachable_queries_accepted_extension :
    ∃ h call canonical,
      Reachable.run (next plainText true) (initial true (some "s")) extensionEvents = some h ∧
      .page call ∈ h.calls ∧ call.task.query.extensions = ["jpg"] ∧
      canonicalQuery reportEnv.toResultsEnv (sentQuery call.task.query) = .ok canonical := by
  have hreach : Reachable (next plainText true) (fun _ _ => True) (initial true (some "s")) _ :=
    Reachable.init.of_run (Reachable.allowed_of_forall (fun _ _ => trivial) _ extensionEvents) rfl
  obtain ⟨canonical, hcanonical⟩ := reachable_queries_accepted reportEnv_laws reportEnv_agrees
    true (some "s") hreach _ List.mem_cons_self
  exact ⟨_, _, canonical, rfl, List.mem_cons_self, rfl, hcanonical⟩

end ResultsWorkspace

end Undelete.Desktop
