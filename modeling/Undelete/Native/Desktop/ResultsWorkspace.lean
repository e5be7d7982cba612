import Undelete.Native.Desktop.Results
import Undelete.Native.Desktop.StorageScan

/-!
# The results workspace of the window

Model of the hook `useResultsWorkspace` in `apps/desktop/src/state/resultsWorkspace.ts`. The
hook commits every state to `stateRef` at once, so `state` is both. Tasks run one after the
other; a task runs up to its native command in one step, and goes on in another one when the
answer arrives. The tables behind `trim` and `toLocaleLowerCase` are parameters, and `bigInt`
reads texts that the parser of the answers has checked. A text is a `String`, so texts with a lone
surrogate, which a JavaScript string may hold, are left out.

The fields of `ResultsWorkspace` after the calls, and the numbers of the selection commands,
record what has happened; no operation reads them.
-/

namespace Undelete.Desktop

def maxCandidatesPerPage : Nat := 100
def maxCachedPages : Nat := 3

/-- `BigInt` of a text of decimal digits. -/
def bigInt (text : String) : Nat := Nat.ofDigitChars 10 text.toList 0

/-- What the hook takes from the JavaScript engine. -/
structure TextEnv where
  trim : String → String
  toLocaleLowerCase : String → String

/-- A number: an integer, or any other one. -/
inductive JsNumber where
  | int (n : Int)
  | other
deriving DecidableEq, Repr

inductive ResultsWorkspacePhase where
  | idle
  | loading
  | ready
  | error
deriving DecidableEq, Repr

inductive ResultsSelectionPhase where
  | idle
  | updating
deriving DecidableEq, Repr

structure CachedCandidatePage where
  scanId : String
  queryId : String
  queryRevision : String
  cursor : Option String
  nextCursor : Option String
  filteredTotal : String
  candidates : List ActionableCandidateRowDto
deriving DecidableEq, Repr

structure ResultsWorkspaceState where
  phase : ResultsWorkspacePhase
  scanId : Option String
  query : CandidateQuery
  sort : CandidateSort
  requestRevision : Nat
  currentPageIndex : Nat
  cursorHistory : List (Option String)
  pageCache : List CachedCandidatePage
  page : Option CachedCandidatePage
  selection : Option CandidateSelectionSummaryDto
  extensionFacets : List ExtensionFacetDto
  selectionPhase : ResultsSelectionPhase
  error : Option StorageErrorCode
deriving DecidableEq, Repr

inductive PageTaskKind where
  | query
  | page
deriving DecidableEq, Repr

structure PageTask where
  kind : PageTaskKind
  generation : Nat
  intentRevision : Nat
  scanId : String
  query : CandidateQuery
  sort : CandidateSort
  cursor : Option String
  pageIndex : Nat
  cursorHistory : List (Option String)
  expectedQueryId : Option String
deriving DecidableEq, Repr

structure SelectionTask where
  /-- Which selection command this is. -/
  number : Nat
  generation : Nat
  scanId : String
  operation : SelectionOperationDto
deriving DecidableEq, Repr

inductive ResultTask where
  | page (task : PageTask)
  | selection (task : SelectionTask)
deriving DecidableEq, Repr

def ResultTask.isSelection : ResultTask → Bool
  | .page _ => false
  | .selection _ => true

/-- Whether the task is a page task of the given kind. -/
def ResultTask.isPage (kind : PageTaskKind) : ResultTask → Bool
  | .page task => task.kind = kind
  | .selection _ => false

/-- `runPageTask`, waiting for `queryCandidatePage`. -/
structure PageCall where
  requestId : Nat
  task : PageTask
deriving DecidableEq, Repr

/-- `runSelectionTask`, waiting for `updateCandidateSelection`; `page` is the page that was
    displayed before. -/
structure SelectionCall where
  requestId : Nat
  task : SelectionTask
  page : CachedCandidatePage
  expectedRevision : String
  operationIntentRevision : Nat
deriving DecidableEq, Repr

/-- The query id that the update is sent with. -/
def SelectionCall.queryId (call : SelectionCall) : String := call.page.queryId

inductive ResultCall where
  | page (call : PageCall)
  | selection (call : SelectionCall)
deriving DecidableEq, Repr

structure ResultsWorkspace where
  state : ResultsWorkspaceState
  mounted : Bool := false
  generation : Nat := 0
  intentRevision : Nat := 0
  tasks : List ResultTask := []
  running : Bool := false
  requestSequence : Nat := 0
  calls : List ResultCall := []
  /-- How many selection commands were accepted. -/
  commands : Nat := 0
  /-- The selection updates that were sent. -/
  sent : List SelectionCall := []
deriving DecidableEq, Repr

/-! ## Values -/

def initialQuery : CandidateQuery where
  revision := "0"
  search := ""
  extensions := []
  kinds := []
  metadataConfidences := []
  methods := []
  states := []
  minRecoverabilityScore := none
  maxRecoverabilityScore := none
  eligibilities := []
  selectedOnly := false

def initialResultsState (runtimeAvailable : Bool) (scanId : Option String) :
    ResultsWorkspaceState where
  phase := if runtimeAvailable && scanId ≠ none then .loading else .idle
  scanId
  query := initialQuery
  sort := ⟨.recoverabilityScore, .descending⟩
  requestRevision := 0
  currentPageIndex := 0
  cursorHistory := [none]
  pageCache := []
  page := none
  selection := none
  extensionFacets := []
  selectionPhase := .idle
  error := none

def cachedPage (page : CandidateQueryPageDto) : CachedCandidatePage where
  scanId := page.scanId
  queryId := page.queryId
  queryRevision := page.queryRevision
  cursor := page.cursor
  nextCursor := page.nextCursor
  filteredTotal := page.filteredTotal
  candidates := page.candidates

def touchPage (pages : List CachedCandidatePage) (page : CachedCandidatePage) :
    List CachedCandidatePage :=
  let touched := (pages.filter fun cached =>
    cached.queryRevision ≠ page.queryRevision || cached.cursor ≠ page.cursor) ++ [page]
  touched.drop (touched.length - maxCachedPages)

def toggleValue {α : Type} [DecidableEq α] (values : List α) (value : α) : List α :=
  if value ∈ values then values.filter (· ≠ value) else values ++ [value]

/-- `validScore`, with the score it lets through. -/
def validScore : Option JsNumber → Option (Option Nat)
  | none => some none
  | some (.int n) => if 0 ≤ n && n ≤ 100 then some (some n.toNat) else none
  | some .other => none

/-- The regular expression `^(0|[1-9][0-9]*)$`. -/
def isUnsignedDecimal (text : String) : Bool :=
  text = "0" || (text.toList.all Char.isDigit && text.toList.head?.any (· ≠ '0'))

def validCandidateId (candidateId : String) : Bool :=
  isUnsignedDecimal candidateId && candidateId.length ≤ 20 && bigInt candidateId < 2 ^ 64

def nextSelectionRevision (current next : String) : Bool := bigInt next = bigInt current + 1

def isRecoverableStaleError (code : StorageErrorCode) : Bool :=
  code = .resultCursorStale || code = .resultSelectionStale

namespace ResultsWorkspace

def forbiddenQueryCharacter (c : Char) : Bool :=
  let codePoint := c.toNat
  codePoint ≤ 0x1f || (0x7f ≤ codePoint && codePoint ≤ 0x9f) || codePoint = 0x061c ||
    codePoint = 0x200e || codePoint = 0x200f || (0x202a ≤ codePoint && codePoint ≤ 0x202e) ||
    (0x2066 ≤ codePoint && codePoint ≤ 0x2069) || codePoint = 0xfeff

def validSearch (search : String) : Bool :=
  search.length ≤ maxQueryTextScalars && !search.toList.any forbiddenQueryCharacter

def canonicalExtension (env : TextEnv) (extension : String) : Option String :=
  if extension = "" then some ""
  else if extension.toList.any forbiddenQueryCharacter then none
  else
    let trimmed := env.trim extension
    if trimmed.length = 0 || trimmed.length > maxExtensionScalars || trimmed.toList.contains '.' ||
        trimmed.toList.contains '/' || trimmed.toList.contains '\\' then none
    else
      let normalized := env.toLocaleLowerCase trimmed
      if normalized.length ≤ maxExtensionScalars then some normalized else none

def initial (runtimeAvailable : Bool) (scanId : Option String) : ResultsWorkspace where
  state := initialResultsState runtimeAvailable scanId

def commitState (h : ResultsWorkspace) (next : ResultsWorkspaceState) : ResultsWorkspace :=
  { h with state := next }

/-! ## The queue -/

def sendPage (task : PageTask) (h : ResultsWorkspace) : ResultsWorkspace :=
  { h with
    requestSequence := h.requestSequence + 1
    calls := .page ⟨h.requestSequence + 1, task⟩ :: h.calls }

def selectionIsCurrent (h : ResultsWorkspace) (task : SelectionTask) : Bool :=
  h.mounted && task.generation = h.generation && h.state.scanId = some task.scanId

/-- Shifts tasks until one waits for a native command. -/
def pumpTasks : List ResultTask → ResultsWorkspace → ResultsWorkspace
  | [], h => { h with tasks := [] }
  | .page task :: tasks, h => { h with tasks, running := true }.sendPage task
  | .selection task :: tasks, h =>
    if !h.selectionIsCurrent task then pumpTasks tasks h
    else
      match h.state.page, h.state.selection with
      | some page, some selection =>
        let call : SelectionCall :=
          ⟨h.requestSequence + 1, task, page, selection.selectionRevision, h.state.requestRevision⟩
        { h with
          tasks
          running := true
          requestSequence := h.requestSequence + 1
          calls := .selection call :: h.calls
          sent := call :: h.sent }
      | _, _ => pumpTasks tasks (h.commitState { h.state with selectionPhase := .idle })

def pump (h : ResultsWorkspace) : ResultsWorkspace :=
  if !h.mounted || h.running then h else pumpTasks h.tasks h

/-- The `finally` of a task. -/
def finish (h : ResultsWorkspace) : ResultsWorkspace := { h with running := false }.pump

def enqueueTask (task : ResultTask) (h : ResultsWorkspace) : ResultsWorkspace :=
  let pending :=
    if task.isPage .query then h.tasks.filter (·.isSelection)
    else if task.isPage .page then h.tasks.filter (!·.isPage .page)
    else h.tasks
  { h with tasks := pending ++ [task] }.pump

def failWith (code : StorageErrorCode) (h : ResultsWorkspace) : ResultsWorkspace :=
  h.commitState { h.state with
    phase := if h.state.page = none then .error else .ready
    selectionPhase := .idle
    error := some code }

def freshQueryTask (generation : Nat) (current : ResultsWorkspaceState) : Option PageTask :=
  current.scanId.map fun scanId =>
    { kind := .query
      generation
      intentRevision := current.requestRevision
      scanId
      query := current.query
      sort := current.sort
      cursor := none
      pageIndex := 0
      cursorHistory := [none]
      expectedQueryId := none }

def recoverThroughFreshQuery (h : ResultsWorkspace) : ResultsWorkspace :=
  match freshQueryTask h.generation h.state with
  | none => h
  | some task =>
    (h.commitState { h.state with
      phase := .loading
      currentPageIndex := 0
      cursorHistory := [none]
      pageCache := []
      page := none
      error := none }).enqueueTask (.page task)

/-! ## Page tasks -/

def taskIsCurrent (h : ResultsWorkspace) (task : PageTask) : Bool :=
  h.mounted && task.generation = h.generation && task.intentRevision = h.intentRevision &&
    h.state.scanId = some task.scanId && h.state.requestRevision = task.intentRevision

/-- The `catch` of `runPageTask`. -/
def pageFailed (task : PageTask) (code : StorageErrorCode) (h : ResultsWorkspace) :
    ResultsWorkspace :=
  if !h.taskIsCurrent task then h
  else if isRecoverableStaleError code && task.cursor ≠ none then h.recoverThroughFreshQuery
  else h.failWith code

/-- Whether `applyNativePage` refuses the answer. -/
def pageRefused (h : ResultsWorkspace) (task : PageTask) (page : CandidateQueryPageDto) : Bool :=
  page.scanId ≠ task.scanId || page.queryRevision ≠ task.query.revision ||
    page.cursor ≠ task.cursor ||
    (task.expectedQueryId ≠ none && some page.queryId ≠ task.expectedQueryId) ||
    page.candidates.length > maxCandidatesPerPage ||
    h.state.selection.any fun selection =>
      bigInt page.selection.selectionRevision < bigInt selection.selectionRevision

/-- The part of `runPageTask` behind its `await`. -/
def pageSettled (task : PageTask) (answer : Except StorageErrorCode CandidateQueryPageDto)
    (h : ResultsWorkspace) : ResultsWorkspace :=
  match answer with
  | .error code => h.pageFailed task code
  | .ok page =>
    if !h.taskIsCurrent task then h
    else if h.pageRefused task page then h.pageFailed task .reportIncompatible
    else
      h.commitState { h.state with
        phase := .ready
        currentPageIndex := task.pageIndex
        cursorHistory := task.cursorHistory
        pageCache := touchPage h.state.pageCache (cachedPage page)
        page := some (cachedPage page)
        selection := some page.selection
        extensionFacets := page.extensionFacets
        selectionPhase := .idle
        error := none }

def pageAnswered (call : PageCall) (answer : Except StorageErrorCode CandidateQueryPageDto)
    (h : ResultsWorkspace) : ResultsWorkspace :=
  ({ h with calls := h.calls.erase (.page call) }.pageSettled call.task answer).finish

/-! ## Selection tasks -/

/-- The `catch` of `runSelectionTask`, for a task that is current. -/
def selectionFailed (code : StorageErrorCode) (h : ResultsWorkspace) : ResultsWorkspace :=
  if isRecoverableStaleError code then h.recoverThroughFreshQuery else h.failWith code

/-- Whether `runSelectionTask` refuses the answer. -/
def selectionRefused (call : SelectionCall) (response : CandidateSelectionUpdateDto) : Bool :=
  response.scanId ≠ call.task.scanId || response.queryId ≠ call.queryId ||
    response.selectionRevision ≠ response.selection.selectionRevision ||
    !nextSelectionRevision call.expectedRevision response.selectionRevision

/-- The page is queried again after an update of the selection. -/
def refreshPage (call : SelectionCall) (h : ResultsWorkspace) : ResultsWorkspace :=
  let current := h.state
  let h :=
    if current.query.selectedOnly then
      h.commitState { current with
        phase := .loading, currentPageIndex := 0, cursorHistory := [none], page := none }
    else h
  h.sendPage
    { kind := .page
      generation := call.task.generation
      intentRevision := call.operationIntentRevision
      scanId := call.task.scanId
      query := current.query
      sort := current.sort
      cursor := if current.query.selectedOnly then none else call.page.cursor
      pageIndex := if current.query.selectedOnly then 0 else current.currentPageIndex
      cursorHistory := if current.query.selectedOnly then [none] else current.cursorHistory
      expectedQueryId := if current.query.selectedOnly then none else some call.queryId }

/-- The part of `runSelectionTask` behind its `await`; `true` when the task goes on with a
    page. -/
def selectionSettled (call : SelectionCall)
    (answer : Except StorageErrorCode CandidateSelectionUpdateDto) (h : ResultsWorkspace) :
    ResultsWorkspace × Bool :=
  if !h.selectionIsCurrent call.task then (h, false)
  else
    match answer with
    | .error code => (h.selectionFailed code, false)
    | .ok response =>
      if selectionRefused call response then (h.selectionFailed .reportIncompatible, false)
      else
        let h := h.commitState { h.state with
          selection := some response.selection, pageCache := [], error := none }
        if h.state.requestRevision ≠ call.operationIntentRevision then (h, false)
        else (h.refreshPage call, true)

def selectionAnswered (call : SelectionCall)
    (answer : Except StorageErrorCode CandidateSelectionUpdateDto) (h : ResultsWorkspace) :
    ResultsWorkspace :=
  let settled := { h with calls := h.calls.erase (.selection call) }.selectionSettled call answer
  if settled.2 then settled.1 else settled.1.finish

/-! ## Effects -/

/-- The effect that depends on `runtimeAvailable` and `scanId`. -/
def bindScan (runtimeAvailable : Bool) (scanId : Option String) (h : ResultsWorkspace) :
    ResultsWorkspace :=
  let next := initialResultsState runtimeAvailable scanId
  let h := { h with
    generation := h.generation + 1, intentRevision := 0, tasks := [], state := next }
  if runtimeAvailable then
    match freshQueryTask h.generation next with
    | some task => h.enqueueTask (.page task)
    | none => h
  else h

/-- The effects that run when the component is mounted. -/
def mount (runtimeAvailable : Bool) (scanId : Option String) (h : ResultsWorkspace) :
    ResultsWorkspace :=
  { h with mounted := true }.bindScan runtimeAvailable scanId

/-- The clean-up of the first one. -/
def unmount (h : ResultsWorkspace) : ResultsWorkspace :=
  { h with mounted := false, generation := h.generation + 1, tasks := [] }

/-! ## Queries -/

def recordLocalQueryError (h : ResultsWorkspace) : ResultsWorkspace :=
  h.commitState { h.state with phase := .error, error := some .resultQueryInvalid }

def scheduleIntent (runtimeAvailable : Bool) (query : CandidateQuery) (sort : CandidateSort)
    (h : ResultsWorkspace) : ResultsWorkspace :=
  let current := h.state
  if !runtimeAvailable || current.scanId = none || current.phase = .idle then h
  else
    -- every change of the query starts over at the first page
    let requestRevision := current.requestRevision + 1
    let next := { current with
      phase := .loading
      query := { query with revision := toString requestRevision }
      sort
      requestRevision
      currentPageIndex := 0
      cursorHistory := [none]
      pageCache := []
      page := none
      selectionPhase := if current.selectionPhase = .updating then .updating else .idle
      error := none }
    let h := { h with intentRevision := requestRevision }.commitState next
    match freshQueryTask h.generation next with
    | some task => h.enqueueTask (.page task)
    | none => h

section Queries

variable (runtimeAvailable : Bool)

def submitSearch (search : String) (h : ResultsWorkspace) : ResultsWorkspace :=
  if !validSearch search then h.recordLocalQueryError
  else h.scheduleIntent runtimeAvailable { h.state.query with search } h.state.sort

def toggleExtension (env : TextEnv) (extension : String) (h : ResultsWorkspace) :
    ResultsWorkspace :=
  match canonicalExtension env extension with
  | none => h.recordLocalQueryError
  | some normalized =>
    let extensions := toggleValue h.state.query.extensions normalized
    if extensions.length > maxQueryExtensions then h.recordLocalQueryError
    else h.scheduleIntent runtimeAvailable { h.state.query with extensions } h.state.sort

def toggleKind (kind : CandidateKind) (h : ResultsWorkspace) : ResultsWorkspace :=
  h.scheduleIntent runtimeAvailable
    { h.state.query with kinds := toggleValue h.state.query.kinds kind } h.state.sort

def toggleMetadataConfidence (confidence : MetadataConfidence) (h : ResultsWorkspace) :
    ResultsWorkspace :=
  h.scheduleIntent runtimeAvailable
    { h.state.query with
      metadataConfidences := toggleValue h.state.query.metadataConfidences confidence }
    h.state.sort

def toggleMethod (method : DiscoveryMethod) (h : ResultsWorkspace) : ResultsWorkspace :=
  h.scheduleIntent runtimeAvailable
    { h.state.query with methods := toggleValue h.state.query.methods method } h.state.sort

def toggleCandidateState (candidateState : CandidateState) (h : ResultsWorkspace) :
    ResultsWorkspace :=
  h.scheduleIntent runtimeAvailable
    { h.state.query with states := toggleValue h.state.query.states candidateState } h.state.sort

def toggleEligibility (eligibility : RecoveryEligibility) (h : ResultsWorkspace) :
    ResultsWorkspace :=
  h.scheduleIntent runtimeAvailable
    { h.state.query with eligibilities := toggleValue h.state.query.eligibilities eligibility }
    h.state.sort

def setScoreRange (minimum maximum : Option JsNumber) (h : ResultsWorkspace) :
    ResultsWorkspace :=
  match validScore minimum, validScore maximum with
  | some minRecoverabilityScore, some maxRecoverabilityScore =>
    if minRecoverabilityScore.any fun low => maxRecoverabilityScore.any (low > ·) then
      h.recordLocalQueryError
    else
      h.scheduleIntent runtimeAvailable
        { h.state.query with minRecoverabilityScore, maxRecoverabilityScore } h.state.sort
  | _, _ => h.recordLocalQueryError

def setSelectedOnly (selectedOnly : Bool) (h : ResultsWorkspace) : ResultsWorkspace :=
  if h.state.query.selectedOnly = selectedOnly then h
  else h.scheduleIntent runtimeAvailable { h.state.query with selectedOnly } h.state.sort

def sortBy (field : CandidateSortField) (h : ResultsWorkspace) : ResultsWorkspace :=
  let direction :=
    if h.state.sort.field = field then
      if h.state.sort.direction = .ascending then .descending else .ascending
    else if field = .recoverabilityScore then .descending
    else .ascending
  h.scheduleIntent runtimeAvailable h.state.query ⟨field, direction⟩

def retry (h : ResultsWorkspace) : ResultsWorkspace :=
  if !runtimeAvailable || h.state.scanId = none then h
  else h.scheduleIntent runtimeAvailable h.state.query h.state.sort

end Queries

/-! ## Pages -/

/-- The cached page of the current query at a cursor. -/
def cachedAt (current : ResultsWorkspaceState) (cursor : Option String) :
    Option CachedCandidatePage :=
  current.pageCache.find? fun page =>
    page.cursor = cursor && page.queryRevision = current.query.revision

/-- The page task of `activatePage` and `previousPage`. -/
def requestPage (cursor : Option String) (pageIndex : Nat) (cursorHistory : List (Option String))
    (h : ResultsWorkspace) : ResultsWorkspace :=
  match h.state.scanId, h.state.page with
  | some scanId, some page =>
    (h.commitState { h.state with phase := .loading, error := none }).enqueueTask (.page
      { kind := .page
        generation := h.generation
        intentRevision := h.state.requestRevision
        scanId
        query := h.state.query
        sort := h.state.sort
        cursor
        pageIndex
        cursorHistory
        expectedQueryId := some page.queryId })
  | _, _ => h

def activatePage (cursor : String) (pageIndex : Nat) (cursorHistory : List (Option String))
    (h : ResultsWorkspace) : ResultsWorkspace :=
  match cachedAt h.state (some cursor) with
  | some cached =>
    h.commitState { h.state with
      phase := .ready
      currentPageIndex := pageIndex
      cursorHistory
      pageCache := touchPage h.state.pageCache cached
      page := some cached
      error := none }
  | none => h.requestPage (some cursor) pageIndex cursorHistory

/-- The history is at least as long as the index of the page is large, so the assignment to
    the entry behind the slice appends it. -/
def nextPage (h : ResultsWorkspace) : ResultsWorkspace :=
  match h.state.page.bind (·.nextCursor) with
  | none => h
  | some cursor =>
    if h.state.phase ≠ .ready || h.state.selectionPhase ≠ .idle then h
    else
      let nextIndex := h.state.currentPageIndex + 1
      h.activatePage cursor nextIndex (h.state.cursorHistory.take nextIndex ++ [some cursor])

def previousPage (h : ResultsWorkspace) : ResultsWorkspace :=
  if h.state.phase ≠ .ready || h.state.selectionPhase ≠ .idle || h.state.currentPageIndex = 0 then h
  else
    let previousIndex := h.state.currentPageIndex - 1
    match h.state.cursorHistory[previousIndex]? with
    | none => h
    | some none =>
      if previousIndex = 0 then
        match cachedAt h.state none with
        | some cached =>
          h.commitState { h.state with
            currentPageIndex := 0
            pageCache := touchPage h.state.pageCache cached
            page := some cached }
        | none => h.requestPage none 0 h.state.cursorHistory
      else h
    | some (some cursor) => h.activatePage cursor previousIndex h.state.cursorHistory

/-! ## The selection -/

/-- Whether `enqueueSelection` takes the command. -/
def acceptsSelection (current : ResultsWorkspaceState) : Bool :=
  current.page ≠ none && current.selection ≠ none && current.phase ≠ .loading &&
    current.selectionPhase ≠ .updating

def enqueueSelection (operation : SelectionOperationDto) (h : ResultsWorkspace) :
    ResultsWorkspace :=
  match h.state.scanId with
  | none => h
  | some scanId =>
    if !acceptsSelection h.state then h
    else
      let h := { h with commands := h.commands + 1 }.commitState { h.state with
        selectionPhase := .updating, error := none }
      h.enqueueTask (.selection ⟨h.commands, h.generation, scanId, operation⟩)

def setCandidateSelected (candidateId : String) (selected : Bool) (h : ResultsWorkspace) :
    ResultsWorkspace :=
  if !validCandidateId candidateId then
    h.commitState { h.state with phase := .error, error := some .resultSelectionInvalid }
  else h.enqueueSelection (.setIds [candidateId] selected)

def selectAllMatching (h : ResultsWorkspace) : ResultsWorkspace :=
  h.enqueueSelection .selectAllMatching

def clearMatching (h : ResultsWorkspace) : ResultsWorkspace := h.enqueueSelection .clearMatching

def clearAll (h : ResultsWorkspace) : ResultsWorkspace := h.enqueueSelection .clearAll

/-! ## Steps -/

inductive Command where
  | submitSearch (search : String)
  | toggleExtension (extension : String)
  | toggleKind (kind : CandidateKind)
  | toggleMetadataConfidence (confidence : MetadataConfidence)
  | toggleMethod (method : DiscoveryMethod)
  | toggleCandidateState (candidateState : CandidateState)
  | toggleEligibility (eligibility : RecoveryEligibility)
  | setScoreRange (minimum maximum : Option JsNumber)
  | setSelectedOnly (selectedOnly : Bool)
  | sortBy (field : CandidateSortField)
  | retry
  | nextPage
  | previousPage
  | setCandidateSelected (candidateId : String) (selected : Bool)
  | selectAllMatching
  | clearMatching
  | clearAll

def execute (env : TextEnv) (runtimeAvailable : Bool) (h : ResultsWorkspace) :
    Command → ResultsWorkspace
  | .submitSearch search => h.submitSearch runtimeAvailable search
  | .toggleExtension extension => h.toggleExtension runtimeAvailable env extension
  | .toggleKind kind => h.toggleKind runtimeAvailable kind
  | .toggleMetadataConfidence confidence =>
    h.toggleMetadataConfidence runtimeAvailable confidence
  | .toggleMethod method => h.toggleMethod runtimeAvailable method
  | .toggleCandidateState candidateState => h.toggleCandidateState runtimeAvailable candidateState
  | .toggleEligibility eligibility => h.toggleEligibility runtimeAvailable eligibility
  | .setScoreRange minimum maximum => h.setScoreRange runtimeAvailable minimum maximum
  | .setSelectedOnly selectedOnly => h.setSelectedOnly runtimeAvailable selectedOnly
  | .sortBy field => h.sortBy runtimeAvailable field
  | .retry => h.retry runtimeAvailable
  | .nextPage => h.nextPage
  | .previousPage => h.previousPage
  | .setCandidateSelected candidateId selected => h.setCandidateSelected candidateId selected
  | .selectAllMatching => h.selectAllMatching
  | .clearMatching => h.clearMatching
  | .clearAll => h.clearAll

inductive Event where
  | mount (scanId : Option String)
  | unmount
  | scanChange (scanId : Option String)
  | command (command : Command)
  | pageAnswer (call : PageCall) (answer : Except StorageErrorCode CandidateQueryPageDto)
  | selectionAnswer (call : SelectionCall)
      (answer : Except StorageErrorCode CandidateSelectionUpdateDto)

/-- One event; a call is answered once. -/
def next (env : TextEnv) (runtimeAvailable : Bool) (h : ResultsWorkspace) :
    Event → Option ResultsWorkspace
  | .mount scanId => if !h.mounted then some (h.mount runtimeAvailable scanId) else none
  | .unmount => if h.mounted then some h.unmount else none
  | .scanChange scanId => if h.mounted then some (h.bindScan runtimeAvailable scanId) else none
  | .command command => if h.mounted then some (h.execute env runtimeAvailable command) else none
  | .pageAnswer call answer =>
    if .page call ∈ h.calls then some (h.pageAnswered call answer) else none
  | .selectionAnswer call answer =>
    if .selection call ∈ h.calls then some (h.selectionAnswered call answer) else none

end ResultsWorkspace

end Undelete.Desktop
