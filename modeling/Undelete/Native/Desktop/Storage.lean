import Undelete.Native.Broker.Message
import Undelete.Native.Desktop.Results

/-!
# Requests on scan sessions

Model of the requests of `apps/desktop/src-tauri/src/storage.rs` on a retained scan: pages of
its results and updates of its selection. The mutex around the scans makes every request one
step.
-/

namespace Undelete.Desktop

structure DesktopStorageError where
  code : String
  message : String
deriving DecidableEq, Repr

namespace DesktopStorageError

def incompatible : DesktopStorageError where
  code := "REPORT_INCOMPATIBLE"
  message := "The native scanner returned an incompatible bounded result."

end DesktopStorageError

def mapResultError : ResultAuthorityError → DesktopStorageError
  | .invalidQuery => ⟨"RESULT_QUERY_INVALID", "The result request is invalid."⟩
  | .staleCursor => ⟨"RESULT_CURSOR_STALE", "The result cursor no longer matches this query."⟩
  | .staleSelection => ⟨"RESULT_SELECTION_STALE", "The selection changed before this update."⟩
  | .unknownCandidate =>
    ⟨"RESULT_SELECTION_INVALID", "The selection request contains an unknown candidate."⟩
  | .overflow => .incompatible

/-- A retained scan: what requests read, and what they change. -/
structure ScanSession where
  results : ScanResults
  state : ResultsState := {}

inductive ResultsRequest where
  | page (query : CandidateQuery) (sort : CandidateSort) (cursor : Option String)
  | update (queryId : String) (operation : SelectionOperationDto) (selectionRevision : Nat)
deriving DecidableEq, Repr

inductive ResultsReply where
  | page (reply : Except DesktopStorageError CandidateQueryPageDto)
  | update (reply : Except DesktopStorageError CandidateSelectionUpdateDto)
deriving DecidableEq

/-- `map_err(map_result_error)`. -/
def mapResult {α : Type} : EStateM.Result ResultAuthorityError ResultsState α →
    Except DesktopStorageError α × ResultsState
  | .ok value st => (.ok value, st)
  | .error error st => (.error (mapResultError error), st)

/-- One request on a session. -/
def ScanSession.serve (env : ResultsEnv) (session : ScanSession) :
    ResultsRequest → ResultsReply × ScanSession
  | .page query sort cursor =>
    let (reply, state) :=
      mapResult (queryCandidatePage env session.results query sort cursor session.state)
    (.page reply, { session with state })
  | .update queryId operation selectionRevision =>
    let (reply, state) := mapResult
      (updateCandidateSelection env session.results queryId operation selectionRevision
        session.state)
    (.update reply, { session with state })

/-- The session after a sequence of requests. -/
def ScanSession.run (env : ResultsEnv) (session : ScanSession) (requests : List ResultsRequest) :
    ScanSession :=
  requests.foldl (fun session request => (session.serve env request).2) session

/-! ## All scans -/

/-- A request that was served: the session before and after it, and the reply. -/
structure Served where
  scanId : String
  request : ResultsRequest
  session : ScanSession
  reply : ResultsReply
  after : ScanSession

/-- The sessions of the retained scans, as they are stored. -/
def storedSessions (retained : List ScanResults) (scanId : String) : Option ScanSession :=
  (retained.find? (·.scanId = scanId)).map (⟨·, {}⟩)

/-- Requests on the stored sessions, one after the other. A request on a scan that is not
    stored is refused as incompatible and reads nothing. -/
def serveAll (env : ResultsEnv) (scans : String → Option ScanSession) :
    List (String × ResultsRequest) → List Served
  | [] => []
  | (scanId, request) :: requests =>
    match scans scanId with
    | none => serveAll env scans requests
    | some session =>
      let (reply, after) := session.serve env request
      ⟨scanId, request, session, reply, after⟩ ::
        serveAll env (fun id => if id = scanId then some after else scans id) requests

/-! ## The retained scans -/

def maxScanSessions : Nat := 4

/-- The retained scans, and the order they were stored in. -/
structure RetainedScans where
  scans : String → Option ScanSession
  scanOrder : List String

/-- `store_session`: beyond `MAX_SCAN_SESSIONS` the oldest scans are dropped. -/
def RetainedScans.storeSession (retained : RetainedScans) (session : ScanSession) : RetainedScans :=
  let scanId := session.results.scanId
  let order :=
    if (retained.scans scanId).isSome then retained.scanOrder else retained.scanOrder ++ [scanId]
  let expired := order.take (order.length - maxScanSessions)
  { scans := fun id =>
      if id ∈ expired then none else if id = scanId then some session else retained.scans id
    scanOrder := order.drop (order.length - maxScanSessions) }

/-- A request on a retained scan. -/
def RetainedScans.serve (env : ResultsEnv) (retained : RetainedScans) (scanId : String)
    (request : ResultsRequest) : RetainedScans :=
  match retained.scans scanId with
  | none => retained
  | some session =>
    { retained with
      scans := fun id => if id = scanId then some (session.serve env request).2
        else retained.scans id }

/-- `valid_opaque_id` -/
def validOpaqueId (value : String) : Bool :=
  !value.isEmpty && value.utf8ByteSize ≤ 128 &&
    (Bytes.ofString value).all fun byte =>
      Broker.isAsciiAlphanumeric byte || byte == 45 || byte == 95

/-- The selection of a scan as a recovery start sees it. -/
structure RestoreStartSelectionView where
  scanId : String
  source : ScanSourceBinding
  selectionRevision : Nat
  candidates : List StoredCandidate
  selected : Finset Nat

def RestoreStartSelectionView.matchesOrderedCandidateIds (view : RestoreStartSelectionView)
    (expected : List Nat) : Bool :=
  (view.candidates.filter (·.candidate.id ∈ view.selected)).map (·.candidate.id) = expected

def selectionStale : DesktopStorageError :=
  ⟨"RESULT_SELECTION_STALE", "The recovery selection changed. Review it and create a new plan."⟩

/-- `with_restore_start_selection` -/
def RetainedScans.withRestoreStartSelection {α : Type} (retained : RetainedScans) (scanId : String)
    (expectedSelectionRevision : Nat) (authorize : RestoreStartSelectionView → α) :
    Except DesktopStorageError α :=
  if !validOpaqueId scanId then .error .incompatible
  else
    match retained.scans scanId with
    | none => .error .incompatible
    | some session =>
      if expectedSelectionRevision ≠ session.state.selectionRevision then .error selectionStale
      else .ok (authorize
        { scanId
          source := session.results.source
          selectionRevision := session.state.selectionRevision
          candidates := session.results.candidates
          selected := session.state.selected })

end Undelete.Desktop
