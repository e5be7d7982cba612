import Mathlib.Data.Finset.Basic
import Undelete.Native.Coverage
import Undelete.Native.Restore.Journal

/-!
# Result queries and the selection

Model of `apps/desktop/src-tauri/src/results.rs`: the authority over which retained candidates
a query shows, in which order and on which page, and over which of them are selected.

The Unicode tables behind `to_lowercase` and `trim`, SHA-256 and `serde_json` are parameters.
The four `…Dto` enumerations repeat enumerations of `um_core` constructor by constructor, so
those stand for both. A function that mutates the session keeps what it wrote when it fails.
-/

namespace Undelete.Desktop

open Restore

def candidatePageLimit : Nat := 100
def resultSchemaVersion : Nat := 1
def maxQueryTextScalars : Nat := 512
def maxQueryExtensions : Nat := 128
def maxExtensionScalars : Nat := 255
def maxRetainedCandidatesPerScan : Nat := 110000
def maxDirectSelectionIds : Nat := 100

inductive ResultAuthorityError where
  | invalidQuery | staleCursor | staleSelection | unknownCandidate | overflow
deriving DecidableEq, Repr

/-! ## Retained candidates -/

inductive RecoveryEligibility where
  | complete | bestEffort | ineligible
deriving DecidableEq, Repr

/-- What is shown of a candidate, as far as the queries read or return it. -/
structure CandidateRowDto where
  displayPath : String
  kind : String
  state : String
  sizeBytes : String
  metadataConfidence : String
  recoverabilityScore : Option Nat
  pathState : String
  method : String
  warnings : List String
deriving DecidableEq, Repr

structure StoredCandidate where
  candidate : Candidate
  row : CandidateRowDto
  expectedSha256 : Option Digest
deriving DecidableEq

structure ScanSourceBinding where
  inventoryGeneration : String
  volumeId : String
  sourceLen : Nat
  fileSystem : String
  physicalDiskNumber : Nat
deriving DecidableEq, Repr

/-- The `has_readable` test on one extent. -/
def readableAvailability : ExtentAvailability → Bool
  | .freeInSnapshot | .currentlyAllocated | .zeroed | .resident | .sparse => true
  | _ => false

/-- The `all_complete` test on one extent. -/
def completeAvailability : ExtentAvailability → Bool
  | .freeInSnapshot | .resident | .sparse => true
  | _ => false

def candidateEligibility (candidate : Candidate) : RecoveryEligibility :=
  if candidate.kind = .directory ∨ candidate.size = 0 then .complete
  else if candidate.state = .overwritten ∨ candidate.state = .metadataOnly ∨
      candidate.state = .unknown then
    .ineligible
  else if ¬candidate.extents.any (readableAvailability ·.availability) then .ineligible
  else if ¬candidate.hasMissingRanges ∧
      candidate.extents.all (completeAvailability ·.availability) then
    .complete
  else .bestEffort

/-! ## Queries -/

/-- Derived orders of enumerations go by the order of the constructors. -/
instance instOrdCandidateKind : Ord CandidateKind where
  compare a b := compare a.ctorIdx b.ctorIdx

instance instOrdMetadataConfidence : Ord MetadataConfidence where
  compare a b := compare a.ctorIdx b.ctorIdx

instance instOrdDiscoveryMethod : Ord DiscoveryMethod where
  compare a b := compare a.ctorIdx b.ctorIdx

instance instOrdCandidateState : Ord CandidateState where
  compare a b := compare a.ctorIdx b.ctorIdx

instance instOrdRecoveryEligibility : Ord RecoveryEligibility where
  compare a b := compare a.ctorIdx b.ctorIdx

structure CandidateQuery where
  revision : String
  search : String
  extensions : List String
  kinds : List CandidateKind
  metadataConfidences : List MetadataConfidence
  methods : List DiscoveryMethod
  states : List CandidateState
  minRecoverabilityScore : Option Nat
  maxRecoverabilityScore : Option Nat
  eligibilities : List RecoveryEligibility
  selectedOnly : Bool
deriving DecidableEq, Repr

inductive CandidateSortField where
  | path | extension | size | state | confidence | recoverabilityScore | method
deriving DecidableEq, Repr

inductive CandidateSortDirection where
  | ascending | descending
deriving DecidableEq, Repr

structure CandidateSort where
  field : CandidateSortField
  direction : CandidateSortDirection
deriving DecidableEq, Repr

/-- What the module takes from `std`, `sha2` and `serde_json`. The fields after the functions
    say what the Rust types enforce: no slice is longer than a `u64` can count. -/
structure ResultsEnv where
  toLowercase : String → String
  trim : String → String
  sha256 : Bytes → Digest
  queryToVec : CandidateQuery → Option Bytes
  sortToVec : CandidateSort → Option Bytes
  queryToVec_lt : ∀ {query bytes}, queryToVec query = some bytes → bytes.length < 2 ^ 64
  sortToVec_lt : ∀ {sort bytes}, sortToVec sort = some bytes → bytes.length < 2 ^ 64

def parseDecimalU64 (value : String) : Except ResultAuthorityError Nat :=
  if value.isEmpty ∨ value.utf8ByteSize > 20 ∨ ¬value.toList.all Char.isDigit ∨
      (value.utf8ByteSize > 1 ∧ value.toList.head? = some '0') then
    .error .invalidQuery
  else
    let parsed := value.toList.foldl (fun n c => 10 * n + (c.toNat - '0'.toNat)) 0
    if parsed < 2 ^ 64 then .ok parsed else .error .invalidQuery

/-- `char::is_control` and the invisible characters that reorder or hide text. -/
def forbiddenQueryCharacter (c : Char) : Bool :=
  c.toNat ≤ 0x1F || (0x7F ≤ c.toNat && c.toNat ≤ 0x9F) ||
    [0x061C, 0x200E, 0x200F, 0x202A, 0x202B, 0x202C, 0x202D, 0x202E, 0x2066, 0x2067, 0x2068,
      0x2069, 0xFEFF].contains c.toNat

def canonicalExtension (env : ResultsEnv) (value : String) : Option String :=
  let trimmed := env.trim value
  if trimmed.isEmpty ∨ trimmed.length > maxExtensionScalars ∨
      trimmed.toList.any forbiddenQueryCharacter ∨
      trimmed.toList.any ("./\\".toList.contains ·) then
    none
  else
    let normalized := env.toLowercase trimmed
    if normalized.length ≤ maxExtensionScalars then some normalized else none

/-- `str::rsplit_once`. -/
def rsplitOnce (separator : Char) (text : List Char) : Option (List Char × List Char) :=
  match text.reverse.dropWhile (· ≠ separator) with
  | [] => none
  | _ :: stem => some (stem.reverse, (text.reverse.takeWhile (· ≠ separator)).reverse)

def candidateExtension (env : ResultsEnv) (candidate : Candidate) : String :=
  match rsplitOnce '.' candidate.name.toList with
  | none => ""
  | some (stem, extension) =>
    if stem.isEmpty ∨ extension.isEmpty then ""
    else (canonicalExtension env (String.ofList extension)).getD ""

/-- `sort` and `dedup`. -/
def canonicalizeEnumList {α : Type} [Ord α] [BEq α] (values : List α) : List α :=
  (values.insertionSort fun a b => compare a b ≠ .gt).eraseReps

def canonicalQuery (env : ResultsEnv) (query : CandidateQuery) :
    Except ResultAuthorityError CandidateQuery := do
  let revision ← parseDecimalU64 query.revision
  if query.search.length > maxQueryTextScalars ∨ query.search.toList.any forbiddenQueryCharacter ∨
      query.extensions.length > maxQueryExtensions then
    throw .invalidQuery
  let extensions ← query.extensions.mapM fun extension =>
    if extension.isEmpty then .ok extension
    else okOr (canonicalExtension env extension) ResultAuthorityError.invalidQuery
  if query.minRecoverabilityScore.any (· > 100) ∨ query.maxRecoverabilityScore.any (· > 100) ∨
      query.minRecoverabilityScore.any fun minimum =>
        query.maxRecoverabilityScore.any (minimum > ·) then
    throw .invalidQuery
  return { query with
    revision := toString revision
    search := env.toLowercase query.search
    extensions := canonicalizeEnumList extensions
    kinds := canonicalizeEnumList query.kinds
    metadataConfidences := canonicalizeEnumList query.metadataConfidences
    methods := canonicalizeEnumList query.methods
    states := canonicalizeEnumList query.states
    eligibilities := canonicalizeEnumList query.eligibilities }

def candidateMatches (env : ResultsEnv) (query : CandidateQuery) (selected : Finset Nat)
    (stored : StoredCandidate) : Bool :=
  let candidate := stored.candidate
  let score := stored.row.recoverabilityScore
  (query.search.isEmpty ||
      decide (query.search.toList <:+: (env.toLowercase stored.row.displayPath).toList)) &&
    (query.extensions.isEmpty || query.extensions.contains (candidateExtension env candidate)) &&
    (query.kinds.isEmpty || query.kinds.contains candidate.kind) &&
    (query.metadataConfidences.isEmpty ||
      query.metadataConfidences.contains candidate.metadataConfidence) &&
    (query.methods.isEmpty || query.methods.contains candidate.method) &&
    (query.states.isEmpty || query.states.contains candidate.state) &&
    query.minRecoverabilityScore.all (fun minimum => score.any (· ≥ minimum)) &&
    query.maxRecoverabilityScore.all (fun maximum => score.any (· ≤ maximum)) &&
    (query.eligibilities.isEmpty ||
      query.eligibilities.contains (candidateEligibility candidate)) &&
    (!query.selectedOnly || decide (candidate.id ∈ selected))

def directedOrdering : CandidateSortDirection → Ordering → Ordering
  | .ascending, primary => primary
  | .descending, primary => primary.swap

/-- Candidates without a score come last in both directions. -/
def compareNullableScores (left right : StoredCandidate) (direction : CandidateSortDirection) :
    Ordering :=
  match left.row.recoverabilityScore, right.row.recoverabilityScore with
  | some left, some right => directedOrdering direction (compare left right)
  | some _, none => .lt
  | none, some _ => .gt
  | none, none => .eq

def compareCandidates (env : ResultsEnv) (sort : CandidateSort) (left right : StoredCandidate) :
    Ordering :=
  let directed :=
    match sort.field with
    | .path => directedOrdering sort.direction
        (compare (env.toLowercase left.row.displayPath) (env.toLowercase right.row.displayPath))
    | .extension => directedOrdering sort.direction
        (compare (candidateExtension env left.candidate) (candidateExtension env right.candidate))
    | .size => directedOrdering sort.direction (compare left.candidate.size right.candidate.size)
    | .state => directedOrdering sort.direction
        (compare left.candidate.state right.candidate.state)
    | .confidence => directedOrdering sort.direction
        (compare left.candidate.metadataConfidence right.candidate.metadataConfidence)
    | .recoverabilityScore => compareNullableScores left right sort.direction
    | .method => directedOrdering sort.direction
        (compare left.candidate.method right.candidate.method)
  directed.then (compare left.candidate.id right.candidate.id)

/-! ## Summaries -/

structure ExtensionFacetDto where
  extension : String
  count : String
deriving DecidableEq, Repr

/-- `counts.entry(extension)`, incremented, in a map with ascending keys. -/
def incrementFacet (extension : String) : List (String × Nat) → List (String × Nat)
  | [] => [(extension, 1)]
  | (key, count) :: counts =>
    if extension = key then (key, count + 1) :: counts
    else if extension < key then (extension, 1) :: (key, count) :: counts
    else (key, count) :: incrementFacet extension counts

def countFacet (env : ResultsEnv) (counts : List (String × Nat)) (stored : StoredCandidate) :
    Except ResultAuthorityError (List (String × Nat)) := do
  let extension := candidateExtension env stored.candidate
  if (counts.lookup extension).isNone ∧ counts.length = maxRetainedCandidatesPerScan then
    throw .overflow
  if (counts.lookup extension).any (· + 1 ≥ 2 ^ 64) then
    throw .overflow
  return incrementFacet extension counts

def extensionFacets (env : ResultsEnv) (candidates : List StoredCandidate) :
    Except ResultAuthorityError (List ExtensionFacetDto) := do
  let counts ← candidates.foldlM (countFacet env) []
  return counts.map fun (extension, count) => ⟨extension, toString count⟩

structure CandidateSelectionSummaryDto where
  selectionRevision : String
  selectedCandidates : String
  selectedFiles : String
  selectedDirectories : String
  selectedLogicalBytes : String
  bestEffortCandidates : String
  conflictedCandidates : String
  ineligibleCandidates : String
  matchingSelectedCandidates : String
deriving DecidableEq, Repr

/-- The counters of `selection_summary`. -/
structure SelectionTotals where
  selectedCandidates : Nat := 0
  selectedFiles : Nat := 0
  selectedDirectories : Nat := 0
  selectedLogicalBytes : Nat := 0
  bestEffortCandidates : Nat := 0
  conflictedCandidates : Nat := 0
  ineligibleCandidates : Nat := 0
  matchingSelectedCandidates : Nat := 0
deriving DecidableEq, Repr

def checkedIncrement (value : Nat) : Except ResultAuthorityError Nat :=
  okOr (U64.checkedAdd value 1) .overflow

def tallyKind (totals : SelectionTotals) :
    CandidateKind → Except ResultAuthorityError SelectionTotals
  | .file => do return { totals with selectedFiles := ← checkedIncrement totals.selectedFiles }
  | .directory => do
    return { totals with selectedDirectories := ← checkedIncrement totals.selectedDirectories }

def tallyEligibility (totals : SelectionTotals) :
    RecoveryEligibility → Except ResultAuthorityError SelectionTotals
  | .complete => .ok totals
  | .bestEffort => do
    return { totals with bestEffortCandidates := ← checkedIncrement totals.bestEffortCandidates }
  | .ineligible => do
    return { totals with ineligibleCandidates := ← checkedIncrement totals.ineligibleCandidates }

def tallyState (totals : SelectionTotals) (state : CandidateState) :
    Except ResultAuthorityError SelectionTotals :=
  if state = .conflicted then do
    return { totals with conflictedCandidates := ← checkedIncrement totals.conflictedCandidates }
  else .ok totals

/-- What a selected candidate adds to the counters. -/
def tallySelected (totals : SelectionTotals) (candidate : Candidate) :
    Except ResultAuthorityError SelectionTotals := do
  let selectedCandidates ← checkedIncrement totals.selectedCandidates
  let totals ← tallyKind { totals with selectedCandidates } candidate.kind
  let selectedLogicalBytes ←
    okOr (U64.checkedAdd totals.selectedLogicalBytes candidate.size) .overflow
  let totals ← tallyEligibility { totals with selectedLogicalBytes }
    (candidateEligibility candidate)
  tallyState totals candidate.state

def tallyMatching (totals : SelectionTotals) (matching : Bool) :
    Except ResultAuthorityError SelectionTotals :=
  if matching then do
    return { totals with
      matchingSelectedCandidates := ← checkedIncrement totals.matchingSelectedCandidates }
  else .ok totals

/-- One round of the loop of `selection_summary`. -/
def tallyCandidate (env : ResultsEnv) (selected : Finset Nat)
    (matchingQuery : Option CandidateQuery) (totals : SelectionTotals) (stored : StoredCandidate) :
    Except ResultAuthorityError SelectionTotals := do
  if stored.candidate.id ∉ selected then
    return totals
  let totals ← tallySelected totals stored.candidate
  tallyMatching totals (matchingQuery.any (candidateMatches env · selected stored))

def SelectionTotals.summary (totals : SelectionTotals) (revision : Nat) :
    CandidateSelectionSummaryDto where
  selectionRevision := toString revision
  selectedCandidates := toString totals.selectedCandidates
  selectedFiles := toString totals.selectedFiles
  selectedDirectories := toString totals.selectedDirectories
  selectedLogicalBytes := toString totals.selectedLogicalBytes
  bestEffortCandidates := toString totals.bestEffortCandidates
  conflictedCandidates := toString totals.conflictedCandidates
  ineligibleCandidates := toString totals.ineligibleCandidates
  matchingSelectedCandidates := toString totals.matchingSelectedCandidates

def selectionSummary (env : ResultsEnv) (candidates : List StoredCandidate)
    (selected : Finset Nat) (revision : Nat) (matchingQuery : Option CandidateQuery) :
    Except ResultAuthorityError CandidateSelectionSummaryDto := do
  let totals ← candidates.foldlM (tallyCandidate env selected matchingQuery) {}
  return totals.summary revision

/-! ## The session -/

/-- What a scan session retains and no request changes. The fields after the data say what
    building the session checks, that no id occurs twice and the index knows every id, and what
    the type of the scan id enforces. -/
structure ScanResults where
  scanId : String
  source : ScanSourceBinding
  candidates : List StoredCandidate
  candidateIndex : Nat → Option Nat
  distinct : (candidates.map (·.candidate.id)).Nodup
  indexed : ∀ id, (candidateIndex id).isSome = true ↔ id ∈ candidates.map (·.candidate.id)
  scanId_lt : scanId.utf8ByteSize < 2 ^ 64

structure BoundCandidateQuery where
  queryId : String
  sourceFingerprint : String
  query : CandidateQuery
  sort : CandidateSort
  selectionRevision : Nat
  cursors : List (String × Nat)
deriving DecidableEq, Repr

/-- What the requests on a scan session change. -/
structure ResultsState where
  selected : Finset Nat := ∅
  selectionRevision : Nat := 0
  activeQuery : Option BoundCandidateQuery := none
deriving DecidableEq

abbrev ResultsM : Type → Type := EStateM ResultAuthorityError ResultsState

/-- What `derive_id` hashes. -/
def deriveInput (fields : List Bytes) : Bytes :=
  Bytes.ofString "undelete-master:result-authority:v1" ++
    fields.flatMap fun field => Bytes.ofLE 8 field.length ++ field

def deriveId (env : ResultsEnv) (tag : String) (fields : List Bytes) : String :=
  tag ++ "-" ++ hexLower (env.sha256 (deriveInput fields)).toList

def sourceFields (scanId : String) (source : ScanSourceBinding) : List Bytes :=
  [Bytes.ofString scanId, Bytes.ofString source.inventoryGeneration, Bytes.ofString source.volumeId,
    Bytes.ofLE 8 source.sourceLen, Bytes.ofString source.fileSystem]

def sourceFingerprint (env : ResultsEnv) (scanId : String) (source : ScanSourceBinding) :
    Except ResultAuthorityError String :=
  if scanId.isEmpty ∨ source.inventoryGeneration.isEmpty ∨ source.volumeId.isEmpty ∨
      source.fileSystem.isEmpty then
    .error .invalidQuery
  else .ok (deriveId env "source" (sourceFields scanId source))

/-! ## Pages -/

structure ActionableCandidateRowDto where
  id : String
  displayPath : String
  extension : String
  kind : String
  state : String
  sizeBytes : String
  metadataConfidence : String
  recoverabilityScore : Option Nat
  pathState : String
  method : String
  eligibility : RecoveryEligibility
  selected : Bool
  warnings : List String
deriving DecidableEq, Repr

def actionableRow (env : ResultsEnv) (selected : Finset Nat) (stored : StoredCandidate) :
    ActionableCandidateRowDto where
  id := toString stored.candidate.id
  displayPath := stored.row.displayPath
  extension := candidateExtension env stored.candidate
  kind := stored.row.kind
  state := stored.row.state
  sizeBytes := stored.row.sizeBytes
  metadataConfidence := stored.row.metadataConfidence
  recoverabilityScore := stored.row.recoverabilityScore
  pathState := stored.row.pathState
  method := stored.row.method
  eligibility := candidateEligibility stored.candidate
  selected := stored.candidate.id ∈ selected
  warnings := stored.row.warnings

structure CandidateQueryPageDto where
  schemaVersion : Nat
  scanId : String
  queryId : String
  queryRevision : String
  cursor : Option String
  nextCursor : Option String
  filteredTotal : String
  extensionFacets : List ExtensionFacetDto
  selection : CandidateSelectionSummaryDto
  candidates : List ActionableCandidateRowDto
deriving DecidableEq, Repr

/-- The offset a cursor stands for; only the binding that issued it knows it. -/
def cursorOffset (st : ResultsState) (queryId fingerprint : String) (query : CandidateQuery)
    (sort : CandidateSort) (cursor : String) : Except ResultAuthorityError Nat := do
  let binding ← okOr (st.activeQuery.filter fun binding =>
    binding.queryId = queryId ∧ binding.sourceFingerprint = fingerprint ∧ binding.query = query ∧
      binding.sort = sort ∧
      (query.selectedOnly = false ∨ binding.selectionRevision = st.selectionRevision)) .staleCursor
  okOr (binding.cursors.lookup cursor) .staleCursor

/-- Where the page starts: a request without a cursor starts over with a new binding. -/
def bindQuery (queryId fingerprint : String) (query : CandidateQuery) (sort : CandidateSort) :
    Option String → ResultsM Nat
  | some cursor => do ofExcept (cursorOffset (← get) queryId fingerprint query sort cursor)
  | none => do
    modify fun st => { st with
      activeQuery := some
        { queryId, sourceFingerprint := fingerprint, query, sort,
          selectionRevision := st.selectionRevision, cursors := [] } }
    return 0

/-- The candidates a query shows, in the order it shows them. -/
def filteredCandidates (env : ResultsEnv) (results : ScanResults) (query : CandidateQuery)
    (sort : CandidateSort) (selected : Finset Nat) : List StoredCandidate :=
  (results.candidates.filter (candidateMatches env query selected)).insertionSort
    fun left right => compareCandidates env sort left right ≠ .gt

/-- `<[T]>::get(start..stop)`. -/
def slice {α : Type} (xs : List α) (start stop : Nat) : Option (List α) :=
  if start ≤ stop ∧ stop ≤ xs.length then some ((xs.take stop).drop start) else none

def cursorFields (fingerprint queryId : String) (sortBytes : Bytes) (selectedOnly : Bool)
    (selectionRevision stop : Nat) : List Bytes :=
  [Bytes.ofString fingerprint, Bytes.ofString queryId, sortBytes,
    Bytes.ofLE 8 (if selectedOnly then selectionRevision else 0), Bytes.ofLE 8 stop]

/-- Registers the cursor of the page that starts at `stop`. -/
def issueCursor (env : ResultsEnv) (queryId fingerprint : String) (query : CandidateQuery)
    (sort : CandidateSort) (stop : Nat) : ResultsM String := do
  let sortBytes ← ofExcept (okOr (env.sortToVec sort) ResultAuthorityError.invalidQuery)
  let st ← get
  let cursor := deriveId env "cursor"
    (cursorFields fingerprint queryId sortBytes query.selectedOnly st.selectionRevision stop)
  let binding ← ofExcept (okOr st.activeQuery ResultAuthorityError.staleCursor)
  set { st with activeQuery := some { binding with cursors := (cursor, stop) :: binding.cursors } }
  return cursor

/-- The cursor of the next page, when there is one. -/
def nextPageCursor (env : ResultsEnv) (queryId fingerprint : String) (query : CandidateQuery)
    (sort : CandidateSort) (stop total : Nat) : ResultsM (Option String) :=
  if stop < total then some <$> issueCursor env queryId fingerprint query sort stop
  else pure none

def queryCandidatePage (env : ResultsEnv) (results : ScanResults) (query : CandidateQuery)
    (sort : CandidateSort) (cursor : Option String) : ResultsM CandidateQueryPageDto := do
  let query ← ofExcept (canonicalQuery env query)
  let fingerprint ← ofExcept (sourceFingerprint env results.scanId results.source)
  let queryBytes ← ofExcept (okOr (env.queryToVec query) ResultAuthorityError.invalidQuery)
  let queryId := deriveId env "query" [Bytes.ofString fingerprint, queryBytes]
  let offset ← bindQuery queryId fingerprint query sort cursor
  let st ← get
  let filtered := filteredCandidates env results query sort st.selected
  let stop ← ofExcept (okOr ((U64.checkedAdd offset candidatePageLimit).map (min · filtered.length))
    ResultAuthorityError.overflow)
  let page ← ofExcept (okOr (slice filtered offset stop) ResultAuthorityError.staleCursor)
  let nextCursor ← nextPageCursor env queryId fingerprint query sort stop filtered.length
  let selection ← ofExcept (selectionSummary env results.candidates st.selected
    st.selectionRevision (some query))
  let facets ← ofExcept (extensionFacets env results.candidates)
  return {
    schemaVersion := resultSchemaVersion
    scanId := results.scanId
    queryId
    queryRevision := query.revision
    cursor
    nextCursor
    filteredTotal := toString filtered.length
    extensionFacets := facets
    selection
    candidates := page.map (actionableRow env st.selected) }

/-! ## Selection updates -/

inductive SelectionOperationDto where
  | setIds (candidateIds : List String) (selected : Bool)
  | selectAllMatching
  | clearMatching
  | clearAll
deriving DecidableEq, Repr

structure CandidateSelectionUpdateDto where
  schemaVersion : Nat
  scanId : String
  queryId : String
  selectionRevision : String
  selection : CandidateSelectionSummaryDto
deriving DecidableEq, Repr

/-- The loop over the ids of `SetIds`; `unique` are the ids it has seen. -/
def parseCandidateIds (candidateIndex : Nat → Option Nat) :
    List String → Finset Nat → Except ResultAuthorityError (List Nat)
  | [], _ => .ok []
  | candidateId :: candidateIds, unique => do
    let id ← parseDecimalU64 candidateId
    if id ∈ unique ∨ (candidateIndex id).isNone then
      throw .unknownCandidate
    return id :: (← parseCandidateIds candidateIndex candidateIds (insert id unique))

/-- The ids of the candidates that match a query. -/
def matchingIds (env : ResultsEnv) (candidates : List StoredCandidate) (query : CandidateQuery)
    (selected : Finset Nat) : List Nat :=
  (candidates.filter (candidateMatches env query selected)).map (·.candidate.id)

def proposedSelection (env : ResultsEnv) (results : ScanResults) (query : CandidateQuery)
    (selected : Finset Nat) : SelectionOperationDto → Except ResultAuthorityError (Finset Nat)
  | .setIds candidateIds select => do
    if candidateIds.isEmpty ∨ candidateIds.length > maxDirectSelectionIds then
      throw .invalidQuery
    let parsed ← parseCandidateIds results.candidateIndex candidateIds ∅
    return parsed.foldl
      (fun proposed id => if select then insert id proposed else proposed.erase id)
      selected
  | .selectAllMatching =>
    .ok ((matchingIds env results.candidates query selected).foldl
      (fun proposed id => insert id proposed) selected)
  | .clearMatching =>
    .ok ((matchingIds env results.candidates query selected).foldl Finset.erase selected)
  | .clearAll => .ok ∅

def updateCandidateSelection (env : ResultsEnv) (results : ScanResults) (queryId : String)
    (operation : SelectionOperationDto) (expectedRevision : Nat) :
    ResultsM CandidateSelectionUpdateDto := do
  let st ← get
  if st.selectionRevision ≠ expectedRevision then
    throw .staleSelection
  let binding ← ofExcept (okOr (st.activeQuery.filter (·.queryId = queryId))
    ResultAuthorityError.invalidQuery)
  let nextRevision ← ofExcept (okOr (U64.checkedAdd st.selectionRevision 1)
    ResultAuthorityError.overflow)
  let proposed ← ofExcept (proposedSelection env results binding.query st.selected operation)
  let selection ← ofExcept (selectionSummary env results.candidates proposed nextRevision
    (some binding.query))
  set { st with selected := proposed, selectionRevision := nextRevision }
  return {
    schemaVersion := resultSchemaVersion
    scanId := results.scanId
    queryId
    selectionRevision := toString nextRevision
    selection }

end Undelete.Desktop
