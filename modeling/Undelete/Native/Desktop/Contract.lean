import Undelete.Native.Desktop.ResultsWorkspace

/-!
# The contract of the result commands

What crosses from the native side to the window. The answers of `results.rs` are written as JSON
by `serde`, with the names of their fields in camel case; `apps/desktop/src/api/storage.ts` reads
them back field by field and refuses what it did not expect.

A refusal is `none`: its error carries no data. A field that is absent reads as `null`, which the
check of the keys has excluded before any field is read.
-/

namespace Undelete.Desktop

inductive Json where
  | null
  | boolean (value : Bool)
  | number (value : Int)
  | string (value : String)
  | array (items : List Json)
  | object (fields : List (String × Json))

/-! ## Writing -/

def RecoveryEligibility.name : RecoveryEligibility → String
  | .complete => "complete"
  | .bestEffort => "bestEffort"
  | .ineligible => "ineligible"

/-- An `Option`: the value, or `null`. -/
def Json.optional {α : Type} (write : α → Json) : Option α → Json
  | none => .null
  | some value => write value

def ExtensionFacetDto.toJson (facet : ExtensionFacetDto) : Json :=
  .object [("extension", .string facet.extension), ("count", .string facet.count)]

def CandidateSelectionSummaryDto.toJson (summary : CandidateSelectionSummaryDto) : Json :=
  .object [("selectionRevision", .string summary.selectionRevision),
    ("selectedCandidates", .string summary.selectedCandidates),
    ("selectedFiles", .string summary.selectedFiles),
    ("selectedDirectories", .string summary.selectedDirectories),
    ("selectedLogicalBytes", .string summary.selectedLogicalBytes),
    ("bestEffortCandidates", .string summary.bestEffortCandidates),
    ("conflictedCandidates", .string summary.conflictedCandidates),
    ("ineligibleCandidates", .string summary.ineligibleCandidates),
    ("matchingSelectedCandidates", .string summary.matchingSelectedCandidates)]

def ActionableCandidateRowDto.toJson (row : ActionableCandidateRowDto) : Json :=
  .object [("id", .string row.id),
    ("displayPath", .string row.displayPath),
    ("extension", .string row.extension),
    ("kind", .string row.kind),
    ("state", .string row.state),
    ("sizeBytes", .string row.sizeBytes),
    ("metadataConfidence", .string row.metadataConfidence),
    ("recoverabilityScore", .optional (fun score : Nat => .number score) row.recoverabilityScore),
    ("pathState", .string row.pathState),
    ("method", .string row.method),
    ("eligibility", .string row.eligibility.name),
    ("selected", .boolean row.selected),
    ("warnings", .array (row.warnings.map .string))]

def CandidateQueryPageDto.toJson (page : CandidateQueryPageDto) : Json :=
  .object [("schemaVersion", .number page.schemaVersion),
    ("scanId", .string page.scanId),
    ("queryId", .string page.queryId),
    ("queryRevision", .string page.queryRevision),
    ("cursor", .optional .string page.cursor),
    ("nextCursor", .optional .string page.nextCursor),
    ("filteredTotal", .string page.filteredTotal),
    ("extensionFacets", .array (page.extensionFacets.map (·.toJson))),
    ("selection", page.selection.toJson),
    ("candidates", .array (page.candidates.map (·.toJson)))]

def CandidateSelectionUpdateDto.toJson (update : CandidateSelectionUpdateDto) : Json :=
  .object [("schemaVersion", .number update.schemaVersion),
    ("scanId", .string update.scanId),
    ("queryId", .string update.queryId),
    ("selectionRevision", .string update.selectionRevision),
    ("selection", update.selection.toJson)]

/-! ## Reading -/

namespace Contract

def maxWarnings : Nat := 128
def maxTextCodePoints : Nat := 512

abbrev Fields := List (String × Json)

def record : Json → Option Fields
  | .object fields => some fields
  | _ => none

/-- `exactKeys`; the names of the fields of an object are distinct. -/
def exactKeys (fields : Fields) (keys : List String) : Bool :=
  fields.length = keys.length && keys.all fun key => fields.any (·.1 = key)

/-- `item.key` -/
def field (fields : Fields) (key : String) : Json := (fields.lookup key).getD .null

/-- A text is returned as it is when the checks let it through. -/
def checkedText (valid : String → Bool) : Json → Option String
  | .string value => if valid value then some value else none
  | _ => none

def forbiddenTextCharacter (c : Char) : Bool :=
  let code := c.toNat
  code ≤ 0x1f || (0x7f ≤ code && code ≤ 0x9f) || (0x202a ≤ code && code ≤ 0x202e) ||
    (0x2066 ≤ code && code ≤ 0x2069)

def validText (allowEmpty : Bool) (value : String) : Bool :=
  (allowEmpty || !value.isEmpty) && value.length ≤ maxTextCodePoints &&
    !value.toList.any forbiddenTextCharacter

def text (allowEmpty : Bool) : Json → Option String := checkedText (validText allowEmpty)

/-- The regular expression `^[A-Za-z0-9_-]{1,128}$`. -/
def isOpaqueId (value : String) : Bool :=
  1 ≤ value.length && value.length ≤ 128 &&
    value.toList.all fun c => c.isAlphanum || c = '_' || c = '-'

def opaqueId : Json → Option String := checkedText isOpaqueId

def nullableOpaqueId : Json → Option (Option String)
  | .null => some none
  | value => some <$> opaqueId value

/-- The checks of `decimal` are those of `validCandidateId`. -/
def decimal : Json → Option String := checkedText validCandidateId

def boolean : Json → Option Bool
  | .boolean value => some value
  | _ => none

def warningList : Json → Option (List String)
  | .array items => if items.length > maxWarnings then none else items.mapM (text false)
  | _ => none

def oneOf (allowed : List String) : Json → Option String := checkedText allowed.contains

/-- `score`: a file has one, a directory has none. -/
def score (kind : String) : Json → Option (Option Nat)
  | .number value =>
    if kind = "file" ∧ 0 ≤ value ∧ value ≤ 100 then some (some value.toNat) else none
  | .null => if kind = "directory" then some none else none
  | _ => none

def kinds : List String := ["file", "directory"]

def states : List String :=
  ["exactEvidence", "likelyComplete", "completeUnvalidated", "structurallyValid", "partial",
    "conflicted", "readError", "zeroedOrTrimmed", "overwritten", "metadataOnly", "unknown"]

def confidences : List String := ["high", "medium", "low"]

def pathStates : List String := ["exact", "reconstructed", "incomplete", "orphaned", "ambiguous"]

def methods : List String :=
  ["ntfsMetadata", "fatMetadata", "exfatMetadata", "carving", "recycleBin"]

def eligibility : Json → Option RecoveryEligibility
  | .string value => [.complete, .bestEffort, .ineligible].find? (·.name = value)
  | _ => none

section Tables

-- the tables of the JavaScript engine behind `trim` and the lower-case functions
variable (env : TextEnv)

/-- The checks of `normalizedExtension`; `toLowerCase` is the lower case of the locale `en-US`. -/
def isNormalizedExtension (extension : String) : Bool :=
  validText true extension && extension.length ≤ maxExtensionScalars &&
    extension = env.toLocaleLowerCase extension &&
    !extension.toList.any (['.', '/', '\\', Char.ofNat 0xFEFF].contains ·) &&
    env.trim extension = extension

def normalizedExtension : Json → Option String := checkedText (isNormalizedExtension env)

def actionableCandidate (value : Json) : Option ActionableCandidateRowDto := do
  let item ← record value
  if !exactKeys item ["id", "displayPath", "extension", "kind", "state", "sizeBytes",
      "metadataConfidence", "recoverabilityScore", "pathState", "method", "eligibility",
      "selected", "warnings"] then none
  let kind ← oneOf kinds (field item "kind")
  return {
    id := ← decimal (field item "id")
    displayPath := ← text false (field item "displayPath")
    extension := ← normalizedExtension env (field item "extension")
    kind
    state := ← oneOf states (field item "state")
    sizeBytes := ← decimal (field item "sizeBytes")
    metadataConfidence := ← oneOf confidences (field item "metadataConfidence")
    recoverabilityScore := ← score kind (field item "recoverabilityScore")
    pathState := ← oneOf pathStates (field item "pathState")
    method := ← oneOf methods (field item "method")
    eligibility := ← eligibility (field item "eligibility")
    selected := ← boolean (field item "selected")
    warnings := ← warningList (field item "warnings") }

def extensionFacet (value : Json) : Option ExtensionFacetDto := do
  let item ← record value
  if !exactKeys item ["extension", "count"] then none
  return {
    extension := ← normalizedExtension env (field item "extension")
    count := ← decimal (field item "count") }

end Tables

/-- The relations between the counters of a selection. -/
def coherentSummary (parsed : CandidateSelectionSummaryDto) : Bool :=
  let selected := bigInt parsed.selectedCandidates
  bigInt parsed.selectedFiles + bigInt parsed.selectedDirectories = selected &&
    bigInt parsed.bestEffortCandidates ≤ selected &&
    bigInt parsed.conflictedCandidates ≤ selected &&
    bigInt parsed.ineligibleCandidates ≤ selected &&
    bigInt parsed.matchingSelectedCandidates ≤ selected

def selectionSummary (value : Json) : Option CandidateSelectionSummaryDto := do
  let item ← record value
  if !exactKeys item ["selectionRevision", "selectedCandidates", "selectedFiles",
      "selectedDirectories", "selectedLogicalBytes", "bestEffortCandidates",
      "conflictedCandidates", "ineligibleCandidates", "matchingSelectedCandidates"] then none
  let parsed : CandidateSelectionSummaryDto := {
    selectionRevision := ← decimal (field item "selectionRevision")
    selectedCandidates := ← decimal (field item "selectedCandidates")
    selectedFiles := ← decimal (field item "selectedFiles")
    selectedDirectories := ← decimal (field item "selectedDirectories")
    selectedLogicalBytes := ← decimal (field item "selectedLogicalBytes")
    bestEffortCandidates := ← decimal (field item "bestEffortCandidates")
    conflictedCandidates := ← decimal (field item "conflictedCandidates")
    ineligibleCandidates := ← decimal (field item "ineligibleCandidates")
    matchingSelectedCandidates := ← decimal (field item "matchingSelectedCandidates") }
  if coherentSummary parsed then some parsed else none

/-- The items of an array, unless there are more than `limit`. -/
def boundedItems (limit : Nat) : Json → Option (List Json)
  | .array items => if items.length > limit then none else some items
  | _ => none

def schemaVersion : Json → Option Nat
  | .number value => if value = resultSchemaVersion then some resultSchemaVersion else none
  | _ => none

def parseCandidateQueryPage (env : TextEnv) (value : Json) : Option CandidateQueryPageDto := do
  let item ← record value
  if !exactKeys item ["schemaVersion", "scanId", "queryId", "queryRevision", "cursor",
      "nextCursor", "filteredTotal", "extensionFacets", "selection", "candidates"] then none
  let version ← schemaVersion (field item "schemaVersion")
  let facetItems ← boundedItems maxRetainedCandidatesPerScan (field item "extensionFacets")
  let candidateItems ← boundedItems maxCandidatesPerPage (field item "candidates")
  let extensionFacets ← facetItems.mapM (extensionFacet env)
  if ¬(extensionFacets.map (·.extension)).Nodup then none
  let candidates ← candidateItems.mapM (actionableCandidate env)
  if ¬(candidates.map (·.id)).Nodup then none
  let filteredTotal ← decimal (field item "filteredTotal")
  let selection ← selectionSummary (field item "selection")
  if bigInt filteredTotal < candidates.length ∨
      bigInt selection.matchingSelectedCandidates > bigInt filteredTotal then none
  return {
    schemaVersion := version
    scanId := ← opaqueId (field item "scanId")
    queryId := ← opaqueId (field item "queryId")
    queryRevision := ← decimal (field item "queryRevision")
    cursor := ← nullableOpaqueId (field item "cursor")
    nextCursor := ← nullableOpaqueId (field item "nextCursor")
    filteredTotal
    extensionFacets
    selection
    candidates }

def parseCandidateSelectionUpdate (value : Json) : Option CandidateSelectionUpdateDto := do
  let item ← record value
  if !exactKeys item ["schemaVersion", "scanId", "queryId", "selectionRevision", "selection"] then
    none
  let version ← schemaVersion (field item "schemaVersion")
  let selectionRevision ← decimal (field item "selectionRevision")
  let selection ← selectionSummary (field item "selection")
  if selection.selectionRevision ≠ selectionRevision then none
  return {
    schemaVersion := version
    scanId := ← opaqueId (field item "scanId")
    queryId := ← opaqueId (field item "queryId")
    selectionRevision
    selection }

end Contract

/-! ## Requests -/

/-- A query as the window sends it: its revision is a number of JavaScript, and counting by one
    does not get beyond 2^53. -/
def sentQuery (query : CandidateQuery) : CandidateQuery :=
  { query with revision := toString (min (bigInt query.revision) (2 ^ 53)) }

end Undelete.Desktop
