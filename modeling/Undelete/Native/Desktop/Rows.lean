import Undelete.Native.Desktop.Storage
import Undelete.Native.Ntfs.Namespace
import Undelete.Native.Score

/-!
# The rows of a scan session

Model of what `build_scan_session_with_mode` in `apps/desktop/src-tauri/src/storage.rs` makes of
the candidates: the texts of a row are cleaned of characters that would control or reorder the
page around them, and cut to a bound. The id, the content hash and the validator of a row, which
the result queries leave out, are left out here as well.
-/

namespace Undelete.Desktop

open Ntfs Restore

def maxWarnings : Nat := 128
def maxTextScalars : Nat := 512
def redactedText : String := "Unreadable metadata"

/-- What the rows take from `std` and from an unstable sort. -/
structure RowEnv extends ResultsEnv where
  trimEnd : String → String
  order : EventSort

/-! ## Texts -/

def isBidirectionalFormattingControl (c : Char) : Bool :=
  [0x061C, 0x200E, 0x200F, 0x202A, 0x202B, 0x202C, 0x202D, 0x202E, 0x2066, 0x2067, 0x2068,
    0x2069].contains c.toNat

/-- The filter of the sanitizers; the first test is `char::is_control`. -/
def isPlainText (c : Char) : Bool :=
  !(c.toNat ≤ 0x1F || (0x7F ≤ c.toNat && c.toNat ≤ 0x9F)) && !isBidirectionalFormattingControl c

def sanitizeText (env : RowEnv) (value : String) : String :=
  env.trim (String.ofList ((value.toList.filter isPlainText).take maxTextScalars))

def sanitizeRequired (env : RowEnv) (value : String) : String :=
  let sanitized := sanitizeText env value
  if (env.trim sanitized).isEmpty then redactedText else sanitized

def sanitizeWarnings (env : RowEnv) (warnings : List String) : List String :=
  (warnings.take maxWarnings).map (sanitizeRequired env)

def referenceScalars : Nat := 12

/-- The end of a text that was cut, which names the candidate. -/
def referenceSuffix (candidateId : String) : String :=
  let digest := ((rsplitOnce '-' candidateId.toList).map (·.2)).getD candidateId.toList
  "… [ref " ++ String.ofList (digest.reverse.take referenceScalars).reverse ++ "]"

def sanitizeCandidatePath (env : RowEnv) (value candidateId : String) : String :=
  let sanitized := (value.toList.filter isPlainText).take (maxTextScalars + 1)
  if sanitized.length ≤ maxTextScalars then
    let path := env.trim (String.ofList sanitized)
    if path.isEmpty then redactedText else path
  else
    let suffix := referenceSuffix candidateId
    let kept := env.trimEnd (String.ofList (sanitized.take (maxTextScalars - suffix.length)))
    (if kept.isEmpty then redactedText else kept) ++ suffix

/-! ## Rows -/

def kindName : CandidateKind → String
  | .file => "file"
  | .directory => "directory"

def stateName : CandidateState → String
  | .exactEvidence => "exactEvidence"
  | .likelyComplete => "likelyComplete"
  | .completeUnvalidated => "completeUnvalidated"
  | .structurallyValid => "structurallyValid"
  | .partialContent => "partial"
  | .conflicted => "conflicted"
  | .readErrorState => "readError"
  | .zeroedOrTrimmed => "zeroedOrTrimmed"
  | .overwritten => "overwritten"
  | .metadataOnly => "metadataOnly"
  | .unknown => "unknown"

def confidenceName : MetadataConfidence → String
  | .high => "high"
  | .medium => "medium"
  | .low => "low"

def methodName : DiscoveryMethod → String
  | .ntfsMetadata => "ntfsMetadata"
  | .fatMetadata => "fatMetadata"
  | .exfatMetadata => "exfatMetadata"
  | .carving => "carving"
  | .recycleBin => "recycleBin"

def pathStateName : NtfsPathState → String
  | .exact => "exact"
  | .reconstructed => "reconstructed"
  | .incomplete => "incomplete"
  | .orphaned => "orphaned"
  | .ambiguous => "ambiguous"

/-- `candidate_path_state`; the index of a namespace lists the paths of a node. -/
def candidatePathState (candidate : Candidate) : Option NtfsNamespace → String
  | none => if candidate.nameCertain then "reconstructed" else "incomplete"
  | some ns =>
    match candidate.sequence with
    | none => "incomplete"
    | some sequence =>
      match ns.paths.filter (·.node = ⟨candidate.recordRef, sequence⟩) with
      | [] => if candidate.nameCertain then "reconstructed" else "incomplete"
      | [path] => pathStateName path.state
      | _ => "ambiguous"

/-- `Candidate::display_path` -/
def candidateDisplayPath (candidate : Candidate) : String :=
  "/".intercalate (candidate.parentPath ++ [candidate.name])

/-- `derive_opaque_id` -/
def deriveOpaqueId (env : ResultsEnv) (tag : String) (fields : List String) : String :=
  let input := Bytes.ofString "undelete-master:desktop-id:v1" ++
    fields.flatMap fun field => Bytes.ofLE 8 field.utf8ByteSize ++ Bytes.ofString field
  tag ++ "-" ++ hexLower (env.sha256 input).toList

/-- The score of a file; content evidence is the word of a validator. -/
def candidateScore (env : RowEnv) (candidate : Candidate) (hasEvidence : Bool) : Nat :=
  let inputs := RecoverabilityInputs.fromCandidate env.order candidate
  let inputs := if hasEvidence then { inputs with validated := true, validatorAvailable := true }
    else inputs
  inputs.score

def adaptCandidate (env : RowEnv) (scanId : String) (candidate : Candidate)
    (ns : Option NtfsNamespace) (hasEvidence : Bool) :
    Except DesktopStorageError CandidateRowDto :=
  if candidate.warnings.length > maxWarnings then .error .incompatible
  else if candidate.method = .carving ∧ !hasEvidence then .error .incompatible
  else
    let rowId := deriveOpaqueId env.toResultsEnv "cand" [scanId, toString candidate.id]
    .ok {
      displayPath := sanitizeCandidatePath env (candidateDisplayPath candidate) rowId
      kind := kindName candidate.kind
      state := stateName candidate.state
      sizeBytes := toString candidate.size
      metadataConfidence := confidenceName candidate.metadataConfidence
      recoverabilityScore :=
        if candidate.kind = .file then some (candidateScore env candidate hasEvidence) else none
      pathState := candidatePathState candidate ns
      method := methodName candidate.method
      warnings := sanitizeWarnings env candidate.warnings }

/-- The candidates a session retains: their scan has an id, there are not too many of them, and
    each becomes a row. `evidence` is the hash of a carved candidate's content. -/
def sessionCandidates (env : RowEnv) (scanId : String) (ns : Option NtfsNamespace)
    (evidence : Nat → Option Digest) (candidates : List Candidate) :
    Except DesktopStorageError (List StoredCandidate) :=
  if !validOpaqueId scanId || candidates.length > maxRetainedCandidatesPerScan then
    .error .incompatible
  else candidates.mapM fun candidate => do
    let row ← adaptCandidate env scanId candidate ns (evidence candidate.id).isSome
    return ⟨candidate, row, evidence candidate.id⟩

end Undelete.Desktop
