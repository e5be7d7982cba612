import Mathlib.Data.Finset.Insert
import Mathlib.Data.List.AList
import Undelete.Native.Carve.Scan

/-!
# Deep scan

Model of `merge_carved_evidence` and `exact_physical_range` of `crates/cli/src/deep.rs`: what
the carver found joins the candidates of the metadata, and where a carved range belongs to
exactly one metadata candidate the evidence is assigned to it.

The reservations of memory are taken to succeed.
-/

namespace Undelete

def Carve.CarveEvidence.range (item : CarveEvidence) : Nat × Nat := (item.physicalOffset, item.len)

namespace Deep

open Carve

/-- `CliError`, as far as a merge fails with it. -/
inductive CliError where
  | deepScanResult (index : Nat)
deriving DecidableEq, Repr

/-- `HashMap` with keys of type `(u64, u64)`, the offset and the length of a range. -/
abbrev RangeMap (β : Type) := AList fun _ : Nat × Nat => β

/-! ## Physical ranges -/

/-- The loop of `exact_physical_range`, with the logical and the physical position behind the
    extents before. -/
def physicalRangeFrom (size : Nat) : List ExtentRun → Nat → Option Nat → Nat → Option (Nat × Nat)
  | [], logical, physicalStart, _ => do
    let start ← physicalStart
    if logical = size then some (start, size) else none
  | extent :: extents, logical, physicalStart, physical => do
    if extent.len = 0 ∨ extent.logicalOffset ≠ logical then none
    let extentPhysical ← extent.physicalOffset
    let (start, physical) ← match physicalStart with
      | none => some (extentPhysical, extentPhysical)
      | some start => if extentPhysical ≠ physical then none else some (start, physical)
    let logical ← U64.checkedAdd logical extent.len
    let physical ← U64.checkedAdd physical extent.len
    if logical > size then none
    physicalRangeFrom size extents logical (some start) physical

/-- The range of a candidate whose content is one piece of the disk. -/
def exactPhysicalRange (candidate : Candidate) : Option (Nat × Nat) :=
  if candidate.size = 0 ∨ candidate.extents.isEmpty then none
  else physicalRangeFrom candidate.size candidate.extents 0 none 0

/-! ## Metadata -/

/-- What `merge_carved_evidence` collects of the metadata candidates. A range that belongs to
    several of them is bound to `none`. -/
structure MetadataIndex where
  usedIds : Finset Nat := ∅
  lastId : Option Nat := none
  metadataRanges : RangeMap (Option Nat) := ∅

def ownRange (metadataRanges : RangeMap (Option Nat)) (range : Nat × Nat) (id : Nat) :
    RangeMap (Option Nat) :=
  match metadataRanges.lookup range with
  | some owner => if owner ≠ some id then metadataRanges.insert range none else metadataRanges
  | none => metadataRanges.insert range (some id)

def indexCandidate (index : Nat) (ids : MetadataIndex) (candidate : Candidate) :
    Except CliError MetadataIndex := do
  if candidate.id ∈ ids.usedIds then
    throw (.deepScanResult index)
  let usedIds := insert candidate.id ids.usedIds
  let lastId := some (ids.lastId.elim candidate.id fun current => max current candidate.id)
  if candidate.method = .ntfsMetadata then
    match exactPhysicalRange candidate with
    | some range =>
      return { usedIds, lastId, metadataRanges := ownRange ids.metadataRanges range candidate.id }
    | none => return { usedIds, lastId, metadataRanges := ids.metadataRanges }
  else return { usedIds, lastId, metadataRanges := ids.metadataRanges }

/-! ## Merge -/

structure MergeState where
  candidates : List Candidate
  usedIds : Finset Nat
  lastId : Option Nat
  resolvedCarveRanges : RangeMap Nat := ∅
  evidence : List CarveEvidence := []
  evidenceRanges : RangeMap (Vector UInt8 32 × String) := ∅

def sharedRangeWarning : String :=
  "This carved byte range is also referenced by multiple NTFS metadata candidates, so carving " ++
    "evidence could not be assigned to one metadata record."

/-- A carved candidate as it joins the list, behind the range's entry of the metadata. -/
def admittedCandidate (candidate : Candidate) (id : Nat) (owner : Option (Option Nat)) :
    Candidate :=
  { candidate with
    id
    warnings := if owner = some none then candidate.warnings ++ [sharedRangeWarning]
      else candidate.warnings }

/-- The id that the evidence of a carved range refers to. -/
def resolveCarve (index : Nat) (metadataRanges : RangeMap (Option Nat)) (st : MergeState)
    (candidate : Candidate) (range : Nat × Nat) : Except CliError (Nat × MergeState) := do
  match st.resolvedCarveRanges.lookup range with
  | some existingId => return (existingId, st)
  | none =>
    match metadataRanges.lookup range with
    | some (some metadataId) => return (metadataId, st)
    | owner =>
      let nextId ← okOr (st.lastId.elim (some 1) fun value => U64.checkedAdd value 1)
        (.deepScanResult index)
      if nextId ∈ st.usedIds then
        throw (.deepScanResult index)
      return (nextId,
        { st with
          candidates := st.candidates ++ [admittedCandidate candidate nextId owner]
          usedIds := insert nextId st.usedIds
          lastId := some nextId })

/-- One round of the merge loop. -/
def mergeItem (index : Nat) (metadataRanges : RangeMap (Option Nat)) (st : MergeState)
    (found : Candidate × CarveEvidence) : Except CliError MergeState := do
  let (candidate, item) := found
  let range := item.range
  -- the scanner's candidate and its evidence must describe one range
  if candidate.method ≠ .carving ∨ candidate.id ≠ item.candidateId ∨
      candidate.recordRef ≠ item.physicalOffset ∨ candidate.size ≠ item.len ∨
      exactPhysicalRange candidate ≠ some range then
    throw (.deepScanResult index)
  let (assignedId, st) ← resolveCarve index metadataRanges st candidate range
  let st := { st with resolvedCarveRanges := st.resolvedCarveRanges.insert range assignedId }
  let fingerprint := (item.contentSha256, item.validator)
  match st.evidenceRanges.lookup range with
  | some existing =>
    -- two findings of one range must agree
    if existing ≠ fingerprint then
      throw (.deepScanResult index)
    return st
  | none =>
    return { st with
      evidence := st.evidence ++ [{ item with candidateId := assignedId }]
      evidenceRanges := st.evidenceRanges.insert range fingerprint }

def mergeCarvedEvidence (index : Nat) (candidates : List Candidate) (carved : CarveReport) :
    Except CliError (List Candidate × List CarveEvidence) := do
  if carved.candidates.length ≠ carved.evidence.length then
    throw (.deepScanResult index)
  let ids ← candidates.foldlM (indexCandidate index) {}
  let st ← (carved.candidates.zip carved.evidence).foldlM (mergeItem index ids.metadataRanges)
    { candidates, usedIds := ids.usedIds, lastId := ids.lastId }
  return (st.candidates, st.evidence)

end Deep

end Undelete
