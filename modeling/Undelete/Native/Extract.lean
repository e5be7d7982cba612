import Undelete.Native.Core

/-!
# Direct extraction

Model of `crates/core/src/extract.rs`: the bytes of a candidate are read extent by extent
into one buffer, and a flag for each byte says whether it was recovered. A flag vector is a
list of Booleans, and the scan for missing ranges keeps the start of the range it is in.
-/

namespace Undelete

/-- Result of materializing a candidate's content; `missingRanges` are `(offset, len)`. -/
structure Extraction where
  bytes : Bytes
  missingRanges : List (Nat × Nat)
deriving DecidableEq, Repr

/-- The buffer and the coverage flags of the extent loop. -/
structure ExtractState where
  bytes : Bytes
  covered : List Bool
deriving DecidableEq, Repr

/-- `flags[lo..hi].iter_mut().for_each(|f| *f = true)`. -/
def setFlags (flags : List Bool) (lo hi : Nat) : List Bool :=
  flags.take lo ++ List.replicate (hi - lo) true ++ flags.drop hi

/-- The flags of the bytes a read of `readLen` bytes reports as bad. -/
def badFlags (readLen : Nat) (badRanges : List (Nat × Nat)) : List Bool :=
  badRanges.foldl (fun bad range =>
      setFlags bad (min range.1 readLen) (min (U64.saturatingAdd range.1 range.2) readLen))
    (List.replicate readLen false)

/-- Flags the bytes from `lo` on whose read was not bad. -/
def coverGood (covered : List Bool) (lo : Nat) (bad : List Bool) : List Bool :=
  covered.mapIdx fun i flag =>
    if lo ≤ i ∧ i < lo + bad.length ∧ bad.getD (i - lo) true = false then true else flag

/-- One extent of the loop, cut off at the size of the file. -/
def extractExtent (reader : SourceReader) (size : Nat) (st : ExtractState) (extent : ExtentRun) :
    ExtractState :=
  let lo := min extent.logicalOffset size
  let hi := min (U64.saturatingAdd extent.logicalOffset extent.len) size
  if lo ≥ hi then st
  else
    match extent.availability with
    | .sparse => { st with covered := setFlags st.covered lo hi }
    | _ =>
      match extent.physicalOffset with
      | some phys =>
        let answer := reader.readBestEffortAt phys (Bytes.slice st.bytes lo hi)
        { bytes := st.bytes.take lo ++ answer.1 ++ st.bytes.drop hi
          covered :=
            if answer.2.badRanges.isEmpty then setFlags st.covered lo hi
            else coverGood st.covered lo (badFlags (hi - lo) answer.2.badRanges) }
      | none => st

/-- The maximal runs of uncovered bytes; `opened` is the start of the run that byte `i`
    may continue. -/
def missingRangesFrom : List Bool → Nat → Option Nat → List (Nat × Nat)
  | [], _, none => []
  | [], i, some start => [(start, i - start)]
  | true :: covered, i, none => missingRangesFrom covered (i + 1) none
  | true :: covered, i, some start =>
    (start, i - start) :: missingRangesFrom covered (i + 1) none
  | false :: covered, i, none => missingRangesFrom covered (i + 1) (some i)
  | false :: covered, i, some start => missingRangesFrom covered (i + 1) (some start)

/-- Materializes a candidate's bytes by walking its extents. -/
def extractCandidate (reader : SourceReader) (candidate : Candidate) :
    Except ReadError Extraction :=
  if candidate.size < 2 ^ 64 then
    let st := candidate.extents.foldl (extractExtent reader candidate.size)
      { bytes := List.replicate candidate.size 0, covered := List.replicate candidate.size false }
    .ok { bytes := st.bytes, missingRanges := missingRangesFrom st.covered 0 none }
  else .error (.outOfBounds 0 candidate.size reader.len)

end Undelete
