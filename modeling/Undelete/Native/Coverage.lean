import Mathlib.Data.List.Sort
import Undelete.Native.Core

/-!
# Logical coverage

How much of a candidate's content its extents describe: the interval arithmetic of
`crates/core/src/candidate.rs`.
-/

namespace Undelete

/-- The part of an extent inside the file, as a `(start, end)` pair. -/
def logicalInterval (logicalSize : Nat) (extent : ExtentRun) : Option (Nat × Nat) :=
  let start := min extent.logicalOffset logicalSize
  let stop := min (U64.saturatingAdd extent.logicalOffset extent.len) logicalSize
  if start < stop then some (start, stop) else none

/-- The order of `(u64, u64)`. -/
def intervalOrder (a b : Nat × Nat) : Prop := a.1 < b.1 ∨ a.1 = b.1 ∧ a.2 ≤ b.2

instance : DecidableRel intervalOrder := fun a b =>
  inferInstanceAs (Decidable (a.1 < b.1 ∨ a.1 = b.1 ∧ a.2 ≤ b.2))

/-- The merging loop: `last` is the last normalized interval, which is still open. -/
def mergeIntervalsFrom (last : Nat × Nat) : List (Nat × Nat) → List (Nat × Nat)
  | [] => [last]
  | (start, stop) :: intervals =>
    if start ≤ last.2 then mergeIntervalsFrom (last.1, max last.2 stop) intervals
    else last :: mergeIntervalsFrom (start, stop) intervals

def mergeIntervals : List (Nat × Nat) → List (Nat × Nat)
  | [] => []
  | interval :: intervals => mergeIntervalsFrom interval intervals

def normalizedLogicalIntervals (extents : List ExtentRun) (logicalSize : Nat) :
    List (Nat × Nat) :=
  mergeIntervals ((extents.filterMap (logicalInterval logicalSize)).insertionSort intervalOrder)

namespace Candidate

/-- Total bytes covered by extents. -/
def coveredLen (candidate : Candidate) : Nat :=
  (normalizedLogicalIntervals candidate.extents candidate.size).foldl
    (fun covered interval => U64.saturatingAdd covered (interval.2 - interval.1)) 0

/-- True when some logical range of the file has no extent at all. -/
def hasMissingRanges (candidate : Candidate) : Bool := candidate.coveredLen < candidate.size

end Candidate

end Undelete
