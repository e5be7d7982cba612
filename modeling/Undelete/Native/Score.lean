import Mathlib.Data.List.Infix
import Undelete.Native.Coverage

/-!
# The recoverability score

Model of `crates/core/src/score.rs`: the classification of a candidate's bytes by the extents
over them, and the score with its caps. The fraction of readable bytes is exact where the source
has a floating-point number, and the explanations of a score are left out.
-/

namespace Undelete

/-! ## Segments -/

/-- The start or the end of an extent's part inside the file. -/
structure ScoreEvent where
  position : Nat
  starts : Bool
  availability : ExtentAvailability
deriving DecidableEq, Repr

def scoreEvents (candidate : Candidate) : List ScoreEvent :=
  candidate.extents.flatMap fun extent =>
    let start := min extent.logicalOffset candidate.size
    let stop := min (U64.saturatingAdd extent.logicalOffset extent.len) candidate.size
    if start < stop then
      [⟨start, true, extent.availability⟩, ⟨stop, false, extent.availability⟩]
    else []

/-- `sort_unstable_by_key` on the positions: the order of the events at one position is open. -/
structure EventSort where
  sort : List ScoreEvent → List ScoreEvent
  perm : ∀ events, (sort events).Perm events
  sorted : ∀ events, (sort events).Pairwise fun a b => a.position ≤ b.position

/-- The key of the sort. -/
def eventOrder (a b : ScoreEvent) : Prop := a.position ≤ b.position

instance : DecidableRel eventOrder := fun a b =>
  inferInstanceAs (Decidable (a.position ≤ b.position))

instance : Std.Total eventOrder where
  total a b := Nat.le_total a.position b.position

instance : IsTrans ScoreEvent eventOrder where
  trans _ _ _ := Nat.le_trans

/-- A stable sort is one of them. -/
def EventSort.insertion : EventSort where
  sort := List.insertionSort eventOrder
  perm := List.perm_insertionSort eventOrder
  sorted := List.pairwise_insertionSort eventOrder

/-- How many extents of each class are open. -/
abbrev ActiveCounts := ExtentAvailability → Nat

def allAvailabilities : List ExtentAvailability :=
  [.sparse, .resident, .freeInSnapshot, .zeroed, .unknown, .currentlyAllocated, .readFailed,
    .outOfVolume]

def ScoreEvent.apply (event : ScoreEvent) (active : ActiveCounts) : ActiveCounts :=
  fun availability =>
    if availability ≠ event.availability then active availability
    else if event.starts then U64.saturatingAdd (active availability) 1
    else active availability - 1

/-- A part of the file with the same classes throughout. -/
structure LogicalSegment where
  start : Nat
  stop : Nat
  active : ExtentAvailability → Bool

/-- The sweep, one event a round. The inner loop of the source takes the events at one position:
    behind the first of them `previous` is that position, so they add no segment. -/
def sweepFrom (previous : Nat) (active : ActiveCounts) : List ScoreEvent → List LogicalSegment
  | [] => []
  | event :: events =>
    let segments := sweepFrom event.position (event.apply active) events
    if previous < event.position ∧ allAvailabilities.any fun availability => 0 < active availability
    then ⟨previous, event.position, fun availability => 0 < active availability⟩ :: segments
    else segments

def classifiedLogicalSegments (order : EventSort) (candidate : Candidate) : List LogicalSegment :=
  match order.sort (scoreEvents candidate) with
  | [] => []
  | first :: events => sweepFrom first.position (fun _ => 0) (first :: events)

/-! ## Inputs -/

structure RecoverabilityInputs where
  totalLen : Nat := 0
  freeBytes : Nat := 0
  allocatedConflictBytes : Nat := 0
  missingBytes : Nat := 0
  readErrorBytes : Nat := 0
  zeroedBytes : Nat := 0
  zeroedRiskBytes : Nat := 0
  residentBytes : Nat := 0
  sparseBytes : Nat := 0
  chainInferred : Bool := false
  validated : Bool := false
  validatorAvailable : Bool := false
deriving DecidableEq, Repr

/-- Counts `len` more bytes when `counted` holds. -/
def addBytes (counted : Bool) (len bytes : Nat) : Nat :=
  if counted then U64.saturatingAdd bytes len else bytes

/-- Some evidence speaks against the bytes, or nothing is known of them. -/
def isAdverse (active : ExtentAvailability → Bool) : Bool :=
  active .outOfVolume || active .readFailed || active .currentlyAllocated || active .unknown

/-- The class under which clean bytes are counted. -/
def cleanClass (active : ExtentAvailability → Bool) : Option ExtentAvailability :=
  if isAdverse active then none
  else if active .zeroed then some .zeroed
  else if active .freeInSnapshot then some .freeInSnapshot
  else if active .resident then some .resident
  else if active .sparse then some .sparse
  else none

namespace RecoverabilityInputs

/-- One round of the loop of `from_candidate`. -/
def addSegment (inp : RecoverabilityInputs) (segment : LogicalSegment) : RecoverabilityInputs :=
  let len := segment.stop - segment.start
  let has := segment.active
  let clean := cleanClass has
  { inp with
    missingBytes := addBytes (has .outOfVolume) len inp.missingBytes
    readErrorBytes := addBytes (has .readFailed) len inp.readErrorBytes
    allocatedConflictBytes := addBytes (has .currentlyAllocated) len inp.allocatedConflictBytes
    zeroedRiskBytes := addBytes (has .zeroed) len inp.zeroedRiskBytes
    zeroedBytes := addBytes (clean = some .zeroed) len inp.zeroedBytes
    freeBytes := addBytes (clean = some .freeInSnapshot) len inp.freeBytes
    residentBytes := addBytes (clean = some .resident) len inp.residentBytes
    sparseBytes := addBytes (clean = some .sparse) len inp.sparseBytes }

def fromCandidate (order : EventSort) (c : Candidate) : RecoverabilityInputs :=
  let inp := (classifiedLogicalSegments order c).foldl addSegment { totalLen := c.size }
  let covered := (normalizedLogicalIntervals c.extents c.size).foldl
    (fun total interval => U64.saturatingAdd total (interval.2 - interval.1)) 0
  { inp with
    missingBytes := addBytes (covered < c.size) (c.size - covered) inp.missingBytes
    chainInferred := c.warnings.any fun w =>
      decide ("inferred".toList <:+: w.toList) || decide ("assumed".toList <:+: w.toList) }

/-! ## The score -/

/-- The bytes that are available without conflict. -/
def readable (inp : RecoverabilityInputs) : Nat :=
  min (U64.saturatingAdd (U64.saturatingAdd (U64.saturatingAdd inp.freeBytes inp.residentBytes)
    inp.sparseBytes) inp.zeroedBytes) inp.totalLen

/-- The caps, the most restrictive one that applies. -/
def cap (inp : RecoverabilityInputs) : Nat :=
  let cap := if inp.validated then 99 else 84
  let cap := if inp.chainInferred then min cap 74 else cap
  let cap := if 0 < inp.missingBytes ∨ 0 < inp.readErrorBytes then min cap 69 else cap
  let cap := if 0 < inp.allocatedConflictBytes then min cap 49 else cap
  if inp.totalLen / 2 < max inp.zeroedRiskBytes inp.zeroedBytes then min cap 10 else cap

def score (inp : RecoverabilityInputs) : Nat :=
  if inp.totalLen = 0 then 99
  else
    let usable := min (U64.saturatingAdd inp.readable inp.allocatedConflictBytes) inp.totalLen
    if usable = 0 then 0
    else
      let score := inp.readable * 99 / inp.totalLen
      let score := if inp.validated ∧ inp.missingBytes = 0 ∧ inp.allocatedConflictBytes = 0 then
        max score 85 else score
      min score (min inp.cap 99)

end RecoverabilityInputs

end Undelete
