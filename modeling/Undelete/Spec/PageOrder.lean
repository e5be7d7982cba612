import Mathlib.Data.List.Sort
import Undelete.Native.Desktop.Results

/-!
# The order of the results

`compare_candidates` is a total order in which ids break ties: it puts a candidate in front of
another exactly when `SortsBefore` says so (`compareCandidates_eq_lt`), and a query therefore
shows its candidates in one definite order (`filteredCandidates_sorted`).
-/

namespace Undelete.Desktop

open Std

variable {env : ResultsEnv} {results : ScanResults}

/-! ## The order a sort stands for -/

def Directed {α : Type} [LT α] : CandidateSortDirection → α → α → Prop
  | .ascending, a, b => a < b
  | .descending, a, b => b < a

/-- Scores in the given direction, and candidates without a score last. -/
def ScoreBefore (direction : CandidateSortDirection) : Option Nat → Option Nat → Prop
  | some a, some b => Directed direction a b
  | some _, none => True
  | none, _ => False

/-- The field of the sort puts `a` in front of `b`. Enumerations are ordered as declared. -/
def KeyBefore (env : ResultsEnv) (sort : CandidateSort) (a b : StoredCandidate) : Prop :=
  match sort.field with
  | .path => Directed sort.direction (env.toLowercase a.row.displayPath)
      (env.toLowercase b.row.displayPath)
  | .extension => Directed sort.direction (candidateExtension env a.candidate)
      (candidateExtension env b.candidate)
  | .size => Directed sort.direction a.candidate.size b.candidate.size
  | .state => Directed sort.direction a.candidate.state.ctorIdx b.candidate.state.ctorIdx
  | .confidence => Directed sort.direction a.candidate.metadataConfidence.ctorIdx
      b.candidate.metadataConfidence.ctorIdx
  | .recoverabilityScore =>
    ScoreBefore sort.direction a.row.recoverabilityScore b.row.recoverabilityScore
  | .method => Directed sort.direction a.candidate.method.ctorIdx b.candidate.method.ctorIdx

/-- The field puts `a` in front of `b`, or leaves the decision to the ids. -/
def SortsBefore (env : ResultsEnv) (sort : CandidateSort) (a b : StoredCandidate) : Prop :=
  KeyBefore env sort a b ∨ ¬KeyBefore env sort b a ∧ a.candidate.id < b.candidate.id

/-! ## Comparators -/

theorem transCmp_directed {α : Type} (cmp : α → α → Ordering) [TransCmp cmp]
    (direction : CandidateSortDirection) :
    TransCmp fun a b => directedOrdering direction (cmp a b) := by
  cases direction with
  | ascending => exact inferInstanceAs (TransCmp cmp)
  | descending =>
    have hopposite : (fun a b => directedOrdering .descending (cmp a b)) = fun a b => cmp b a := by
      funext a b
      exact OrientedCmp.eq_swap.symm
    rw [hopposite]
    infer_instance

theorem directedOrdering_eq_lt {α : Type} [LT α] {cmp : α → α → Ordering} [OrientedCmp cmp]
    (hlt : ∀ a b, cmp a b = .lt ↔ a < b) (direction : CandidateSortDirection) (a b : α) :
    directedOrdering direction (cmp a b) = .lt ↔ Directed direction a b := by
  cases direction with
  | ascending => exact hlt a b
  | descending =>
    rw [directedOrdering, ← OrientedCmp.eq_swap]
    exact hlt b a

theorem compare_string_eq_lt (a b : String) : compare a b = .lt ↔ a < b := by
  show compareOfLessAndEq a b = .lt ↔ a < b
  exact compareOfLessAndEq_eq_lt

theorem compare_nat_eq_lt (a b : Nat) : compare a b = .lt ↔ a < b := Nat.compare_eq_lt

/-- Scored candidates in front of the others, and each group by its score. -/
theorem compareNullableScores_eq (direction : CandidateSortDirection) :
    (fun a b => compareNullableScores a b direction) =
      compareLex (compareOn fun s : StoredCandidate =>
        if s.row.recoverabilityScore.isNone then 1 else 0)
        fun a b => directedOrdering direction
          (compare (a.row.recoverabilityScore.getD 0) (b.row.recoverabilityScore.getD 0)) := by
  funext a b
  simp only [compareNullableScores, compareLex, compareOn]
  cases a.row.recoverabilityScore <;> cases b.row.recoverabilityScore <;>
    cases direction <;> simp <;>
    rfl

theorem transCmp_nullableScores (direction : CandidateSortDirection) :
    TransCmp fun a b => compareNullableScores a b direction := by
  rw [compareNullableScores_eq]
  have : TransCmp fun a b : StoredCandidate => directedOrdering direction
      (compare (a.row.recoverabilityScore.getD 0) (b.row.recoverabilityScore.getD 0)) :=
    transCmp_directed (compareOn fun s : StoredCandidate => s.row.recoverabilityScore.getD 0)
    direction
  infer_instance

theorem compareNullableScores_eq_lt (direction : CandidateSortDirection) (a b : StoredCandidate) :
    compareNullableScores a b direction = .lt ↔
      ScoreBefore direction a.row.recoverabilityScore b.row.recoverabilityScore := by
  simp only [compareNullableScores]
  cases a.row.recoverabilityScore with
  | none => cases b.row.recoverabilityScore <;> simp [ScoreBefore]
  | some x =>
    cases b.row.recoverabilityScore with
    | none => simp [ScoreBefore]
    | some y => exact directedOrdering_eq_lt compare_nat_eq_lt direction x y

/-- What `compare_candidates` makes of the field of the sort. -/
def fieldOrdering (env : ResultsEnv) (sort : CandidateSort) (a b : StoredCandidate) : Ordering :=
  match sort.field with
  | .path => directedOrdering sort.direction
      (compare (env.toLowercase a.row.displayPath) (env.toLowercase b.row.displayPath))
  | .extension => directedOrdering sort.direction
      (compare (candidateExtension env a.candidate) (candidateExtension env b.candidate))
  | .size => directedOrdering sort.direction (compare a.candidate.size b.candidate.size)
  | .state => directedOrdering sort.direction
      (compare a.candidate.state.ctorIdx b.candidate.state.ctorIdx)
  | .confidence => directedOrdering sort.direction
      (compare a.candidate.metadataConfidence.ctorIdx b.candidate.metadataConfidence.ctorIdx)
  | .recoverabilityScore => compareNullableScores a b sort.direction
  | .method => directedOrdering sort.direction
      (compare a.candidate.method.ctorIdx b.candidate.method.ctorIdx)

theorem compareCandidates_eq (env : ResultsEnv) (sort : CandidateSort) :
    compareCandidates env sort =
      compareLex (fieldOrdering env sort) (compareOn fun s => s.candidate.id) := by
  funext a b
  obtain ⟨field, direction⟩ := sort
  cases field <;> rfl

theorem transCmp_fieldOrdering (env : ResultsEnv) (sort : CandidateSort) :
    TransCmp (fieldOrdering env sort) := by
  obtain ⟨field, direction⟩ := sort
  cases field with
  | path =>
    exact transCmp_directed
      (compareOn fun s : StoredCandidate => env.toLowercase s.row.displayPath) direction
  | extension =>
    exact transCmp_directed
      (compareOn fun s : StoredCandidate => candidateExtension env s.candidate) direction
  | size =>
    exact transCmp_directed (compareOn fun s : StoredCandidate => s.candidate.size) direction
  | state =>
    exact transCmp_directed (compareOn fun s : StoredCandidate => s.candidate.state.ctorIdx)
      direction
  | confidence =>
    exact transCmp_directed
      (compareOn fun s : StoredCandidate => s.candidate.metadataConfidence.ctorIdx) direction
  | recoverabilityScore => exact transCmp_nullableScores direction
  | method =>
    exact transCmp_directed (compareOn fun s : StoredCandidate => s.candidate.method.ctorIdx)
      direction

theorem fieldOrdering_eq_lt (sort : CandidateSort) (a b : StoredCandidate) :
    fieldOrdering env sort a b = .lt ↔ KeyBefore env sort a b := by
  obtain ⟨field, direction⟩ := sort
  cases field with
  | path => exact directedOrdering_eq_lt compare_string_eq_lt direction _ _
  | extension => exact directedOrdering_eq_lt compare_string_eq_lt direction _ _
  | size => exact directedOrdering_eq_lt compare_nat_eq_lt direction _ _
  | state => exact directedOrdering_eq_lt compare_nat_eq_lt direction _ _
  | confidence => exact directedOrdering_eq_lt compare_nat_eq_lt direction _ _
  | recoverabilityScore => exact compareNullableScores_eq_lt direction a b
  | method => exact directedOrdering_eq_lt compare_nat_eq_lt direction _ _

theorem transCmp_compareCandidates (env : ResultsEnv) (sort : CandidateSort) :
    TransCmp (compareCandidates env sort) := by
  have := transCmp_fieldOrdering env sort
  rw [compareCandidates_eq]
  infer_instance

/-- The comparator decides as the order of the sort does. -/
theorem compareCandidates_eq_lt (sort : CandidateSort) (a b : StoredCandidate) :
    compareCandidates env sort a b = .lt ↔ SortsBefore env sort a b := by
  have := transCmp_fieldOrdering env sort
  have hforward : fieldOrdering env sort a b = .lt ↔ KeyBefore env sort a b :=
    fieldOrdering_eq_lt sort a b
  have hback : fieldOrdering env sort b a = .lt ↔ KeyBefore env sort b a :=
    fieldOrdering_eq_lt sort b a
  rw [← OrientedCmp.gt_iff_lt] at hback
  rw [compareCandidates_eq, compareLex, Ordering.then_eq_lt, SortsBefore, ← hforward, ← hback,
    compareOn, compare_nat_eq_lt]
  cases fieldOrdering env sort a b <;> simp

/-- Candidates that compare equal have the same id. -/
theorem id_eq_of_compare {sort : CandidateSort} {a b : StoredCandidate}
    (h : compareCandidates env sort a b = .eq) : a.candidate.id = b.candidate.id := by
  rw [compareCandidates_eq, compareLex, Ordering.then_eq_eq] at h
  exact Nat.compare_eq_eq.mp h.2

/-- The order of the sort is transitive, and total on candidates with different ids. -/
theorem SortsBefore.trans {sort : CandidateSort} {a b c : StoredCandidate}
    (hab : SortsBefore env sort a b) (hbc : SortsBefore env sort b c) :
    SortsBefore env sort a c := by
  have := transCmp_compareCandidates env sort
  rw [← compareCandidates_eq_lt] at *
  exact TransCmp.lt_trans hab hbc

theorem SortsBefore.asymm {sort : CandidateSort} {a b : StoredCandidate}
    (hab : SortsBefore env sort a b) : ¬SortsBefore env sort b a := by
  have := transCmp_compareCandidates env sort
  rw [← compareCandidates_eq_lt] at *
  exact OrientedCmp.not_lt_of_lt hab

theorem sortsBefore_total {sort : CandidateSort} {a b : StoredCandidate}
    (hne : a.candidate.id ≠ b.candidate.id) :
    SortsBefore env sort a b ∨ SortsBefore env sort b a := by
  have := transCmp_compareCandidates env sort
  rw [← compareCandidates_eq_lt, ← compareCandidates_eq_lt,
    ← OrientedCmp.gt_iff_lt (a := a) (b := b)]
  cases hcompare : compareCandidates env sort a b with
  | lt => exact .inl rfl
  | gt => exact .inr rfl
  | eq => exact absurd (id_eq_of_compare hcompare) hne

/-! ## What a query shows -/

variable (query : CandidateQuery) (sort : CandidateSort) (selected : Finset Nat)

theorem filteredCandidates_perm :
    (filteredCandidates env results query sort selected).Perm
      (results.candidates.filter (candidateMatches env query selected)) :=
  List.perm_insertionSort _ _

theorem mem_filteredCandidates {stored : StoredCandidate} :
    stored ∈ filteredCandidates env results query sort selected ↔
      stored ∈ results.candidates ∧ candidateMatches env query selected stored = true := by
  rw [(filteredCandidates_perm query sort selected).mem_iff, List.mem_filter]

/-- No candidate is shown twice. -/
theorem filteredCandidates_distinct :
    ((filteredCandidates env results query sort selected).map (·.candidate.id)).Nodup := by
  rw [((filteredCandidates_perm query sort selected).map _).nodup_iff]
  exact results.distinct.sublist (List.filter_sublist.map _)

/-- The candidates a query shows stand in the order of the sort. -/
theorem filteredCandidates_sorted :
    (filteredCandidates env results query sort selected).Pairwise (SortsBefore env sort) := by
  have htrans := transCmp_compareCandidates env sort
  have htotal : Std.Total fun a b => compareCandidates env sort a b ≠ .gt := ⟨fun a b => by
    by_cases h : compareCandidates env sort a b = .gt
    · refine .inr fun hgt => ?_
      rw [OrientedCmp.lt_of_gt h] at hgt
      cases hgt
    · exact .inl h⟩
  have hrel : IsTrans StoredCandidate
    fun a b => compareCandidates env sort a b ≠ .gt := ⟨fun a b c => by
    simp only [← Ordering.isLE_iff_ne_gt]
    exact TransCmp.isLE_trans⟩
  have hsorted : (filteredCandidates env results query sort selected).Pairwise fun a b =>
      compareCandidates env sort a b ≠ .gt := List.pairwise_insertionSort _ _
  have hdistinct := List.pairwise_map.mp
    (show ((filteredCandidates env results query sort selected).map (·.candidate.id)).Nodup from
      filteredCandidates_distinct query sort selected)
  refine (hsorted.and hdistinct).imp fun {a b} h => ?_
  rw [← compareCandidates_eq_lt]
  cases hcompare : compareCandidates env sort a b with
  | lt => rfl
  | gt => exact absurd hcompare h.1
  | eq => exact absurd (id_eq_of_compare hcompare) h.2

end Undelete.Desktop
