import Mathlib.Algebra.GroupWithZero.Nat
import Undelete.Native.Score

/-!
# The sweep over a candidate's extents

The sweep sees the starts and the ends of the extents in the order of their positions, and
counts the open extents of each class. Between two events nothing changes, so the segments say
of every position which classes lie over it, in whatever order the events of one position come.

## Key results

- `weight_sweepFrom`: the segments, measured, are the positions between the events.
- `levels_zero`: the open extents at a position are those that lie over it.
- `weight_classifiedLogicalSegments`: a measure of the segments counts positions of the file.
-/

namespace Undelete

/-- Some extent of the class lies over position `i`. -/
def hasEvidence (candidate : Candidate) (i : Nat) (availability : ExtentAvailability) : Bool :=
  candidate.extents.any fun extent => extent.availability = availability ∧
    extent.logicalOffset ≤ i ∧ i < extent.logicalOffset + extent.len

/-- The number of positions of the file with the property `p`. -/
def bytesWhere (candidate : Candidate) (p : Nat → Bool) : Nat :=
  (List.range candidate.size).countP p

/-! ## Segments and positions -/

/-- The open extents at position `i`, from the events that are still to come. -/
def levels (active : ActiveCounts) : List ScoreEvent → Nat → ActiveCounts
  | [], _ => active
  | event :: events, i =>
    if i < event.position then active else levels (event.apply active) events i

/-- The classes with an open extent. -/
def present (active : ActiveCounts) : ExtentAvailability → Bool :=
  fun availability => 0 < active availability

/-- The length of the segments whose classes have the property `p`. -/
def weight (p : (ExtentAvailability → Bool) → Bool) (segments : List LogicalSegment) : Nat :=
  ((segments.filter fun segment => p segment.active).map
    fun segment => segment.stop - segment.start).sum

section Sweep

variable {p : (ExtentAvailability → Bool) → Bool} {previous size : Nat} {active : ActiveCounts}
  {events : List ScoreEvent}

theorem weight_cons (segment : LogicalSegment) (segments : List LogicalSegment) :
    weight p (segment :: segments) =
      (if p segment.active then segment.stop - segment.start else 0) + weight p segments := by
  unfold weight
  rw [List.filter_cons]
  split
  · next hp => rw [List.map_cons, List.sum_cons]
  · next hp => rw [Nat.zero_add]

theorem present_of_none (h : ¬allAvailabilities.any fun availability => 0 < active availability) :
    present active = fun _ => false := by
  funext availability
  have hall : availability ∈ allAvailabilities := by
    cases availability <;> decide
  rw [List.any_eq_true] at h
  exact Bool.eq_false_iff.mpr fun hpresent => h ⟨availability, hall, hpresent⟩

/-- One round adds the positions in front of its event. -/
theorem weight_sweepFrom_cons (hnone : p (fun _ => false) = false) (event : ScoreEvent)
    (hle : previous ≤ event.position) :
    weight p (sweepFrom previous active (event :: events)) =
      (if p (present active) then event.position - previous else 0) +
        weight p (sweepFrom event.position (event.apply active) events) := by
  rw [sweepFrom]
  split
  · rw [weight_cons]
    rfl
  · next hskip =>
    by_cases hany : allAvailabilities.any fun availability => 0 < active availability
    · have hsame : event.position - previous = 0 := by
        have hnot : ¬previous < event.position := fun hlt => hskip ⟨hlt, hany⟩
        omega
      rw [hsame, ite_self, Nat.zero_add]
    · rw [present_of_none hany, hnone, if_neg Bool.false_ne_true, Nat.zero_add]

theorem countP_range'_const {a n : Nat} {q : Nat → Bool} {b : Bool}
    (h : ∀ i, a ≤ i → i < a + n → q i = b) :
    (List.range' a n).countP q = if b then n else 0 := by
  cases b with
  | true =>
    have hlength : (List.range' a n).length = n := List.length_range'
    rw [if_pos rfl]
    refine Eq.trans (List.countP_eq_length.mpr fun i hi => ?_) hlength
    have hmem := List.mem_range'_1.mp hi
    exact h i hmem.1 hmem.2
  | false =>
    rw [if_neg Bool.false_ne_true, List.countP_eq_zero]
    intro i hi
    have hmem := List.mem_range'_1.mp hi
    rw [h i hmem.1 hmem.2]
    exact Bool.false_ne_true

/-- The segments, measured, are the positions between the events. -/
theorem weight_sweepFrom (hnone : p (fun _ => false) = false)
    (hsorted : events.Pairwise fun a b => a.position ≤ b.position)
    (hprevious : ∀ event ∈ events, previous ≤ event.position)
    (hsize : ∀ event ∈ events, event.position ≤ size)
    (hclosed : present (events.foldl (fun active event => event.apply active) active) =
      fun _ => false) :
    weight p (sweepFrom previous active events) =
      (List.range' previous (size - previous)).countP
        fun i => p (present (levels active events i)) := by
  induction events generalizing previous active with
  | nil =>
    rw [@countP_range'_const _ _ _ false]
    · rfl
    · intro i _ _
      show p (present active) = false
      rw [show present active = fun _ => false from hclosed]
      exact hnone
  | cons event events ih =>
    obtain ⟨hfirst, hsorted⟩ := List.pairwise_cons.mp hsorted
    have hle := hprevious event List.mem_cons_self
    have hstop := hsize event List.mem_cons_self
    have hsplit : List.range' previous (size - previous) =
        List.range' previous (event.position - previous) ++
          List.range' event.position (size - event.position) := by
      have happend := @List.range'_append_1 previous (event.position - previous)
        (size - event.position)
      rw [Nat.add_sub_cancel' hle] at happend
      rw [happend]
      congr 1
      omega
    have hbefore : (List.range' previous (event.position - previous)).countP
        (fun i => p (present (levels active (event :: events) i))) =
          if p (present active) then event.position - previous else 0 := by
      apply countP_range'_const
      intro i _ hi
      rw [levels, if_pos (by omega)]
    have hbehind : (List.range' event.position (size - event.position)).countP
        (fun i => p (present (levels active (event :: events) i))) =
          (List.range' event.position (size - event.position)).countP
            fun i => p (present (levels (event.apply active) events i)) := by
      apply List.countP_congr
      intro i hi
      have hmem := List.mem_range'_1.mp hi
      rw [levels, if_neg (by omega)]
    rw [weight_sweepFrom_cons hnone event hle, hsplit, List.countP_append, hbefore, hbehind,
      ih hsorted hfirst (fun later hlater => hsize later (List.mem_cons_of_mem _ hlater)) hclosed]

end Sweep

/-! ## Open extents -/

/-- The events of the class that open an extent, and those that close one. -/
def opened (availability : ExtentAvailability) (events : List ScoreEvent) : Nat :=
  events.countP fun event => event.starts && event.availability = availability

def closed (availability : ExtentAvailability) (events : List ScoreEvent) : Nat :=
  events.countP fun event => !event.starts && event.availability = availability

/-- No prefix of the events closes more extents of a class than it opens. -/
def Balanced (events : List ScoreEvent) : Prop :=
  ∀ done rest availability, events = done ++ rest →
    closed availability done ≤ opened availability done

theorem Balanced.left {events events' : List ScoreEvent} (h : Balanced (events ++ events')) :
    Balanced events := by
  intro done rest availability heq
  exact h done (rest ++ events') availability (by rw [heq, List.append_assoc])

theorem opened_append (availability : ExtentAvailability) (events events' : List ScoreEvent) :
    opened availability (events ++ events') =
      opened availability events + opened availability events' := List.countP_append

theorem closed_append (availability : ExtentAvailability) (events events' : List ScoreEvent) :
    closed availability (events ++ events') =
      closed availability events + closed availability events' := List.countP_append

/-- The counters hold the extents that are open. -/
theorem foldl_apply {events : List ScoreEvent} (hbalanced : Balanced events)
    (hfew : events.length < 2 ^ 64) (availability : ExtentAvailability) :
    events.foldl (fun active event => event.apply active) (fun _ => 0) availability =
      opened availability events - closed availability events := by
  induction events using List.reverseRecOn with
  | nil => rfl
  | append_singleton events event ih =>
    have hle := hbalanced.left events [] availability (List.append_nil _).symm
    have hlength : opened availability events ≤ events.length := List.countP_le_length
    rw [List.length_append, List.length_singleton] at hfew
    rw [List.foldl_append, List.foldl_cons, List.foldl_nil, ScoreEvent.apply,
      ih hbalanced.left (by omega), opened_append, closed_append]
    simp only [opened, closed, List.countP_singleton] at hle hlength ⊢
    by_cases hclass : availability = event.availability
    · cases hstarts : event.starts with
      | true =>
        simp only [hclass, U64.saturatingAdd] at hle hlength ⊢
        simp
        omega
      | false =>
        simp only [hclass] at hle hlength ⊢
        simp
        omega
    · simp [hclass, Ne.symm hclass]

/-! ## The events of a candidate -/

/-- The part of an extent inside the file, as the sweep cuts it. -/
def ExtentRun.clippedStart (extent : ExtentRun) (size : Nat) : Nat := min extent.logicalOffset size

def ExtentRun.clippedStop (extent : ExtentRun) (size : Nat) : Nat :=
  min (U64.saturatingAdd extent.logicalOffset extent.len) size

section Events

variable {candidate : Candidate}

theorem scoreEvents_eq (candidate : Candidate) :
    scoreEvents candidate = candidate.extents.flatMap fun extent =>
      if extent.clippedStart candidate.size < extent.clippedStop candidate.size then
        [⟨extent.clippedStart candidate.size, true, extent.availability⟩,
          ⟨extent.clippedStop candidate.size, false, extent.availability⟩]
      else [] := rfl

theorem position_le_size {event : ScoreEvent} (h : event ∈ scoreEvents candidate) :
    event.position ≤ candidate.size := by
  rw [scoreEvents_eq, List.mem_flatMap] at h
  obtain ⟨extent, _, hevent⟩ := h
  split at hevent
  · rw [List.mem_pair] at hevent
    obtain rfl | rfl := hevent
    · exact Nat.min_le_right _ _
    · exact Nat.min_le_right _ _
  · exact absurd hevent List.not_mem_nil

theorem length_scoreEvents_le (candidate : Candidate) :
    (scoreEvents candidate).length ≤ 2 * candidate.extents.length := by
  rw [scoreEvents_eq]
  induction candidate.extents with
  | nil => exact Nat.zero_le _
  | cons extent extents ih =>
    rw [List.flatMap_cons, List.length_append, List.length_cons]
    split <;> simp only [List.length_cons, List.length_nil] <;> omega

/-- The extents of the class that open in front of position `n`. -/
theorem countP_opened (availability : ExtentAvailability) (n : Nat) :
    (scoreEvents candidate).countP
        (fun event => (event.starts && event.availability = availability) && event.position < n) =
      candidate.extents.countP fun extent => extent.availability = availability ∧
        extent.clippedStart candidate.size < extent.clippedStop candidate.size ∧
        extent.clippedStart candidate.size < n := by
  rw [scoreEvents_eq]
  induction candidate.extents with
  | nil => rfl
  | cons extent extents ih =>
    rw [List.flatMap_cons, List.countP_append, ih, List.countP_cons, Nat.add_comm]
    congr 1
    split
    · next hlt => simp [List.countP_cons, hlt]
    · next hlt => simp [hlt]

/-- The extents of the class that end in front of position `n`. -/
theorem countP_closed (availability : ExtentAvailability) (n : Nat) :
    (scoreEvents candidate).countP
        (fun event => (!event.starts && event.availability = availability) && event.position < n) =
      candidate.extents.countP fun extent => extent.availability = availability ∧
        extent.clippedStart candidate.size < extent.clippedStop candidate.size ∧
        extent.clippedStop candidate.size < n := by
  rw [scoreEvents_eq]
  induction candidate.extents with
  | nil => rfl
  | cons extent extents ih =>
    rw [List.flatMap_cons, List.countP_append, ih, List.countP_cons, Nat.add_comm]
    congr 1
    split
    · next hlt => simp [List.countP_cons, hlt]
    · next hlt => simp [hlt]

end Events

/-! ## The order of the events -/

section Order

variable {events : List ScoreEvent}

/-- The events up to position `i` come first, and the counters there are what they leave. -/
theorem levels_split (hsorted : events.Pairwise fun a b => a.position ≤ b.position)
    (active : ActiveCounts) (i : Nat) :
    ∃ done rest, events = done ++ rest ∧
      levels active events i = done.foldl (fun active event => event.apply active) active ∧
      (∀ event ∈ done, event.position ≤ i) ∧ ∀ event ∈ rest, i < event.position := by
  induction events generalizing active with
  | nil => exact ⟨[], [], rfl, rfl, by simp, by simp⟩
  | cons event events ih =>
    obtain ⟨hfirst, hsorted⟩ := List.pairwise_cons.mp hsorted
    by_cases hlt : i < event.position
    · refine ⟨[], event :: events, rfl, ?_, by simp, fun later hlater => ?_⟩
      · rw [levels, if_pos hlt]
        rfl
      · obtain rfl | hmem := List.mem_cons.mp hlater
        · exact hlt
        · exact Nat.lt_of_lt_of_le hlt (hfirst later hmem)
    · obtain ⟨done, rest, heq, hlevels, hdone, hrest⟩ := ih hsorted (event.apply active)
      refine ⟨event :: done, rest, by rw [heq, List.cons_append], ?_, fun earlier hearlier => ?_,
        hrest⟩
      · rw [levels, if_neg hlt, hlevels, List.foldl_cons]
      · obtain rfl | hmem := List.mem_cons.mp hearlier
        · exact Nat.not_lt.mp hlt
        · exact hdone earlier hmem

/-- Events in front of `n` all count below `n`. -/
theorem countP_le_of_done {done : List ScoreEvent} (rest : List ScoreEvent) (q : ScoreEvent → Bool)
    {n : Nat} (hdone : ∀ event ∈ done, event.position < n) :
    done.countP q ≤ (done ++ rest).countP fun event => q event && event.position < n := by
  have hsame : done.countP (fun event => q event && event.position < n) = done.countP q := by
    apply List.countP_congr
    intro event hevent
    simp [hdone event hevent]
  rw [List.countP_append, hsame]
  exact Nat.le_add_right _ _

/-- Events from `n` on do not count below `n`. -/
theorem countP_of_rest_le (done : List ScoreEvent) {rest : List ScoreEvent} (q : ScoreEvent → Bool)
    {n : Nat} (hrest : ∀ event ∈ rest, n ≤ event.position) :
    (done ++ rest).countP (fun event => q event && event.position < n) ≤ done.countP q := by
  have hnone : rest.countP (fun event => q event && event.position < n) = 0 := by
    rw [List.countP_eq_zero]
    intro event hevent
    have := hrest event hevent
    simp
    omega
  rw [List.countP_append, hnone, Nat.add_zero]
  apply List.countP_mono_left
  intro event _ hcounted
  exact (Bool.and_eq_true _ _ ▸ hcounted).1

end Order

/-- Behind all events the counters are what the events leave. -/
theorem levels_of_le {events : List ScoreEvent} {active : ActiveCounts} {i : Nat}
    (h : ∀ event ∈ events, event.position ≤ i) :
    levels active events i = events.foldl (fun active event => event.apply active) active := by
  induction events generalizing active with
  | nil => rfl
  | cons event events ih =>
    have hle := h event List.mem_cons_self
    rw [levels, if_neg (by omega), List.foldl_cons]
    exact ih fun later hlater => h later (List.mem_cons_of_mem _ hlater)

section Open

variable (order : EventSort) {candidate : Candidate}

/-- An extent ends behind its start, so no prefix closes more than it opens. -/
theorem balanced_sort : Balanced (order.sort (scoreEvents candidate)) := by
  intro done rest availability heq
  have hsorted := order.sorted (scoreEvents candidate)
  have hperm := order.perm (scoreEvents candidate)
  rw [heq] at hsorted hperm
  cases done using List.reverseRecOn with
  | nil => exact Nat.le_refl _
  | append_singleton before last =>
    obtain ⟨hdone, _, hacross⟩ := List.pairwise_append.mp hsorted
    have hbefore : ∀ event ∈ before ++ [last], event.position < last.position + 1 := by
      intro event hevent
      obtain hmem | hmem := List.mem_append.mp hevent
      · have hle := (List.pairwise_append.mp hdone).2.2 event hmem last (List.mem_singleton_self _)
        omega
      · rw [List.mem_singleton.mp hmem]
        omega
    have hbehind : ∀ event ∈ rest, last.position ≤ event.position := fun event hevent =>
      hacross last (List.mem_append_right _ (List.mem_singleton_self _)) event hevent
    calc closed availability (before ++ [last])
        ≤ (before ++ [last] ++ rest).countP fun event =>
            (!event.starts && event.availability = availability) &&
              event.position < last.position + 1 := countP_le_of_done rest _ hbefore
      _ ≤ (before ++ [last] ++ rest).countP fun event =>
            (event.starts && event.availability = availability) &&
              event.position < last.position := by
          rw [hperm.countP_eq, hperm.countP_eq, countP_closed, countP_opened]
          apply List.countP_mono_left
          intro extent _ hends
          rw [decide_eq_true_eq] at hends ⊢
          obtain ⟨hclass, hlt, hstop⟩ := hends
          exact ⟨hclass, hlt, by omega⟩
      _ ≤ opened availability (before ++ [last]) := countP_of_rest_le _ _ hbehind

theorem countP_lt_countP {α : Type} {xs : List α} {p q : α → Bool}
    (h : ∀ x ∈ xs, q x = true → p x = true) :
    xs.countP q < xs.countP p ↔ ∃ x ∈ xs, p x = true ∧ q x = false := by
  induction xs with
  | nil => simp
  | cons x xs ih =>
    have hx := h x List.mem_cons_self
    have hxs := ih fun y hy => h y (List.mem_cons_of_mem x hy)
    have hle : xs.countP q ≤ xs.countP p :=
      List.countP_mono_left fun y hy => h y (List.mem_cons_of_mem x hy)
    rw [List.countP_cons, List.countP_cons, List.exists_mem_cons_iff, ← hxs]
    cases hp : p x with
    | false =>
      cases hq : q x with
      | false => simp only [Bool.false_eq_true, if_false, Nat.add_zero, false_and, false_or]
      | true =>
        rw [hx hq] at hp
        exact absurd hp Bool.noConfusion
    | true =>
      cases hq : q x with
      | false =>
        simp only [Bool.false_eq_true, if_false, if_true, true_and, true_or, iff_true]
        omega
      | true =>
        simp only [if_true, Bool.true_eq_false, and_false, false_or]
        omega

/-- The classes with an open extent at position `i` are those of the extents over it. -/
theorem present_levels (hfew : 2 * candidate.extents.length < 2 ^ 64) (i : Nat)
    (availability : ExtentAvailability) :
    present (levels (fun _ => 0) (order.sort (scoreEvents candidate)) i) availability = true ↔
      ∃ extent ∈ candidate.extents, extent.availability = availability ∧
        extent.clippedStart candidate.size ≤ i ∧ i < extent.clippedStop candidate.size := by
  have hbalanced := @balanced_sort order candidate
  have hperm := order.perm (scoreEvents candidate)
  obtain ⟨done, rest, heq, hlevels, hdone, hrest⟩ := levels_split
    (order.sorted (scoreEvents candidate)) (fun _ => 0) i
  rw [hlevels]
  rw [heq] at hperm hbalanced
  have hlength : done.length < 2 ^ 64 := by
    have htotal := hperm.length_eq
    have hevents := length_scoreEvents_le candidate
    rw [List.length_append] at htotal
    omega
  have hbefore : ∀ event ∈ done, event.position < i + 1 := fun event hevent =>
    Nat.lt_succ_of_le (hdone event hevent)
  have hopened := Nat.le_antisymm
    (countP_le_of_done rest (fun event => event.starts && event.availability = availability)
      hbefore)
    (countP_of_rest_le done _ hrest)
  have hclosed := Nat.le_antisymm
    (countP_le_of_done rest (fun event => !event.starts && event.availability = availability)
      hbefore)
    (countP_of_rest_le done _ hrest)
  rw [hperm.countP_eq, countP_opened] at hopened
  rw [hperm.countP_eq, countP_closed] at hclosed
  have hopen : present (done.foldl (fun active event => event.apply active) fun _ => 0)
      availability = true ↔ closed availability done < opened availability done := by
    rw [present, decide_eq_true_eq, foldl_apply hbalanced.left hlength]
    omega
  rw [hopen, opened, closed, hopened, hclosed, countP_lt_countP]
  · apply exists_congr
    intro extent
    simp only [decide_eq_true_eq, decide_eq_false_iff_not]
    apply and_congr_right
    intro _
    constructor
    · intro ⟨⟨hclass, hlt, hstart⟩, hnot⟩
      have hstop : ¬extent.clippedStop candidate.size < i + 1 := fun hlt' =>
        hnot ⟨hclass, hlt, hlt'⟩
      exact ⟨hclass, by omega, by omega⟩
    · intro ⟨hclass, hstart, hstop⟩
      exact ⟨⟨hclass, by omega, by omega⟩, fun ⟨_, _, hlt⟩ => by omega⟩
  · intro extent _ hends
    rw [decide_eq_true_eq] at hends ⊢
    obtain ⟨hclass, hlt, hstop⟩ := hends
    exact ⟨hclass, hlt, by omega⟩

/-- Inside the file the clipped extents lie where the extents do. -/
theorem levels_zero (hsize : candidate.size < 2 ^ 64)
    (hfew : 2 * candidate.extents.length < 2 ^ 64) {i : Nat} (hi : i < candidate.size) :
    present (levels (fun _ => 0) (order.sort (scoreEvents candidate)) i) =
      hasEvidence candidate i := by
  funext availability
  rw [Bool.eq_iff_iff, present_levels order hfew, hasEvidence, List.any_eq_true]
  apply exists_congr
  intro extent
  rw [decide_eq_true_eq, ExtentRun.clippedStart, ExtentRun.clippedStop, U64.saturatingAdd]
  apply and_congr_right
  intro _
  apply and_congr_right
  intro _
  omega

/-- Behind the file no extent is open. -/
theorem levels_size (hfew : 2 * candidate.extents.length < 2 ^ 64) {i : Nat}
    (hi : candidate.size ≤ i) :
    present (levels (fun _ => 0) (order.sort (scoreEvents candidate)) i) = fun _ => false := by
  funext availability
  rw [Bool.eq_false_iff, Ne, present_levels order hfew]
  intro ⟨extent, _, _, _, hstop⟩
  rw [ExtentRun.clippedStop] at hstop
  omega

/-- A measure of the segments counts the positions of the file with the property. -/
theorem weight_classifiedLogicalSegments {p : (ExtentAvailability → Bool) → Bool}
    (hnone : p (fun _ => false) = false) (hsize : candidate.size < 2 ^ 64)
    (hfew : 2 * candidate.extents.length < 2 ^ 64) :
    weight p (classifiedLogicalSegments order candidate) =
      bytesWhere candidate fun i => p (hasEvidence candidate i) := by
  have hsorted := order.sorted (scoreEvents candidate)
  have hperm := order.perm (scoreEvents candidate)
  have hpositions : ∀ event ∈ order.sort (scoreEvents candidate),
      event.position ≤ candidate.size := fun event hevent =>
    position_le_size (hperm.mem_iff.mp hevent)
  have hinside := fun i => @levels_zero order candidate hsize hfew i
  have hbehind := levels_size order hfew (Nat.le_refl candidate.size)
  rw [bytesWhere, List.range_eq_range', classifiedLogicalSegments]
  cases hevents : order.sort (scoreEvents candidate) with
  | nil =>
    rw [hevents] at hinside
    rw [@countP_range'_const _ _ _ false]
    · rfl
    · intro i _ hi
      rw [← hinside i (by omega)]
      exact hnone
  | cons first events =>
    rw [hevents] at hsorted hpositions hinside hbehind
    obtain ⟨hfirst, _⟩ := List.pairwise_cons.mp hsorted
    have hle := hpositions first List.mem_cons_self
    show weight p (sweepFrom first.position (fun _ => 0) (first :: events)) = _
    have hstart : ∀ event ∈ first :: events, first.position ≤ event.position := by
      intro event hevent
      obtain rfl | hmem := List.mem_cons.mp hevent
      · exact Nat.le_refl _
      · exact hfirst event hmem
    rw [weight_sweepFrom hnone hsorted hstart hpositions ?_]
    · have hsplit : List.range' 0 candidate.size = List.range' 0 first.position ++
          List.range' first.position (candidate.size - first.position) := by
        have happend := @List.range'_append_1 0 first.position (candidate.size - first.position)
        rw [Nat.zero_add, Nat.add_sub_cancel' hle] at happend
        exact happend.symm
      have hbefore : (List.range' 0 first.position).countP
          (fun i => p (hasEvidence candidate i)) = 0 := by
        rw [@countP_range'_const _ _ _ false]
        · rfl
        · intro i _ hi
          rw [← hinside i (by omega), levels, if_pos (by omega)]
          exact hnone
      rw [hsplit, List.countP_append, hbefore, Nat.zero_add]
      apply List.countP_congr
      intro i hi
      have hmem := List.mem_range'_1.mp hi
      rw [hinside i (by omega)]
    · rw [← hbehind, levels_of_le hpositions]

end Open

end Undelete
