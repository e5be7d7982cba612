import Undelete.ForStd.Coverage
import Undelete.Spec.PlanCorrect

/-!
# What planning can end in

For extents that are disjoint, inside the file and, where mapped, inside the source, planning
ends in one of three ways (`planCandidate_outcome`): the segment limit, a refusal of the
complete policy because some content is degraded, or a plan. A plan asks for best effort
exactly when some content is degraded, and reads the source exactly when some extent is mapped.
-/

namespace Undelete.Restore

open Except IntervalLike

/-- Planning reads the extent from the source. -/
def Mapped (e : ExtentRun) : Prop :=
  (e.availability = .freeInSnapshot ∨ e.availability = .resident) ∧ e.physicalOffset.isSome

instance : DecidablePred Mapped := fun e =>
  inferInstanceAs (Decidable ((_ ∨ _) ∧ e.physicalOffset.isSome = true))

/-- Planning fills the extent with zeros that the file did not have. -/
def DegradedExtent (e : ExtentRun) : Prop := e.availability ≠ .sparse ∧ ¬Mapped e

/-- Some content of the candidate is missing or degraded. -/
def Degraded (candidate : Candidate) : Prop :=
  Gap candidate.extents 0 candidate.size ∨ ∃ e ∈ candidate.extents, DegradedExtent e

/-- Disjoint extents inside the file whose mapped ones lie inside the source. -/
structure WellFormed (candidate : Candidate) (sourceLen : Nat) : Prop where
  file : candidate.kind = .file
  size_lt : candidate.size < 2 ^ 64
  source_lt : sourceLen < 2 ^ 64
  nonempty : ∀ e ∈ candidate.extents, 0 < e.len
  inside : ∀ e ∈ candidate.extents, e.logicalOffset + e.len ≤ candidate.size
  disjoint : candidate.extents.Pairwise Apart
  mapped : ∀ e ∈ candidate.extents, ∀ p, e.physicalOffset = some p → p + e.len ≤ sourceLen

/-! ## The builder -/

namespace ContentSegment

def IsRead : ContentSegment → Prop
  | read .. => True
  | zero .. => False

end ContentSegment

def ContentPlan.HasRead (plan : ContentPlan) : Prop := ∃ s ∈ plan.segments, s.IsRead

def PlanBuilder.HasRead (b : PlanBuilder) : Prop := ∃ s ∈ b.segments, s.segment.IsRead

/-- What planning a part of the content does to the builder `b`: the part is degraded or
    not, and it is read or not. -/
inductive Planned (b : PlanBuilder) (degraded readable : Prop) :
    Except RestoreError PlanBuilder → Prop
  | limit (limit : Nat) : Planned b degraded readable (.error (.segmentLimitExceeded limit))
  | refused (logicalOffset len : Nat) (reason : ZeroFillReason) (hpolicy : b.policy = .completeOnly)
      (hdegraded : degraded) :
      Planned b degraded readable (.error (.unavailableContent logicalOffset len reason))
  | built (b' : PlanBuilder) (hpolicy : b'.policy = b.policy)
      (hadmitted : b.policy = .completeOnly → ¬degraded)
      (hflag : b'.requiresBestEffort = true ↔ b.requiresBestEffort = true ∨ degraded)
      (hread : b'.HasRead ↔ b.HasRead ∨ readable) : Planned b degraded readable (.ok b')

theorem Planned.congr {b : PlanBuilder} {d d' r r' : Prop} {x : Except RestoreError PlanBuilder}
    (h : Planned b d r x) (hd : d ↔ d') (hr : r ↔ r') : Planned b d' r' x := by
  rw [propext hd, propext hr] at h
  exact h

theorem Planned.bind {b : PlanBuilder} {d d' r r' : Prop} {x : Except RestoreError PlanBuilder}
    {f : PlanBuilder → Except RestoreError PlanBuilder} (hx : Planned b d r x)
    (hf : ∀ b', Planned b' d' r' (f b')) : Planned b (d ∨ d') (r ∨ r') (x >>= f) := by
  cases hx with
  | limit limit => exact .limit limit
  | refused logicalOffset len reason hpolicy hdegraded =>
    exact .refused logicalOffset len reason hpolicy (.inl hdegraded)
  | built b₁ hpolicy hadmitted hflag hread =>
    have hrest := hf b₁
    rw [bind_ok]
    generalize f b₁ = y at hrest
    cases hrest with
    | limit limit => exact .limit limit
    | refused logicalOffset len reason hpolicy₁ hdegraded =>
      exact .refused logicalOffset len reason (hpolicy ▸ hpolicy₁) (.inr hdegraded)
    | built b₂ hpolicy₁ hadmitted₁ hflag₁ hread₁ =>
      refine .built b₂ (hpolicy₁.trans hpolicy) (fun h => ?_) ?_ ?_
      · exact not_or.mpr ⟨hadmitted h, hadmitted₁ (hpolicy.trans h)⟩
      · rw [hflag₁, hflag, or_assoc]
      · rw [hread₁, hread, or_assoc]

theorem Planned.pure (b : PlanBuilder) : Planned b False False (.ok b) :=
  .built b rfl (fun _ h => h) (by rw [or_false]) (by rw [or_false])

theorem hasRead_append {b : PlanBuilder} {segment : BuiltSegment} :
    PlanBuilder.HasRead { b with segments := b.segments ++ [segment] } ↔
      b.HasRead ∨ segment.segment.IsRead := by
  simp only [PlanBuilder.HasRead, List.mem_append, List.mem_singleton, or_and_right, exists_or,
    exists_eq_left]

/-- A last segment that grows stays the kind of segment it is. -/
theorem hasRead_setLast {b : PlanBuilder} {last segment : BuiltSegment}
    (hlast : b.segments.getLast? = some last) (h : segment.segment.IsRead ↔ last.segment.IsRead) :
    (b.setLast segment).HasRead ↔ b.HasRead := by
  obtain ⟨before, hbefore⟩ := List.getLast?_eq_some_iff.mp hlast
  simp only [PlanBuilder.HasRead, PlanBuilder.setLast, hbefore, List.dropLast_concat,
    List.mem_append, List.mem_singleton, or_and_right, exists_or, exists_eq_left, h]

theorem push_planned (b : PlanBuilder) (segment : BuiltSegment) :
    Planned b False segment.segment.IsRead (b.push segment) := by
  simp only [PlanBuilder.push]
  split
  · exact .limit _
  · exact .built _ rfl (fun _ h => h) (by rw [or_false]) hasRead_append

theorem pushRead_planned (b : PlanBuilder) (logicalOffset physicalOffset len : Nat)
    (availability : ExtentAvailability) :
    Planned b False True (b.pushRead logicalOffset physicalOffset len availability) := by
  simp only [PlanBuilder.pushRead]
  split
  · next lastLogical lastPhysical lastLen lastAvailability hlast =>
    split
    · -- the last read grows; there is a read before and after
      refine .built _ rfl (fun _ h => h) (by rw [or_false]; rfl) ?_
      rw [hasRead_setLast hlast (by simp only [ContentSegment.IsRead]), or_true, iff_true]
      exact ⟨_, List.mem_of_getLast? hlast, trivial⟩
    · exact (push_planned b _).congr Iff.rfl (by simp [ContentSegment.IsRead])
  · exact (push_planned b _).congr Iff.rfl (by simp [ContentSegment.IsRead])

theorem pushZero_planned (b : PlanBuilder) (logicalOffset len : Nat) (reason : ZeroFillReason) :
    Planned b (reason ≠ .sparse) False (b.pushZero logicalOffset len reason) := by
  simp only [PlanBuilder.pushZero]
  by_cases hrefused : reason ≠ .sparse ∧ b.policy = .completeOnly
  · rw [if_pos hrefused]
    exact .refused _ _ _ hrefused.2 hrefused.1
  rw [if_neg hrefused]
  -- the flag is set for every reason but sparseness; the segments are as before
  obtain ⟨b₁, hb₁⟩ : ∃ b₁, b₁ = if reason ≠ .sparse then { b with requiresBestEffort := true }
    else b := ⟨_, rfl⟩
  have hpolicy : b₁.policy = b.policy := by rw [hb₁]; split <;> rfl
  have hsegments : b₁.segments = b.segments := by rw [hb₁]; split <;> rfl
  have hflag : b₁.requiresBestEffort = true ↔ b.requiresBestEffort = true ∨ reason ≠ .sparse := by
    rw [hb₁]
    split
    · next h => simp [h]
    · next h => simp [h]
  have hread : b₁.HasRead ↔ b.HasRead := by simp only [PlanBuilder.HasRead, hsegments]
  have hstart : Planned b (reason ≠ .sparse) False (.ok b₁) :=
    .built b₁ hpolicy (fun h hreason => hrefused ⟨hreason, h⟩) hflag
      (by rw [hread, or_false])
  rw [← hb₁]
  have hpush : Planned b (reason ≠ .sparse) False
    (b₁.push ⟨.zero logicalOffset len reason, none⟩) :=
    (hstart.bind fun b' => push_planned b' _).congr (by rw [or_false])
    (by simp [ContentSegment.IsRead])
  split
  · next lastLogical lastLen lastReason lastAvailability hlast =>
    split
    · refine .built _ hpolicy (fun h hreason => hrefused ⟨hreason, h⟩) hflag ?_
      rw [hasRead_setLast hlast (by simp only [ContentSegment.IsRead]), hread, or_false]
    · exact hpush
  · exact hpush

/-! ## Extents -/

theorem readableMapping_mapped {sourceLen : Nat} {e : ExtentRun} (hsource : sourceLen < 2 ^ 64)
    (hinside : ∀ p, e.physicalOffset = some p → p + e.len ≤ sourceLen) (hmapped : Mapped e) :
    ∃ p, readableMapping e sourceLen = .ok (.read p) := by
  obtain ⟨havailable, hsome⟩ := hmapped
  obtain ⟨p, hp⟩ := Option.isSome_iff_exists.mp hsome
  have hle := hinside p hp
  have hadd : U64.checkedAdd p e.len = some (p + e.len) := U64.checkedAdd_of_lt (by omega)
  have hnot : ¬p + e.len > sourceLen := by omega
  refine ⟨p, ?_⟩
  rcases havailable with ha | ha <;>
    simp only [readableMapping, ha, hp, hadd, okOr, bind_ok, if_neg hnot] <;> rfl

theorem readableMapping_zero (sourceLen : Nat) {e : ExtentRun} (hmapped : ¬Mapped e) :
    ∃ reason, readableMapping e sourceLen = .ok (.zero reason) ∧
      (reason ≠ .sparse ↔ DegradedExtent e) := by
  simp only [DegradedExtent, hmapped, not_false_eq_true, and_true]
  have hnone : (e.availability = .freeInSnapshot ∨ e.availability = .resident) →
      e.physicalOffset = none := by
    intro h
    cases hp : e.physicalOffset with
    | none => rfl
    | some p => exact absurd ⟨h, by rw [hp]; rfl⟩ hmapped
  cases ha : e.availability with
  | freeInSnapshot =>
    exact ⟨.unknownAvailability, by simp only [readableMapping, ha, hnone (.inl ha)], by simp⟩
  | resident =>
    exact ⟨.unknownAvailability, by simp only [readableMapping, ha, hnone (.inr ha)], by simp⟩
  | sparse => exact ⟨.sparse, by simp only [readableMapping, ha], by simp⟩
  | currentlyAllocated =>
    exact ⟨.currentlyAllocated, by simp only [readableMapping, ha], by simp⟩
  | outOfVolume => exact ⟨.outOfVolume, by simp only [readableMapping, ha], by simp⟩
  | readFailed => exact ⟨.previouslyReadFailed, by simp only [readableMapping, ha], by simp⟩
  | zeroed => exact ⟨.zeroed, by simp only [readableMapping, ha], by simp⟩
  | unknown => exact ⟨.unknownAvailability, by simp only [readableMapping, ha], by simp⟩

/-- What the loop makes of the mapping of the extent. -/
def planMapping (e : ExtentRun) (b : PlanBuilder) : ExtentMapping → Except RestoreError PlanBuilder
  | .read physicalOffset => b.pushRead e.logicalOffset physicalOffset e.len e.availability
  | .zero reason => b.pushZero e.logicalOffset e.len reason

theorem planExtent_eq {sourceLen cursor : Nat} {b : PlanBuilder} {e : ExtentRun}
    (hcursor : cursor ≤ e.logicalOffset) :
    planExtent sourceLen b cursor e =
      (if e.logicalOffset > cursor then
        b.pushZero cursor (e.logicalOffset - cursor) .missingExtent else pure b) >>= fun builder =>
      readableMapping e sourceLen >>= planMapping e builder := by
  simp only [planExtent, if_neg (Nat.not_lt.mpr hcursor)]
  split <;> rfl

/-- The bytes before the extent are missing, or the extent is degraded. -/
theorem planExtent_planned {sourceLen cursor : Nat} {b : PlanBuilder} {e : ExtentRun}
    (hsource : sourceLen < 2 ^ 64)
    (hinside : ∀ p, e.physicalOffset = some p → p + e.len ≤ sourceLen)
    (hcursor : cursor ≤ start e) :
    Planned b (cursor < start e ∨ DegradedExtent e) (Mapped e)
    (planExtent sourceLen b cursor e) := by
  have hstart : start e = e.logicalOffset := rfl
  rw [hstart] at hcursor ⊢
  have hgap : Planned b (cursor < e.logicalOffset) False
      (if e.logicalOffset > cursor then
        b.pushZero cursor (e.logicalOffset - cursor) .missingExtent else pure b) := by
    split
    · next h => exact (pushZero_planned b _ _ _).congr (by simp [h]) Iff.rfl
    · next h => exact (Planned.pure b).congr (by simp [h]) Iff.rfl
  rw [planExtent_eq hcursor]
  suffices hextent : ∀ b', Planned b' (DegradedExtent e) (Mapped e)
      (readableMapping e sourceLen >>= planMapping e b') by
    -- the gap before the extent is never read
    exact (hgap.bind hextent).congr Iff.rfl (by rw [false_or])
  intro b'
  by_cases hmapped : Mapped e
  · obtain ⟨p, hp⟩ := readableMapping_mapped hsource hinside hmapped
    simp only [hp, bind_ok, planMapping]
    exact (pushRead_planned b' _ _ _ _).congr (by simp [DegradedExtent, hmapped])
      (by simp [hmapped])
  · obtain ⟨reason, hreason, hdegraded⟩ := readableMapping_zero sourceLen hmapped
    simp only [hreason, bind_ok, planMapping]
    exact (pushZero_planned b' _ _ _).congr hdegraded (by simp [hmapped])

/-! ## The loop and its end -/

/-- The loop and the zeros behind the last extent. -/
theorem planExtents_planned {sourceLen cursor size : Nat} {b : PlanBuilder}
    {ordered : List (Nat × ExtentRun)} (hsource : sourceLen < 2 ^ 64)
    (hascending : Ascending (ordered.map Prod.snd) cursor size)
    (hinside : ∀ x ∈ ordered, ∀ p, x.2.physicalOffset = some p → p + x.2.len ≤ sourceLen) :
    Planned b
      (Gap (ordered.map Prod.snd) cursor size ∨ ∃ e ∈ ordered.map Prod.snd, DegradedExtent e)
      (∃ e ∈ ordered.map Prod.snd, Mapped e)
      (planExtents sourceLen ordered b cursor >>= fun x =>
        if x.2 < size then x.1.pushZero x.2 (size - x.2) .missingExtent else pure x.1) := by
  induction ordered generalizing b cursor with
  | nil =>
    simp only [planExtents, bind_ok, List.map_nil, gap_nil, List.not_mem_nil, false_and,
      exists_false, or_false]
    split
    · next h => exact (pushZero_planned b _ _ _).congr (by simp [h]) Iff.rfl
    · next h => exact (Planned.pure b).congr (by simp [h]) Iff.rfl
  | cons x ordered ih =>
    have hgap := hascending.gap_cons
    obtain ⟨hstart, _, hrest⟩ := hascending
    have hfirst := planExtent_planned (b := b) hsource (hinside x List.mem_cons_self) hstart
    have hlater := hfirst.bind fun b' => @ih (stop x.2) b' hrest fun y hy =>
      hinside y (List.mem_cons_of_mem x hy)
    rw [List.map_cons, hgap, planExtents, bind_assoc]
    apply hlater.congr
    · simp only [List.mem_cons, exists_eq_or_imp]
      tauto
    · simp only [List.mem_cons, exists_eq_or_imp]

instance : Std.Total planOrder where
  total a b := by simp only [planOrder]; omega

instance : IsTrans (Nat × ExtentRun) planOrder where
  trans a b c := by simp only [planOrder]; omega

/-- Sorting the checked extents of a well-formed candidate puts them in ascending order. -/
theorem WellFormed.ordered {candidate : Candidate} {sourceLen : Nat}
    (h : WellFormed candidate sourceLen) :
    ∃ checked, checkedExtents candidate.size candidate.extents 0 = .ok checked ∧
      ((checked.insertionSort planOrder).map Prod.snd).Perm candidate.extents ∧
      Ascending ((checked.insertionSort planOrder).map Prod.snd) 0 candidate.size := by
  have hinside : ∀ e ∈ candidate.extents, stop e ≤ candidate.size := h.inside
  have hsize := h.size_lt
  obtain ⟨checked, hchecked, hmap⟩ := @checkedExtents_ok candidate.size 0 candidate.extents
    fun e he => ⟨h.nonempty e he, hinside e he, by have := hinside e he; omega⟩
  have hperm : ((checked.insertionSort planOrder).map Prod.snd).Perm candidate.extents := by
    rw [← hmap]
    exact (List.perm_insertionSort planOrder checked).map Prod.snd
  refine ⟨checked, hchecked, hperm, ?_⟩
  apply ascending_of_sorted (Nat.zero_le _)
  · rw [List.pairwise_map]
    refine (List.pairwise_insertionSort planOrder checked).imp fun hab => ?_
    simp only [planOrder] at hab
    simp only [start]
    omega
  · refine (hperm.pairwise_iff fun {x y} hxy => ?_).mpr h.disjoint
    exact hxy.symm
  · intro e he
    have he := hperm.mem_iff.mp he
    exact ⟨Nat.zero_le _, h.nonempty e he, hinside e he⟩

theorem gap_perm {α : Type} [IntervalLike α] {xs ys : List α} {a b : Nat} (h : xs.Perm ys) :
    Gap xs a b ↔ Gap ys a b := by
  simp only [Gap, CoveredBy, h.mem_iff]

/-- How planning a well-formed candidate ends. -/
inductive PlanOutcome (candidate : Candidate) (policy : PartialPolicy) :
    Except RestoreError (Option ContentPlan) → Prop
  | limit (limit : Nat) : PlanOutcome candidate policy (.error (.segmentLimitExceeded limit))
  | refused (logicalOffset len : Nat) (reason : ZeroFillReason) (hpolicy : policy = .completeOnly)
      (hdegraded : Degraded candidate) :
      PlanOutcome candidate policy (.error (.unavailableContent logicalOffset len reason))
  | planned (plan : ContentPlan) (hadmitted : policy = .completeOnly → ¬Degraded candidate)
      (hflag : plan.requiresBestEffort = true ↔ Degraded candidate)
      (hread : plan.HasRead ↔ ∃ e ∈ candidate.extents, Mapped e) :
      PlanOutcome candidate policy (.ok (some plan))

theorem planCandidate_outcome {candidate : Candidate} {sourceLen : Nat} {sha : Option Digest}
    {policy : PartialPolicy} {limits : PlanLimits} (h : WellFormed candidate sourceLen)
    (hlimits : 0 < limits.maxSegments ∧ limits.maxSegments ≤ maxContentPlanSegments) :
    PlanOutcome candidate policy (planCandidate candidate sourceLen sha policy limits) := by
  obtain ⟨checked, hchecked, hperm, hascending⟩ := h.ordered
  have hbuilt := planExtents_planned
    (b := { policy, maxSegments := limits.maxSegments }) h.source_lt hascending
    fun x hx p hp => h.mapped x.2 (hperm.mem_iff.mp (List.mem_map_of_mem (f := Prod.snd) hx)) p hp
  simp only [gap_perm hperm, hperm.mem_iff] at hbuilt
  have hvalid : ¬(limits.maxSegments = 0 ∨ limits.maxSegments > maxContentPlanSegments) := by omega
  simp only [planCandidate, h.file, reduceCtorEq, if_false, if_neg hvalid]
  split
  · exact .limit _
  · simp only [hchecked, bind_ok]
    have hfinish : ∀ x : Except RestoreError PlanBuilder,
        Planned { policy, maxSegments := limits.maxSegments } (Degraded candidate)
          (∃ e ∈ candidate.extents, Mapped e) x →
        PlanOutcome candidate policy (x >>= fun b => .ok (some
          { candidateId := candidate.id, logicalSize := candidate.size,
            segments := b.finish.1, expectedSha256 := sha, requiresBestEffort := b.finish.2,
            policy })) := by
      intro x hx
      cases hx with
      | limit limit => exact .limit limit
      | refused logicalOffset len reason hpolicy hdegraded =>
        exact .refused logicalOffset len reason hpolicy hdegraded
      | built b hpolicy hadmitted hflag hread =>
        refine .planned _ hadmitted (hflag.trans (by simp)) (Iff.trans ?_ (hread.trans ?_))
        · simp [ContentPlan.HasRead, PlanBuilder.HasRead, PlanBuilder.finish]
        · simp [PlanBuilder.HasRead]
    have hresult := hfinish _ hbuilt
    rw [bind_assoc] at hresult
    refine Eq.mp (congrArg (PlanOutcome candidate policy) ?_) hresult
    congr 1
    funext x
    split <;> rfl

end Undelete.Restore
