import Undelete.ForStd.Except
import Undelete.ForStd.Intervals
import Undelete.Native.Restore.Plan
import Undelete.Spec.ExtentsCorrect

/-!
# Which extent lists can be planned

`planCandidate` accepts a candidate whose extents ascend inside the file and whose
readable extents lie inside the source; only the segment limit can then stop it
(`planCandidate_admits`). A single resident extent is accepted exactly when it is not
empty and lies inside the source (`planCandidate_resident`).
-/

namespace Undelete.Restore

open Except IntervalLike

/-! ## Running into the segment limit -/

/-- The computation can fail only with the segment limit. -/
def LimitOnly {α : Type} (x : Except RestoreError α) : Prop :=
  ∀ e, x = .error e → ∃ limit, e = .segmentLimitExceeded limit

theorem LimitOnly.ok {α : Type} (a : α) : LimitOnly (.ok a) := by
  intro e h; cases h

theorem LimitOnly.bind {α β : Type} {x : Except RestoreError α} {f : α → Except RestoreError β}
    (hx : LimitOnly x) (hf : ∀ a, x = .ok a → LimitOnly (f a)) : LimitOnly (x >>= f) := by
  cases x with
  | error e => intro e' h; cases h; exact hx e rfl
  | ok a => exact hf a rfl

/-- A planning step that fails only with the segment limit and zero-fills afterwards. -/
structure Steady (x : Except RestoreError PlanBuilder) : Prop where
  limit : LimitOnly x
  policy : ∀ b, x = .ok b → b.policy = .zeroFillAndMap

theorem Steady.ok {b : PlanBuilder} (hb : b.policy = .zeroFillAndMap) : Steady (.ok b) where
  limit := LimitOnly.ok b
  policy b' h := by cases h; exact hb

theorem Steady.bind {x : Except RestoreError PlanBuilder}
    {f : PlanBuilder → Except RestoreError PlanBuilder} (hx : Steady x)
    (hf : ∀ b, b.policy = .zeroFillAndMap → Steady (f b)) : Steady (x >>= f) where
  limit := hx.limit.bind fun b hb => (hf b (hx.policy b hb)).limit
  policy b' h := by
    obtain ⟨b, hb, h⟩ := bind_eq_ok.mp h
    exact (hf b (hx.policy b hb)).policy b' h

theorem push_steady {b : PlanBuilder} (hb : b.policy = .zeroFillAndMap) (segment : BuiltSegment) :
    Steady (b.push segment) := by
  simp only [PlanBuilder.push]
  split
  · refine ⟨?_, ?_⟩
    · intro e h; cases h; exact ⟨_, rfl⟩
    · intro b' h; cases h
  · exact Steady.ok hb

theorem pushRead_steady {b : PlanBuilder} (hb : b.policy = .zeroFillAndMap)
    (logicalOffset physicalOffset len : Nat) (availability : ExtentAvailability) :
    Steady (b.pushRead logicalOffset physicalOffset len availability) := by
  simp only [PlanBuilder.pushRead]
  split
  · split
    · exact Steady.ok hb
    · exact push_steady hb _
  · exact push_steady hb _

/-- Only the `completeOnly` policy refuses content that has to be zero-filled. -/
theorem pushZero_steady {b : PlanBuilder} (hb : b.policy = .zeroFillAndMap)
    (logicalOffset len : Nat) (reason : ZeroFillReason) :
    Steady (b.pushZero logicalOffset len reason) := by
  have hadmitted : ¬(reason ≠ .sparse ∧ b.policy = .completeOnly) := by simp [hb]
  have hflag : (if reason ≠ .sparse then { b with requiresBestEffort := true } else b).policy =
      .zeroFillAndMap := by split <;> exact hb
  simp only [PlanBuilder.pushZero, if_neg hadmitted]
  generalize (if reason ≠ .sparse then { b with requiresBestEffort := true } else b) = b₁ at *
  split
  · split
    · exact Steady.ok hflag
    · exact push_steady hflag _
  · exact push_steady hflag _

/-! ## The extents of a candidate -/

/-- The readable extents lie inside the source. -/
def Readable (sourceLen : Nat) (e : ExtentRun) : Prop :=
  (e.availability = .freeInSnapshot ∨ e.availability = .resident) →
    ∀ p, e.physicalOffset = some p → p + e.len ≤ sourceLen

theorem readableMapping_ok {sourceLen : Nat} {e : ExtentRun} (hsource : sourceLen < 2 ^ 64)
    (h : Readable sourceLen e) : ∃ mapping, readableMapping e sourceLen = .ok mapping := by
  have hread : (e.availability = .freeInSnapshot ∨ e.availability = .resident) →
      ∃ mapping, readableMapping e sourceLen = .ok mapping := by
    intro havailable
    cases hp : e.physicalOffset with
    | none =>
      refine ⟨.zero .unknownAvailability, ?_⟩
      rcases havailable with ha | ha <;> simp only [readableMapping, ha, hp]
    | some p =>
      have hle := h havailable p hp
      have hadd : U64.checkedAdd p e.len = some (p + e.len) := U64.checkedAdd_of_lt (by omega)
      have hinside : ¬p + e.len > sourceLen := by omega
      refine ⟨.read p, ?_⟩
      rcases havailable with ha | ha <;>
        simp only [readableMapping, ha, hp, hadd, okOr, bind_ok, if_neg hinside] <;> rfl
  cases havailability : e.availability with
  | freeInSnapshot => exact hread (.inl havailability)
  | resident => exact hread (.inr havailability)
  | _ => simp only [readableMapping, havailability]; exact ⟨_, rfl⟩

/-- The validation loop accepts extents that ascend inside the file, and keeps them. -/
theorem checkedExtents_ok {size index : Nat} {extents : List ExtentRun}
    (h : ∀ e ∈ extents, 0 < len e ∧ stop e ≤ size ∧ stop e < 2 ^ 64) :
    ∃ ordered, checkedExtents size extents index = .ok ordered ∧
      ordered.map Prod.snd = extents := by
  induction extents generalizing index with
  | nil => exact ⟨[], rfl, rfl⟩
  | cons e extents ih =>
    obtain ⟨hlen, hstop, hlt⟩ := h e List.mem_cons_self
    obtain ⟨ordered, hordered, hmap⟩ := @ih (index + 1) fun e' he' =>
      h e' (List.mem_cons_of_mem e he')
    have hadd : U64.checkedAdd e.logicalOffset e.len = some (stop e) := U64.checkedAdd_of_lt hlt
    have hpos : ¬e.len = 0 := Nat.ne_of_gt hlen
    refine ⟨(index, e) :: ordered, ?_, by rw [List.map_cons, hmap]⟩
    simp only [checkedExtents, checkExtent, if_neg hpos, hadd, okOr, bind_ok,
      if_neg (Nat.not_lt.mpr hstop), hordered]
    rfl

/-- Ascending extents are already in planning order. -/
theorem insertionSort_planOrder {ordered : List (Nat × ExtentRun)} {a b : Nat}
    (h : Ascending (ordered.map Prod.snd) a b) : ordered.insertionSort planOrder = ordered := by
  apply List.Pairwise.insertionSort_eq
  have hpairwise := List.pairwise_map.mp h.pairwise
  refine hpairwise.imp_of_mem fun {x y} hx _ hxy => .inl ?_
  have hlen := (h.bounds (List.mem_map_of_mem (f := Prod.snd) hx)).2.1
  simp only [stop, start, len] at hxy hlen
  omega

theorem planExtent_steady {sourceLen cursor : Nat} {b : PlanBuilder} {e : ExtentRun}
    (hb : b.policy = .zeroFillAndMap) (hsource : sourceLen < 2 ^ 64)
    (hcursor : cursor ≤ start e) (hreadable : Readable sourceLen e) :
    Steady (planExtent sourceLen b cursor e) := by
  have hcursor : ¬e.logicalOffset < cursor := Nat.not_lt.mpr hcursor
  obtain ⟨mapping, hmapping⟩ := readableMapping_ok hsource hreadable
  simp only [planExtent, if_neg hcursor, hmapping, bind_ok]
  cases mapping with
  | read physicalOffset =>
    split
    · exact (pushZero_steady hb _ _ _).bind fun b hb => pushRead_steady hb _ _ _ _
    · exact pushRead_steady hb _ _ _ _
  | zero reason =>
    split
    · exact (pushZero_steady hb _ _ _).bind fun b hb => pushZero_steady hb _ _ _
    · exact pushZero_steady hb _ _ _

/-- The planning loop over ascending, readable extents. -/
theorem planExtents_steady {sourceLen cursor size : Nat} {b : PlanBuilder}
    {ordered : List (Nat × ExtentRun)} (hb : b.policy = .zeroFillAndMap)
    (hsource : sourceLen < 2 ^ 64) (hascending : Ascending (ordered.map Prod.snd) cursor size)
    (hreadable : ∀ x ∈ ordered, Readable sourceLen x.2) :
    LimitOnly (planExtents sourceLen ordered b cursor) ∧
    ∀ b' cursor', planExtents sourceLen ordered b cursor = .ok (b', cursor') →
      b'.policy = .zeroFillAndMap := by
  induction ordered generalizing b cursor with
  | nil => exact ⟨LimitOnly.ok _, fun b' cursor' h => by cases h; exact hb⟩
  | cons x ordered ih =>
    obtain ⟨hstart, _, hrest⟩ := hascending
    have hx := planExtent_steady hb hsource hstart (hreadable x List.mem_cons_self)
    have ih := fun b₁ hb₁ => @ih (stop x.2) b₁ hb₁ hrest fun y hy =>
      hreadable y (List.mem_cons_of_mem x hy)
    simp only [planExtents]
    constructor
    · exact hx.limit.bind fun b₁ hb₁ => (ih b₁ (hx.policy b₁ hb₁)).1
    · intro b' cursor' h
      obtain ⟨b₁, hb₁, h⟩ := bind_eq_ok.mp h
      exact (ih b₁ (hx.policy b₁ hb₁)).2 b' cursor' h

/-! ## Candidates -/

/-- Planning the candidate gives a plan, or fails because of the segment limit. -/
def Admits (candidate : Candidate) (sourceLen : Nat) : Prop :=
  (∃ plan, planCandidate candidate sourceLen none .zeroFillAndMap {} = .ok (some plan)) ∨
  ∃ limit, planCandidate candidate sourceLen none .zeroFillAndMap {} =
    .error (.segmentLimitExceeded limit)

theorem planCandidate_ne_none {candidate : Candidate} (hkind : candidate.kind = .file)
    {sourceLen : Nat} {sha : Option Digest} {policy : PartialPolicy} {limits : PlanLimits} :
    planCandidate candidate sourceLen sha policy limits ≠ .ok none := by
  intro h
  simp only [planCandidate, hkind, reduceCtorEq, if_false, bind_eq_ok, throw_bind, ite_throw_eq_ok,
    pure_bind] at h
  obtain ⟨_, _, _, _, ⟨_, _⟩, _, h⟩ := h
  split at h
  · obtain ⟨_, _, h⟩ := bind_eq_ok.mp h
    cases h
  · cases h

theorem LimitOnly.admits {candidate : Candidate} {sourceLen : Nat}
    (hkind : candidate.kind = .file)
    (h : LimitOnly (planCandidate candidate sourceLen none .zeroFillAndMap {})) :
    Admits candidate sourceLen := by
  cases hplan : planCandidate candidate sourceLen none .zeroFillAndMap {} with
  | error e =>
    obtain ⟨limit, rfl⟩ := h e hplan
    exact .inr ⟨limit, hplan⟩
  | ok plan =>
    cases plan with
    | none => exact absurd hplan (planCandidate_ne_none hkind)
    | some plan => exact .inl ⟨plan, hplan⟩

/-- Ascending extents whose readable ones lie inside the source. -/
theorem planCandidate_admits {candidate : Candidate} {sourceLen bound : Nat}
    (hkind : candidate.kind = .file) (hsource : sourceLen < 2 ^ 64)
    (hascending : Ascending candidate.extents 0 bound) (hsize : bound ≤ candidate.size)
    (hbound : bound < 2 ^ 64) (hreadable : ∀ e ∈ candidate.extents, Readable sourceLen e) :
    Admits candidate sourceLen := by
  apply LimitOnly.admits hkind
  obtain ⟨ordered, hordered, hmap⟩ := @checkedExtents_ok candidate.size 0 candidate.extents
    fun e he => by
      obtain ⟨_, hlen, hstop⟩ := hascending.bounds he
      exact ⟨hlen, by omega, by omega⟩
  rw [← hmap] at hascending hreadable
  obtain ⟨hlimit, hpolicy⟩ := @planExtents_steady sourceLen 0 bound
    { policy := .zeroFillAndMap, maxSegments := maxContentPlanSegments } ordered rfl hsource
    hascending fun x hx => hreadable x.2 (List.mem_map_of_mem (f := Prod.snd) hx)
  have hlimits :
    ¬(maxContentPlanSegments = 0 ∨ maxContentPlanSegments > maxContentPlanSegments) := by
    decide
  simp only [planCandidate, hkind, reduceCtorEq, if_false, if_neg hlimits, hordered, bind_ok,
    insertionSort_planOrder hascending]
  split
  · intro e h; cases h; exact ⟨_, rfl⟩
  · refine hlimit.bind fun ⟨b, cursor⟩ hloop => ?_
    have hb := hpolicy b cursor hloop
    simp only
    split
    · exact (pushZero_steady hb _ _ _).limit.bind fun _ _ => LimitOnly.ok _
    · exact LimitOnly.ok _

/-- A resident value is planned when it is not empty and lies inside the source. -/
theorem planCandidate_resident {candidate : Candidate} {sourceLen p : Nat}
    (hkind : candidate.kind = .file) (hsource : sourceLen < 2 ^ 64)
    (hsize : candidate.size < 2 ^ 64)
    (hextents : candidate.extents = [⟨0, some p, candidate.size, .resident⟩]) :
    Admits candidate sourceLen ↔ 0 < candidate.size ∧ p + candidate.size ≤ sourceLen := by
  constructor
  · intro h
    have hlength : ¬(([] : List ExtentRun).length + 1 > maxContentPlanSegments) := by decide
    have hadd : U64.checkedAdd 0 candidate.size = some candidate.size := by
      rw [U64.checkedAdd_of_lt (by omega), Nat.zero_add]
    simp only [Admits, planCandidate, hkind, reduceCtorEq, if_false, hextents, List.length_cons,
      if_neg hlength, checkedExtents, checkExtent, hadd, okOr, bind_ok,
      gt_iff_lt, Nat.lt_irrefl] at h
    by_cases hzero : candidate.size = 0
    · -- the empty extent is rejected
      simp only [if_pos hzero, throw_bind] at h
      rcases h with ⟨plan, h⟩ | ⟨limit, h⟩ <;> cases h
    · refine ⟨Nat.pos_of_ne_zero hzero, ?_⟩
      by_contra hbeyond
      -- so is one that reaches past the source
      have hmapping : ∃ e, readableMapping ⟨0, some p, candidate.size, .resident⟩ sourceLen =
          .error e ∧ ∀ limit, e ≠ .segmentLimitExceeded limit := by
        simp only [readableMapping]
        cases hsum : U64.checkedAdd p candidate.size with
        | none => exact ⟨_, rfl, by intro limit h; cases h⟩
        | some physicalEnd =>
          obtain ⟨_, rfl⟩ := U64.checkedAdd_eq_some.mp hsum
          simp only [okOr, bind_ok, if_pos (show p + candidate.size > sourceLen by omega)]
          exact ⟨_, rfl, by intro limit h; cases h⟩
      obtain ⟨e, hmapping, hne⟩ := hmapping
      simp only [if_neg hzero, pure_bind, List.insertionSort_cons,
        List.insertionSort_nil, List.orderedInsert_nil, planExtents, planExtent,
        Nat.lt_irrefl, if_false, gt_iff_lt, hmapping] at h
      rcases h with ⟨plan, h⟩ | ⟨limit, h⟩ <;> cases h
      exact hne limit rfl
  · rintro ⟨hpos, hle⟩
    refine @planCandidate_admits candidate sourceLen candidate.size hkind hsource ?_
      (Nat.le_refl _) hsize ?_
    · rw [hextents]
      exact ⟨Nat.le_refl _, hpos, by simp [Ascending, stop, start, len]⟩
    · rw [hextents]
      intro e he _ q hq
      obtain rfl := List.mem_singleton.mp he
      cases hq
      exact hle

end Undelete.Restore
