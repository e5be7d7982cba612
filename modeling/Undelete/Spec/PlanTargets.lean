import Mathlib.Data.List.Chain
import Undelete.Spec.PlanOutcome
import Undelete.Spec.StreamCorrect

/-!
# What a plan says about each byte

The extents of a candidate give every byte of the file a target: the physical byte that
stores it, or the reason why it is filled with zeros. A plan writes these targets down as
segments, and a segment ends exactly where the targets do not continue.

The planning loop keeps `Rendered`, which `Rendered.push` extends by a new segment and
`Rendered.grow` by a longer last one.

## Key results

- `planExtents_rendered`: the loop renders the extents it has seen.
- `PlannedAs.perm`: the order of the extents does not matter.
- `preflightSegments_accepts`: streaming accepts what planning returns.
- `planCandidate_targets`: all of it for a candidate.
-/

namespace Undelete.Restore

open Except IntervalLike

/-! ## Targets -/

/-- Where a byte of the file comes from. -/
inductive ByteTarget where
  | stored (physicalOffset : Nat) (availability : ExtentAvailability)
  | filled (reason : ZeroFillReason)
deriving DecidableEq, Repr

namespace ByteTarget

/-- The second target belongs to the byte behind the first in one run of the source or of
    zeros. A run of the source has one availability. -/
def Continues : ByteTarget → ByteTarget → Prop
  | stored p a, stored q b => q = p + 1 ∧ b = a
  | filled r, filled s => s = r
  | _, _ => False

end ByteTarget

/-- Why an extent that is not read is filled with zeros. -/
def fillReason : ExtentAvailability → ZeroFillReason
  | .sparse => .sparse
  | .currentlyAllocated => .currentlyAllocated
  | .outOfVolume => .outOfVolume
  | .readFailed => .previouslyReadFailed
  | .zeroed => .zeroed
  | .freeInSnapshot | .resident | .unknown => .unknownAvailability

/-- The target an extent gives to byte `i` of the file. -/
def extentTarget (e : ExtentRun) (i : Nat) : ByteTarget :=
  if Mapped e then .stored (e.physicalOffset.getD 0 + (i - e.logicalOffset)) e.availability
  else .filled (fillReason e.availability)

/-- The target of byte `i`: that of the extent that covers it, or a missing extent. -/
def Target (extents : List ExtentRun) (i : Nat) (t : ByteTarget) : Prop :=
  (∃ e ∈ extents, Covers e i ∧ extentTarget e i = t) ∨
    ¬CoveredBy extents i ∧ t = .filled .missingExtent

/-- Disjoint extents give a byte one target. -/
theorem Target.unique {extents : List ExtentRun} {i : Nat} {t u : ByteTarget}
    (hdisjoint : ∀ e ∈ extents, ∀ e' ∈ extents, Covers e i → Covers e' i → e = e')
    (ht : Target extents i t) (hu : Target extents i u) : t = u := by
  rcases ht with ⟨e, he, hcovers, rfl⟩ | ⟨hgap, rfl⟩
  · rcases hu with ⟨e', he', hcovers', rfl⟩ | ⟨hgap, _⟩
    · rw [hdisjoint e he e' he' hcovers hcovers']
    · exact absurd ⟨e, he, hcovers⟩ hgap
  · rcases hu with ⟨e', he', hcovers', _⟩ | ⟨_, rfl⟩
    · exact absurd ⟨e', he', hcovers'⟩ hgap
    · rfl

/-- The mapping of an extent is the target of its bytes. -/
theorem readableMapping_target {sourceLen : Nat} {e : ExtentRun} {mapping : ExtentMapping}
    (h : readableMapping e sourceLen = .ok mapping) :
    (∃ p, mapping = .read p ∧ p + e.len ≤ sourceLen ∧
      ∀ i, extentTarget e i = .stored (p + (i - e.logicalOffset)) e.availability) ∨
    ∃ reason, mapping = .zero reason ∧ ∀ i, extentTarget e i = .filled reason := by
  -- only a mapped extent is read; every other one is filled, for the reason of its availability
  by_cases hmapped : Mapped e
  · left
    obtain ⟨havailable, hsome⟩ := hmapped
    obtain ⟨p, hp⟩ := Option.isSome_iff_exists.mp hsome
    have hread : p + e.len ≤ sourceLen ∧ mapping = .read p := by
      rcases havailable with ha | ha <;>
        (simp only [readableMapping, ha, hp, bind_eq_ok, okOr_eq_ok, throw_bind, ite_throw_eq_ok,
          pure_eq_ok] at h
         obtain ⟨_, hend, hle, rfl⟩ := h
         obtain ⟨_, rfl⟩ := U64.checkedAdd_eq_some.mp hend
         exact ⟨by omega, rfl⟩)
    refine ⟨p, hread.2, hread.1, fun i => ?_⟩
    rw [extentTarget, if_pos ⟨havailable, hsome⟩, hp, Option.getD_some]
  · right
    have hfill : ∀ i, extentTarget e i = .filled (fillReason e.availability) := fun i =>
      if_neg hmapped
    refine ⟨fillReason e.availability, ?_, hfill⟩
    obtain ⟨reason, hreason, _⟩ := readableMapping_zero sourceLen hmapped
    rw [hreason] at h
    cases h
    congr 1
    simp only [readableMapping] at hreason
    cases ha : e.availability with
    | freeInSnapshot | resident =>
      have hnone : e.physicalOffset = none := by
        cases hp : e.physicalOffset with
        | none => rfl
        | some p => exact absurd ⟨by simp [ha], by rw [hp]; rfl⟩ hmapped
      rw [ha, hnone] at hreason
      cases hreason
      rfl
    | _ => rw [ha] at hreason; cases hreason; rfl

/-! ## Rendered segments -/

/-- The target that a segment gives to byte `i`. -/
def BuiltSegment.target (s : BuiltSegment) (i : Nat) : ByteTarget :=
  match s.segment with
  | .read logicalOffset physicalOffset _ =>
    .stored (physicalOffset + (i - logicalOffset)) (s.readAvailability.getD .unknown)
  | .zero _ _ reason => .filled reason

/-- A segment that reads lies inside the source and knows the availability it reads. -/
def BuiltSegment.Inside (s : BuiltSegment) (sourceLen : Nat) : Prop :=
  match s.segment with
  | .read _ physicalOffset len => physicalOffset + len ≤ sourceLen ∧ s.readAvailability.isSome
  | .zero .. => True

/-- The segments are the targets of the bytes before `cursor`. -/
structure Rendered (target : Nat → ByteTarget → Prop) (sourceLen : Nat)
    (segments : List BuiltSegment) (cursor : Nat) : Prop where
  tiles : Tiles (segments.map (·.segment)) 0 cursor
  targets : ∀ s ∈ segments, ∀ i, Covers s.segment i → target i (s.target i)
  inside : ∀ s ∈ segments, s.Inside sourceLen
  coalesced : segments.IsChain fun s t =>
    ¬(s.target (stop s.segment - 1)).Continues (t.target (start t.segment))

variable {target : Nat → ByteTarget → Prop} {sourceLen cursor : Nat}
  {segments init : List BuiltSegment} {last s : BuiltSegment}

theorem Rendered.nil : Rendered target sourceLen [] 0 where
  tiles := rfl
  targets s hs := by cases hs
  inside s hs := by cases hs
  coalesced := List.IsChain.nil

/-- The last segment ends at the cursor. -/
theorem Rendered.stop_last (h : Rendered target sourceLen (init ++ [last]) cursor) :
    stop last.segment = cursor ∧ 0 < len last.segment := by
  have htiles := h.tiles
  rw [List.map_append, tiles_append] at htiles
  obtain ⟨_, _, _, hlen, hstop⟩ := htiles
  exact ⟨hstop, hlen⟩

/-- A new segment whose targets do not continue the last one. -/
theorem Rendered.push (h : Rendered target sourceLen segments cursor)
    (hstart : start s.segment = cursor) (hlen : 0 < len s.segment)
    (htargets : ∀ i, Covers s.segment i → target i (s.target i)) (hinside : s.Inside sourceLen)
    (hlast : ∀ last ∈ segments.getLast?,
      ¬(last.target (cursor - 1)).Continues (s.target cursor)) :
    Rendered target sourceLen (segments ++ [s]) (stop s.segment) where
  tiles := by
    rw [List.map_append]
    exact tiles_append.mpr ⟨cursor, h.tiles, hstart, hlen, rfl⟩
  targets t ht := by
    rcases List.mem_append.mp ht with ht | ht
    · exact h.targets t ht
    · rw [List.mem_singleton.mp ht]
      exact htargets
  inside t ht := by
    rcases List.mem_append.mp ht with ht | ht
    · exact h.inside t ht
    · rw [List.mem_singleton.mp ht]
      exact hinside
  -- the new segment does not continue the last one, so the chain grows
  coalesced := by
    refine List.isChain_append.mpr ⟨h.coalesced, List.isChain_singleton s, fun last hmem t ht => ?_⟩
    obtain rfl : s = t := by simpa using ht
    obtain ⟨init, rfl⟩ := List.getLast?_eq_some_iff.mp hmem
    rw [h.stop_last.1, hstart]
    exact hlast last hmem

/-- A last segment that grows by bytes whose targets continue it. -/
theorem Rendered.grow (h : Rendered target sourceLen (init ++ [last]) cursor)
    (hstart : start s.segment = start last.segment) (hlen : len last.segment ≤ len s.segment)
    (hsame : ∀ i, s.target i = last.target i)
    (htargets : ∀ i, cursor ≤ i → i < stop s.segment → target i (s.target i))
    (hinside : s.Inside sourceLen) :
    Rendered target sourceLen (init ++ [s]) (stop s.segment) where
  tiles := by
    have htiles := h.tiles
    rw [List.map_append, tiles_append] at htiles ⊢
    obtain ⟨b, hinit, hb, hpos, _⟩ := htiles
    exact ⟨b, hinit, hstart.trans hb, Nat.lt_of_lt_of_le hpos hlen, rfl⟩
  targets t ht i hi := by
    rcases List.mem_append.mp ht with ht | ht
    · exact h.targets t (List.mem_append_left _ ht) i hi
    -- below the cursor the longer segment has the targets of the one it replaces
    · rw [List.mem_singleton.mp ht] at hi ⊢
      by_cases hbefore : i < cursor
      · rw [hsame]
        apply h.targets last (List.mem_append_right _ List.mem_cons_self) i
        have hstop := h.stop_last.1
        simp only [Covers] at hi ⊢
        omega
      · exact htargets i (by omega) hi.2
  inside t ht := by
    rcases List.mem_append.mp ht with ht | ht
    · exact h.inside t (List.mem_append_left _ ht)
    · rw [List.mem_singleton.mp ht]
      exact hinside
  coalesced := by
    obtain ⟨hinit, _, hjoin⟩ := List.isChain_append.mp h.coalesced
    refine List.isChain_append.mpr ⟨hinit, List.isChain_singleton s, fun x hx t ht => ?_⟩
    obtain rfl : s = t := by simpa using ht
    rw [hsame, hstart]
    exact hjoin x hx last rfl

/-! ## The builder -/

/-- A builder that has planned the bytes before `cursor` under `policy` and `maxSegments`. -/
structure BuiltTo (target : Nat → ByteTarget → Prop) (sourceLen : Nat) (policy : PartialPolicy)
    (maxSegments : Nat) (b : PlanBuilder) (cursor : Nat) : Prop where
  rendered : Rendered target sourceLen b.segments cursor
  policy_eq : b.policy = policy
  maxSegments_eq : b.maxSegments = maxSegments
  length_le : b.segments.length ≤ maxSegments
  flag : b.requiresBestEffort = true ↔ ∃ s ∈ b.segments, s.segment.Lossy
  admitted : policy = .completeOnly → ∀ s ∈ b.segments, ¬s.segment.Lossy

variable {policy : PartialPolicy} {maxSegments : Nat} {b b' : PlanBuilder}

theorem push_eq_ok (h : b.push s = .ok b') :
    b.segments.length < b.maxSegments ∧ b' = { b with segments := b.segments ++ [s] } := by
  simp only [PlanBuilder.push] at h
  split at h
  · cases h
  · next hlt =>
    cases h
    exact ⟨Nat.not_le.mp hlt, rfl⟩

/-- A read is pushed behind the segments, or the last read grows by it. -/
theorem pushRead_eq_ok {logicalOffset physicalOffset len : Nat}
    {availability : ExtentAvailability}
    (h : b.pushRead logicalOffset physicalOffset len availability = .ok b') :
    (∃ init lastLogical lastPhysical lastLen,
      b.segments = init ++ [⟨.read lastLogical lastPhysical lastLen, some availability⟩] ∧
      lastLogical + lastLen = logicalOffset ∧ lastPhysical + lastLen = physicalOffset ∧
      b' = { b with segments := init ++
        [⟨.read lastLogical lastPhysical (lastLen + len), some availability⟩] }) ∨
    (∀ lastLogical lastPhysical lastLen,
      b.segments.getLast? = some ⟨.read lastLogical lastPhysical lastLen, some availability⟩ →
      ¬(lastLogical + lastLen = logicalOffset ∧ lastPhysical + lastLen = physicalOffset)) ∧
      b.push ⟨.read logicalOffset physicalOffset len, some availability⟩ = .ok b' := by
  simp only [PlanBuilder.pushRead] at h
  split at h
  · next lastLogical lastPhysical lastLen lastAvailability hlast =>
    split at h
    -- the last read goes on where it ended, on the device as well
    · next hjoin =>
      obtain ⟨rfl, hlogical, hphysical⟩ := hjoin
      obtain ⟨init, hinit⟩ := List.getLast?_eq_some_iff.mp hlast
      cases h
      refine .inl ⟨init, lastLogical, lastPhysical, lastLen, hinit, hlogical, hphysical, ?_⟩
      rw [PlanBuilder.setLast, hinit, List.dropLast_concat]
    · next hjoin =>
      refine .inr ⟨fun l p n hsome hcontiguous => ?_, h⟩
      rw [hlast] at hsome
      cases hsome
      exact hjoin ⟨rfl, hcontiguous⟩
  -- the last segment is no read of this availability
  · next hnone => exact .inr ⟨fun l p n hsome => absurd hsome (hnone l p n _), h⟩

/-- Zeros are pushed behind the segments, or the last zeros grow by them; all but sparse ones
    raise the flag, and the complete policy refuses them. -/
theorem pushZero_eq_ok {logicalOffset len : Nat} {reason : ZeroFillReason}
    (h : b.pushZero logicalOffset len reason = .ok b') :
    (reason ≠ .sparse → b.policy ≠ .completeOnly) ∧
      ∃ flag, flag = (b.requiresBestEffort || decide (reason ≠ .sparse)) ∧
      ((∃ init lastLogical lastLen lastAvailability,
        b.segments = init ++ [⟨.zero lastLogical lastLen reason, lastAvailability⟩] ∧
        lastLogical + lastLen = logicalOffset ∧
        b' = { b with requiresBestEffort := flag, segments := init ++
          [⟨.zero lastLogical (lastLen + len) reason, lastAvailability⟩] }) ∨
      (∀ lastLogical lastLen lastAvailability,
        b.segments.getLast? = some ⟨.zero lastLogical lastLen reason, lastAvailability⟩ →
        lastLogical + lastLen ≠ logicalOffset) ∧
        PlanBuilder.push { b with requiresBestEffort := flag }
          ⟨.zero logicalOffset len reason, none⟩ = .ok b') := by
  simp only [PlanBuilder.pushZero, throw_bind, ite_throw_eq_ok] at h
  obtain ⟨hadmitted, h⟩ := h
  refine ⟨fun hreason hpolicy => hadmitted ⟨hreason, hpolicy⟩, _, rfl, ?_⟩
  -- only zeros of a hole leave the plan exact
  have hflag : (if reason ≠ .sparse then { b with requiresBestEffort := true } else b) =
      { b with requiresBestEffort := b.requiresBestEffort || decide (reason ≠ .sparse) } := by
    split
    · next hreason => simp [hreason]
    · next hreason => simp [Decidable.not_not.mp hreason]
  rw [hflag] at h
  split at h
  · next lastLogical lastLen lastReason lastAvailability hlast =>
    split at h
    -- the last zeros go on for the same reason
    · next hjoin =>
      obtain ⟨hlogical, rfl⟩ := hjoin
      obtain ⟨init, hinit⟩ := List.getLast?_eq_some_iff.mp hlast
      have hinit : b.segments = init ++ [⟨.zero lastLogical lastLen lastReason,
        lastAvailability⟩] := hinit
      rw [pure_eq_ok] at h
      refine .inl ⟨init, lastLogical, lastLen, lastAvailability, hinit, hlogical, ?_⟩
      rw [← h, PlanBuilder.setLast]
      simp only [hinit, List.dropLast_concat]
    · next hjoin =>
      refine .inr ⟨fun l n a hsome hcontiguous => ?_, h⟩
      rw [hlast] at hsome
      cases hsome
      exact hjoin ⟨hcontiguous, rfl⟩
  · next hnone => exact .inr ⟨fun l n a hsome => absurd hsome (hnone l n _ a), h⟩

/-- Planning a read of the bytes from the cursor on. -/
theorem BuiltTo.pushRead {physicalOffset len : Nat} {availability : ExtentAvailability}
    (hb : BuiltTo target sourceLen policy maxSegments b cursor)
    (h : b.pushRead cursor physicalOffset len availability = .ok b') (hlen : 0 < len)
    (hinside : physicalOffset + len ≤ sourceLen)
    (htarget : ∀ i, cursor ≤ i → i < cursor + len →
      target i (.stored (physicalOffset + (i - cursor)) availability)) :
    BuiltTo target sourceLen policy maxSegments b' (cursor + len) := by
  have hflag := hb.flag
  have hadmitted := hb.admitted
  have hlength := hb.length_le
  -- either the last read grows, or a new one is appended
  rcases pushRead_eq_ok h with ⟨init, lastLogical, lastPhysical, lastLen, hinit, hlogical,
      hphysical, rfl⟩ | ⟨hlast, hpush⟩
  · have hrendered := hb.rendered
    rw [hinit] at hrendered hflag hadmitted hlength
    have hpos := hrendered.stop_last.2
    have hgrown := hrendered.grow
      (s := ⟨.read lastLogical lastPhysical (lastLen + len), some availability⟩) rfl
      (Nat.le_add_right _ _) (fun i => rfl) (fun i hlo hhi => ?_) ⟨by omega, rfl⟩
    · have hstop : stop (ContentSegment.read lastLogical lastPhysical (lastLen + len)) =
          cursor + len := by
        show lastLogical + (lastLen + len) = cursor + len
        omega
      rw [hstop] at hgrown
      refine ⟨hgrown, hb.policy_eq, hb.maxSegments_eq, by simpa using hlength, ?_,
        fun hp s hs => ?_⟩
      · simpa [ContentSegment.Lossy] using hflag
      · rcases List.mem_append.mp hs with hs | hs
        · exact hadmitted hp s (List.mem_append_left _ hs)
        · rw [List.mem_singleton.mp hs]
          exact fun hlossy => hlossy
    · have hhi : i < lastLogical + (lastLen + len) := hhi
      have hi := htarget i hlo (by omega)
      have hoffset : physicalOffset + (i - cursor) = lastPhysical + (i - lastLogical) := by omega
      rw [hoffset] at hi
      exact hi
  · obtain ⟨hlt, rfl⟩ := push_eq_ok hpush
    rw [hb.maxSegments_eq] at hlt
    have hpushed := hb.rendered.push
      (s := ⟨.read cursor physicalOffset len, some availability⟩) rfl hlen
      (fun i hi => htarget i hi.1 hi.2) ⟨hinside, rfl⟩ ?_
    · refine ⟨hpushed, hb.policy_eq, hb.maxSegments_eq, by rw [List.length_append]; exact hlt, ?_,
        fun hp s hs => ?_⟩
      · simpa [or_and_right, exists_or, ContentSegment.Lossy] using hflag
      · rcases List.mem_append.mp hs with hs | hs
        · exact hadmitted hp s hs
        · rw [List.mem_singleton.mp hs]
          exact fun hlossy => hlossy
    · -- the last segment is no read of this availability that ends where this one starts
      intro last hmem hcontinues
      obtain ⟨init, hinit⟩ := List.getLast?_eq_some_iff.mp hmem
      have hrendered := hb.rendered
      rw [hinit] at hrendered
      obtain ⟨hstop, hpos⟩ := hrendered.stop_last
      have hinsideLast := hb.rendered.inside last (List.mem_of_getLast? hmem)
      obtain ⟨segment, readAvailability⟩ := last
      cases segment with
      | zero o n r => exact hcontinues
      | read o p n =>
        obtain ⟨_, hsome⟩ := hinsideLast
        obtain ⟨a, rfl⟩ := Option.isSome_iff_exists.mp hsome
        obtain ⟨hphysical, havailability⟩ := hcontinues
        obtain rfl : availability = a := havailability
        have hstop : o + n = cursor := hstop
        have hpos : 0 < n := hpos
        refine hlast o p n hmem ⟨hstop, ?_⟩
        simp only [Nat.sub_self, Nat.add_zero] at hphysical
        omega

/-- Planning zeros for the bytes from the cursor on. -/
theorem BuiltTo.pushZero {len : Nat} {reason : ZeroFillReason}
    (hb : BuiltTo target sourceLen policy maxSegments b cursor)
    (h : b.pushZero cursor len reason = .ok b') (hlen : 0 < len)
    (htarget : ∀ i, cursor ≤ i → i < cursor + len → target i (.filled reason)) :
    BuiltTo target sourceLen policy maxSegments b' (cursor + len) := by
  have hflag := hb.flag
  have hadmitted := hb.admitted
  have hlength := hb.length_le
  obtain ⟨hpolicy, flag, rfl, hcases⟩ := pushZero_eq_ok h
  rw [hb.policy_eq] at hpolicy
  have hlossy : ∀ o n, policy = .completeOnly → ¬(ContentSegment.zero o n reason).Lossy :=
    fun o n hp hlossy => hpolicy hlossy hp
  -- either the last zeros grow, or new ones are appended
  rcases hcases with ⟨init, lastLogical, lastLen, lastAvailability, hinit, hlogical, rfl⟩ |
      ⟨hlast, hpush⟩
  · have hrendered := hb.rendered
    rw [hinit] at hrendered hflag hadmitted hlength
    have hgrown := hrendered.grow
      (s := ⟨.zero lastLogical (lastLen + len) reason, lastAvailability⟩) rfl
      (Nat.le_add_right _ _) (fun i => rfl) (fun i hlo hhi => htarget i hlo ?_) trivial
    · have hstop : stop (ContentSegment.zero lastLogical (lastLen + len) reason) =
          cursor + len := by
        show lastLogical + (lastLen + len) = cursor + len
        omega
      rw [hstop] at hgrown
      refine ⟨hgrown, hb.policy_eq, hb.maxSegments_eq, by simpa using hlength, ?_,
        fun hp s hs => ?_⟩
      · rw [Bool.or_eq_true, hflag]
        simp [ContentSegment.Lossy, or_and_right, exists_or]
      · rcases List.mem_append.mp hs with hs | hs
        · exact hadmitted hp s (List.mem_append_left _ hs)
        · rw [List.mem_singleton.mp hs]
          exact hlossy _ _ hp
    · have hstop : i < lastLogical + (lastLen + len) := hhi
      omega
  · obtain ⟨hlt, rfl⟩ := push_eq_ok hpush
    have hlt : b.segments.length < maxSegments := by
      rw [← hb.maxSegments_eq]
      exact hlt
    have hpushed := hb.rendered.push (s := ⟨.zero cursor len reason, none⟩) rfl hlen
      (fun i hi => htarget i hi.1 hi.2) trivial ?_
    · refine ⟨hpushed, hb.policy_eq, hb.maxSegments_eq, by rw [List.length_append]; exact hlt, ?_,
        fun hp s hs => ?_⟩
      · rw [Bool.or_eq_true, hflag]
        simp [ContentSegment.Lossy, or_and_right, exists_or]
      · rcases List.mem_append.mp hs with hs | hs
        · exact hadmitted hp s hs
        · rw [List.mem_singleton.mp hs]
          exact hlossy _ _ hp
    · -- the last segment is no zeros of this reason
      intro last hmem hcontinues
      obtain ⟨init, hinit⟩ := List.getLast?_eq_some_iff.mp hmem
      have hrendered := hb.rendered
      rw [hinit] at hrendered
      obtain ⟨segment, readAvailability⟩ := last
      cases segment with
      | read o p n => exact hcontinues
      | zero o n r =>
        obtain rfl : reason = r := hcontinues
        exact hlast o n readAvailability hmem hrendered.stop_last.1

/-! ## The loop -/

variable {extents : List ExtentRun}

theorem planExtent_cursor_le {e : ExtentRun} (h : planExtent sourceLen b cursor e = .ok b') :
    cursor ≤ start e := by
  simp only [planExtent, throw_bind, ite_throw_eq_ok] at h
  exact Nat.not_lt.mp h.1

/-- The loop accepts extents that ascend only. -/
theorem planExtents_ascending {ordered : List (Nat × ExtentRun)} {cursor' : Nat}
    (h : planExtents sourceLen ordered b cursor = .ok (b', cursor'))
    (hlen : ∀ x ∈ ordered, 0 < x.2.len) : Ascending (ordered.map Prod.snd) cursor cursor' := by
  induction ordered generalizing b cursor with
  | nil =>
    cases h
    exact Nat.le_refl _
  | cons x ordered ih =>
    rw [planExtents, bind_eq_ok] at h
    obtain ⟨b₁, hb₁, h⟩ := h
    exact ⟨planExtent_cursor_le hb₁, hlen x List.mem_cons_self,
      ih h fun y hy => hlen y (List.mem_cons_of_mem x hy)⟩

theorem planExtents_cursor_le {ordered : List (Nat × ExtentRun)} {cursor' size : Nat}
    (h : planExtents sourceLen ordered b cursor = .ok (b', cursor'))
    (hinside : ∀ e ∈ ordered.map Prod.snd, stop e ≤ size) (hcursor : cursor ≤ size) :
    cursor' ≤ size := by
  induction ordered generalizing b cursor with
  | nil =>
    cases h
    exact hcursor
  | cons x ordered ih =>
    rw [planExtents, bind_eq_ok] at h
    obtain ⟨b₁, _, h⟩ := h
    exact ih h (fun e he => hinside e (List.mem_cons_of_mem _ he)) (hinside x.2 List.mem_cons_self)

/-- One extent, with the missing bytes in front of it. -/
theorem BuiltTo.planExtent {e : ExtentRun}
    (hb : BuiltTo target sourceLen policy maxSegments b cursor)
    (h : planExtent sourceLen b cursor e = .ok b') (hlen : 0 < e.len)
    (hgap : ∀ i, cursor ≤ i → i < start e → target i (.filled .missingExtent))
    (htarget : ∀ i, Covers e i → target i (extentTarget e i)) :
    BuiltTo target sourceLen policy maxSegments b' (stop e) := by
  have hcursor := planExtent_cursor_le h
  rw [planExtent_eq hcursor, bind_eq_ok] at h
  obtain ⟨b₁, hfirst, h⟩ := h
  -- the gap in front of the extent is filled first
  have hb₁ : BuiltTo target sourceLen policy maxSegments b₁ e.logicalOffset := by
    split at hfirst
    · next hlt =>
      have hzero := hb.pushZero hfirst (by omega) fun i hlo hhi => hgap i hlo (by
        show i < e.logicalOffset
        omega)
      rwa [Nat.add_sub_cancel' (Nat.le_of_lt hlt)] at hzero
    · next hge =>
      obtain rfl : cursor = e.logicalOffset := Nat.le_antisymm hcursor (Nat.not_lt.mp hge)
      cases hfirst
      exact hb
  rw [bind_eq_ok] at h
  obtain ⟨mapping, hmapping, h⟩ := h
  -- then the extent itself is read or filled
  rcases readableMapping_target hmapping with ⟨p, rfl, hinside, hread⟩ | ⟨reason, rfl, hzero⟩
  · refine hb₁.pushRead h hlen hinside fun i hlo hhi => ?_
    have hi := htarget i ⟨hlo, hhi⟩
    rwa [hread] at hi
  · refine hb₁.pushZero h hlen fun i hlo hhi => ?_
    have hi := htarget i ⟨hlo, hhi⟩
    rwa [hzero] at hi

/-- The loop over the extents from the cursor on. -/
theorem planExtents_rendered {ordered : List (Nat × ExtentRun)} {cursor' : Nat}
    (hascending : Ascending (ordered.map Prod.snd) cursor cursor')
    (hmem : ∀ x ∈ ordered, x.2 ∈ extents)
    (hcovers : ∀ i, cursor ≤ i → CoveredBy extents i → CoveredBy (ordered.map Prod.snd) i)
    (hb : BuiltTo (Target extents) sourceLen policy maxSegments b cursor)
    (h : planExtents sourceLen ordered b cursor = .ok (b', cursor')) :
    BuiltTo (Target extents) sourceLen policy maxSegments b' cursor' := by
  -- over the extents in their order; the cursor is where the last one stopped
  induction ordered generalizing b cursor with
  | nil =>
    cases h
    exact hb
  | cons x ordered ih =>
    rw [planExtents, bind_eq_ok] at h
    obtain ⟨b₁, hb₁, h⟩ := h
    obtain ⟨hstart, hlen, hrest⟩ := hascending
    have hnext := hb.planExtent hb₁ hlen (fun i hlo hhi => .inr ⟨fun hcovered => ?_, rfl⟩)
      fun i hi => .inl ⟨x.2, hmem x List.mem_cons_self, hi, rfl⟩
    · refine ih hrest (fun y hy => hmem y (List.mem_cons_of_mem x hy)) ?_ hnext h
      intro i hi hcovered
      have hstop : cursor ≤ stop x.2 := by
        simp only [stop] at hi ⊢
        omega
      rcases (coveredBy_cons _ _ _).mp (hcovers i (by omega) hcovered) with hfirst | hlater
      · exact absurd hfirst.2 (by omega)
      · exact hlater
    · -- the extents behind the first one start even later
      rcases (coveredBy_cons _ _ _).mp (hcovers i hlo hcovered) with hfirst | hlater
      · exact absurd hfirst.1 (by omega)
      · have := (hrest.lt_of_coveredBy hlater).1
        simp only [stop] at this
        omega

/-! ## Candidates -/

theorem checkedExtents_map {size index : Nat} {ordered : List (Nat × ExtentRun)}
    (h : checkedExtents size extents index = .ok ordered) :
    ordered.map Prod.snd = extents ∧
    ∀ e ∈ extents, 0 < e.len ∧ stop e ≤ size ∧ stop e < 2 ^ 64 := by
  induction extents generalizing index ordered with
  | nil =>
    cases h
    exact ⟨rfl, fun e he => (by cases he)⟩
  | cons e extents ih =>
    simp only [checkedExtents, checkExtent, bind_eq_ok, throw_bind, ite_throw_eq_ok, okOr_eq_ok,
      pure_eq_ok] at h
    obtain ⟨_, ⟨hlen, logicalEnd, hend, hsize, _⟩, rest, hrest, rfl⟩ := h
    obtain ⟨hlt, rfl⟩ := U64.checkedAdd_eq_some.mp hend
    obtain ⟨hmap, hall⟩ := ih hrest
    refine ⟨by rw [List.map_cons, hmap], fun e' he' => ?_⟩
    rcases List.mem_cons.mp he' with rfl | he'
    · exact ⟨by omega, by simp only [stop, start, len]; omega, hlt⟩
    · exact hall e' he'

/-- The loop looks at the extents only, not at their indices. -/
theorem planExtents_congr {ordered ordered' : List (Nat × ExtentRun)}
    (h : ordered.map Prod.snd = ordered'.map Prod.snd) :
    planExtents sourceLen ordered b cursor = planExtents sourceLen ordered' b cursor := by
  induction ordered generalizing ordered' b cursor with
  | nil =>
    cases ordered' with
    | nil => rfl
    | cons y ordered' => cases h
  | cons x ordered ih =>
    cases ordered' with
    | nil => cases h
    | cons y ordered' =>
      obtain ⟨hxy, hrest⟩ := List.cons.inj h
      simp only [planExtents, hxy]
      congr 1
      funext b₁
      exact ih hrest

/-- What planning a candidate did. -/
structure PlannedAs (candidate : Candidate) (sourceLen : Nat) (sha : Option Digest)
    (policy : PartialPolicy) (limits : PlanLimits) (plan : ContentPlan) : Prop where
  file : candidate.kind ≠ .directory
  limits_valid : 0 < limits.maxSegments ∧ limits.maxSegments ≤ maxContentPlanSegments
  count_le : candidate.extents.length ≤ maxContentPlanSegments
  checked : ∃ ordered, checkedExtents candidate.size candidate.extents 0 = .ok ordered ∧
    ∃ b cursor b', planExtents sourceLen (ordered.insertionSort planOrder)
        { policy, maxSegments := limits.maxSegments } 0 = .ok (b, cursor) ∧
      (if cursor < candidate.size then
        b.pushZero cursor (candidate.size - cursor) .missingExtent else pure b) = .ok b' ∧
      plan = { candidateId := candidate.id, logicalSize := candidate.size, segments := b'.finish.1,
               expectedSha256 := sha, requiresBestEffort := b'.finish.2, policy }

theorem planCandidate_eq_ok {candidate : Candidate} {sha : Option Digest} {limits : PlanLimits}
    {plan : ContentPlan} :
    planCandidate candidate sourceLen sha policy limits = .ok (some plan) ↔
      PlannedAs candidate sourceLen sha policy limits plan := by
  constructor
  · intro h
    simp only [planCandidate] at h
    split at h
    · cases h
    · next hfile =>
      simp only [throw_bind, ite_throw_eq_ok, bind_eq_ok, Prod.exists] at h
      obtain ⟨hlimits, hcount, ordered, hchecked, b, cursor, hloop, hlast⟩ := h
      refine ⟨hfile, by omega, by omega, ordered, hchecked, b, cursor, ?_⟩
      -- what is behind the last extent is missing
      by_cases hlt : cursor < candidate.size
      · simp only [if_pos hlt, bind_eq_ok, pure_eq_ok, Option.some.injEq] at hlast ⊢
        obtain ⟨b', hzero, rfl⟩ := hlast
        exact ⟨b', hloop, hzero, rfl⟩
      · simp only [if_neg hlt, pure_bind, pure_eq_ok, Option.some.injEq] at hlast ⊢
        exact ⟨b, hloop, rfl, hlast.symm⟩
  · rintro ⟨hfile, hlimits, hcount, ordered, hchecked, b, cursor, b', hloop, hlast, rfl⟩
    simp only [planCandidate, if_neg hfile, throw_bind]
    rw [if_neg (by omega), if_neg (by omega), hchecked, bind_ok, hloop, bind_ok]
    by_cases hlt : cursor < candidate.size
    · simp only [if_pos hlt] at hlast ⊢
      rw [hlast, bind_ok]
      rfl
    · simp only [if_neg hlt, pure_eq_ok] at hlast ⊢
      rw [hlast]
      rfl

variable {candidate : Candidate} {sha : Option Digest} {limits : PlanLimits} {plan : ContentPlan}

/-- The sorted extents of a planned candidate ascend inside the file. -/
theorem sorted_ascending {ordered : List (Nat × ExtentRun)} {size : Nat}
    (hchecked : checkedExtents size extents 0 = .ok ordered)
    (hloop : planExtents sourceLen (ordered.insertionSort planOrder) b 0 = .ok (b', cursor)) :
    ((ordered.insertionSort planOrder).map Prod.snd).Perm extents ∧
      Ascending ((ordered.insertionSort planOrder).map Prod.snd) 0 cursor := by
  obtain ⟨hmap, hall⟩ := checkedExtents_map hchecked
  have hperm : ((ordered.insertionSort planOrder).map Prod.snd).Perm extents := by
    rw [← hmap]
    exact (List.perm_insertionSort planOrder ordered).map Prod.snd
  refine ⟨hperm, planExtents_ascending hloop fun x hx => ?_⟩
  exact (hall x.2 (hperm.mem_iff.mp (List.mem_map_of_mem (f := Prod.snd) hx))).1

/-- A planned candidate has disjoint extents, and its builder has planned the whole file. -/
theorem PlannedAs.built (h : PlannedAs candidate sourceLen sha policy limits plan) :
    candidate.extents.Pairwise Apart ∧
      ∃ b, BuiltTo (Target candidate.extents) sourceLen policy limits.maxSegments b candidate.size ∧
        plan = { candidateId := candidate.id, logicalSize := candidate.size,
                 segments := b.segments.map (·.segment), expectedSha256 := sha,
                 requiresBestEffort := b.requiresBestEffort, policy } := by
  obtain ⟨ordered, hchecked, b, cursor, b', hloop, hlast, rfl⟩ := h.checked
  obtain ⟨hperm, hascending⟩ := sorted_ascending hchecked hloop
  obtain ⟨_, hall⟩ := checkedExtents_map hchecked
  have hstart : BuiltTo (Target candidate.extents) sourceLen policy limits.maxSegments
      { policy, maxSegments := limits.maxSegments } 0 :=
    ⟨Rendered.nil, rfl, rfl, Nat.zero_le _, by simp, fun _ s hs => (by cases hs)⟩
  have hmem : ∀ x ∈ ordered.insertionSort planOrder, x.2 ∈ candidate.extents := fun x hx =>
    hperm.mem_iff.mp (List.mem_map_of_mem (f := Prod.snd) hx)
  have hcoveredBy : ∀ i, CoveredBy candidate.extents i →
      CoveredBy ((ordered.insertionSort planOrder).map Prod.snd) i := by
    rintro i ⟨e, he, hcovers⟩
    exact ⟨e, hperm.mem_iff.mpr he, hcovers⟩
  have hbuilt := planExtents_rendered hascending hmem (fun i _ => hcoveredBy i) hstart hloop
  refine ⟨(hperm.pairwise_iff fun {x y} hxy => hxy.symm).mp
    (hascending.pairwise.imp fun hle => .inl hle), b', ?_, rfl⟩
  split at hlast
  · next hlt =>
    have hend := hbuilt.pushZero hlast (by omega) fun i hlo _ => .inr ⟨fun hcovered => ?_, rfl⟩
    · rwa [Nat.add_sub_cancel' (Nat.le_of_lt hlt)] at hend
    · have := (hascending.lt_of_coveredBy (hcoveredBy i hcovered)).2
      omega
  · next hge =>
    -- the loop ends at the end of the last extent, which is inside the file
    have hcursor : cursor ≤ candidate.size := by
      have hinside : ∀ e ∈ (ordered.insertionSort planOrder).map Prod.snd,
          stop e ≤ candidate.size := fun e he => (hall e (hperm.mem_iff.mp he)).2.1
      exact planExtents_cursor_le hloop hinside (Nat.zero_le _)
    obtain rfl : cursor = candidate.size := by omega
    cases hlast
    exact hbuilt

/-- Ascending lists of the same intervals are equal. -/
theorem ascending_eq_of_perm {α : Type} [IntervalLike α] {xs ys : List α} {a b a' b' : Nat}
    (hxs : Ascending xs a b) (hys : Ascending ys a' b') (hperm : xs.Perm ys) : xs = ys := by
  have hsorted : ∀ {zs : List α} {c d : Nat}, Ascending zs c d →
      zs.Pairwise fun x y => start x < start y := by
    intro zs c d h
    refine h.pairwise.imp_of_mem fun {x y} hx _ hle => ?_
    have hpos := (h.bounds hx).2.1
    simp only [stop] at hle
    omega
  exact hperm.eq_of_pairwise (fun x y _ _ hxy hyx => absurd hxy (Nat.lt_asymm hyx))
    (hsorted hxs) (hsorted hys)

/-- The order of the extents does not matter. -/
theorem PlannedAs.perm {extents' : List ExtentRun}
    (h : PlannedAs candidate sourceLen sha policy limits plan)
    (hperm : extents'.Perm candidate.extents) :
    PlannedAs { candidate with extents := extents' } sourceLen sha policy limits plan := by
  obtain ⟨hdisjoint, _⟩ := h.built
  obtain ⟨hfile, hlimits, hcount, ordered, hchecked, b, cursor, b', hloop, hlast, hplan⟩ := h
  obtain ⟨hsorted, hascending⟩ := sorted_ascending hchecked hloop
  obtain ⟨_, hall⟩ := checkedExtents_map hchecked
  obtain ⟨ordered', hchecked', hmap'⟩ := @checkedExtents_ok candidate.size 0 extents' fun e he =>
    hall e (hperm.mem_iff.mp he)
  have hsorted' : ((ordered'.insertionSort planOrder).map Prod.snd).Perm extents' := by
    rw [← hmap']
    exact (List.perm_insertionSort planOrder ordered').map Prod.snd
  have hall' : ∀ e ∈ (ordered'.insertionSort planOrder).map Prod.snd,
      0 < e.len ∧ stop e ≤ candidate.size ∧ stop e < 2 ^ 64 := fun e he =>
    hall e ((hsorted'.trans hperm).mem_iff.mp he)
  have hascending' : Ascending ((ordered'.insertionSort planOrder).map Prod.snd) 0
      candidate.size := by
    apply ascending_of_sorted (Nat.zero_le _)
    · rw [List.pairwise_map]
      refine (List.pairwise_insertionSort planOrder ordered').imp fun hab => ?_
      simp only [planOrder] at hab
      simp only [start]
      omega
    · exact ((hsorted'.trans hperm).pairwise_iff fun {x y} hxy => hxy.symm).mpr hdisjoint
    · intro e he
      exact ⟨Nat.zero_le _, (hall' e he).1, (hall' e he).2.1⟩
  -- sorted by their starts, the extents come in one order only
  have hsame := ascending_eq_of_perm hascending hascending'
    (hsorted.trans (hsorted'.trans hperm).symm)
  refine ⟨hfile, hlimits, by rw [hperm.length_eq]; exact hcount, ordered', hchecked', b, cursor,
    b', ?_, hlast, hplan⟩
  -- and the loop looks at nothing else
  rw [← planExtents_congr hsame]
  exact hloop

/-! ## Streaming accepts a plan -/

/-- The reads of a segment lie inside the source. -/
def ContentSegment.ReadsInside (s : ContentSegment) (sourceLen : Nat) : Prop :=
  match s with
  | .read _ physicalOffset len => physicalOffset + len ≤ sourceLen
  | .zero .. => True

/-- Segments that tile the file, read inside the source and fit the policy are accepted. -/
theorem preflightSegments_accepts {segments : List ContentSegment} {offset finish : Nat}
    (index : Nat) (flag : Bool) (hsource : sourceLen < 2 ^ 64) (hsize : plan.logicalSize < 2 ^ 64)
    (htiles : Tiles segments offset finish) (hfinish : finish ≤ plan.logicalSize)
    (hinside : ∀ s ∈ segments, s.ReadsInside sourceLen)
    (hpolicy : plan.policy = .completeOnly → ∀ s ∈ segments, ¬s.Lossy) :
    ∃ flag', preflightSegments sourceLen plan segments index offset flag = .ok (finish, flag') := by
  -- the segments tile, so each starts at the offset that the loop has reached
  induction segments generalizing index offset flag with
  | nil =>
    obtain rfl : offset = finish := htiles
    exact ⟨flag, rfl⟩
  | cons s segments ih =>
    obtain ⟨hstart, hlen, hrest⟩ := htiles
    have hstart : s.logicalOffset = offset := hstart
    have hlen : 0 < s.len := hlen
    have hstop : s.logicalOffset + s.len ≤ finish := hrest.le
    have hend : U64.checkedAdd s.logicalOffset s.len = some (stop s) :=
      U64.checkedAdd_of_lt (by omega)
    have hsegment : ∃ bestEffort, preflightSegment sourceLen plan.policy s = .ok bestEffort := by
      have hinsideHead := hinside s List.mem_cons_self
      have hpolicyHead := fun hp => hpolicy hp s List.mem_cons_self
      cases s with
      | read o p n =>
        have hle : p + n ≤ sourceLen := hinsideHead
        simp only [preflightSegment, U64.checkedAdd_of_lt (show p + n < 2 ^ 64 by omega), okOr,
          bind_ok, throw_bind]
        rw [if_neg (by omega)]
        exact ⟨false, rfl⟩
      | zero o n reason =>
        simp only [preflightSegment]
        split
        · next hreason =>
          rw [if_neg fun hp => hpolicyHead hp hreason]
          exact ⟨true, rfl⟩
        · exact ⟨false, rfl⟩
    obtain ⟨bestEffort, hsegment⟩ := hsegment
    obtain ⟨flag', hflag'⟩ := ih (index + 1) (flag || bestEffort) hrest
      (fun t ht => hinside t (List.mem_cons_of_mem s ht))
      (fun hp t ht => hpolicy hp t (List.mem_cons_of_mem s ht))
    refine ⟨flag', ?_⟩
    simp only [preflightSegments, throw_bind, hend, okOr, bind_ok, hsegment]
    have hbound : ¬stop s > plan.logicalSize := Nat.not_lt.mpr (Nat.le_trans hstop hfinish)
    rw [if_neg (by omega), if_neg (by rw [hstart]; exact fun hne => hne rfl), if_neg hbound]
    exact hflag'

/-- The reason of a segment of zeros. -/
def ContentSegment.reason? : ContentSegment → Option ZeroFillReason
  | .read .. => none
  | .zero _ _ reason => some reason

/-- The zero ranges of segments in which no two neighbours are zeros of one reason: each is a
    range of its own, so only their number can be too large. -/
theorem plannedZeroRangesFrom_isOk {segments : List ContentSegment}
    {offset finish : Nat} (ranges : List ZeroFilledRange) (htiles : Tiles segments offset finish)
    (hchain : segments.IsChain fun s t => ∀ r, s.reason? = some r → t.reason? ≠ some r)
    (hlast : ∀ range ∈ ranges.getLast?, stop range ≤ offset ∧
      (stop range = offset → ∀ s ∈ segments.head?, s.reason? ≠ some range.reason))
    (hlength : ranges.length ≤ maxZeroFilledRanges) :
    (∃ planned, plannedZeroRangesFrom segments ranges = .ok planned) ↔
      ranges.length + segments.countP (·.reason?.isSome) ≤ maxZeroFilledRanges := by
  -- neighbours of one reason were joined by the planner, so every segment of zeros makes a range
  induction segments generalizing offset ranges with
  | nil =>
    simp only [plannedZeroRangesFrom, List.countP_nil, Nat.add_zero]
    exact ⟨fun _ => hlength, fun _ => ⟨ranges, rfl⟩⟩
  | cons s segments ih =>
    obtain ⟨hstart, hlen, hrest⟩ := htiles
    obtain ⟨hhead, hrestChain⟩ := List.isChain_cons.mp hchain
    cases s with
    | read o p n =>
      have hstop : stop (ContentSegment.read o p n) = offset + n := by
        rw [← hstart]
        rfl
      rw [plannedZeroRangesFrom, List.countP_cons_of_neg (by simp [ContentSegment.reason?])]
      refine ih ranges hrest hrestChain (fun range hrange => ?_) hlength
      obtain ⟨hle, _⟩ := hlast range hrange
      have hpos : 0 < n := hlen
      exact ⟨by omega, fun heq => by omega⟩
    | zero o n reason =>
      have hstart : o = offset := hstart
      -- the last range ends before this segment, or has another reason
      have happend : appendZeroRange ranges ⟨o, n, reason⟩ =
          if ranges.length ≥ maxZeroFilledRanges then
            .error (.zeroFillRangeLimitExceeded maxZeroFilledRanges)
          else .ok (ranges ++ [⟨o, n, reason⟩]) := by
        cases hlastRange : ranges.getLast? with
        | none => simp only [appendZeroRange, hlastRange]
        | some last =>
          obtain ⟨_, hapart⟩ := hlast last hlastRange
          have hjoin : ¬(last.logicalOffset + last.len = o ∧ last.reason = reason) := by
            rintro ⟨hstop, rfl⟩
            exact hapart (hstop.trans hstart) _ rfl rfl
          simp only [appendZeroRange, hlastRange, if_neg hjoin]
      rw [plannedZeroRangesFrom, happend,
        List.countP_cons_of_pos (by simp [ContentSegment.reason?])]
      split
      · constructor
        · rintro ⟨planned, h⟩
          cases h
        · intro hle
          omega
      · next hlt =>
        have hnext := ih (ranges ++ [⟨o, n, reason⟩]) hrest hrestChain ?_
          (by rw [List.length_append, List.length_singleton]; omega)
        · rw [List.length_append, List.length_singleton] at hnext
          rw [bind_ok, hnext]
          omega
        · intro range hrange
          obtain rfl : ⟨o, n, reason⟩ = range := by simpa using hrange
          exact ⟨Nat.le_refl _, fun _ s hs => hhead s hs reason rfl⟩

/-! ## Planned candidates -/

/-- What the extents say about byte `i` is what the segment does with it. -/
def ContentSegment.Renders (extents : List ExtentRun) (sourceLen : Nat) (s : ContentSegment)
    (i : Nat) : Prop :=
  match s with
  | .read logicalOffset physicalOffset _ =>
    ∃ availability, (availability = .freeInSnapshot ∨ availability = .resident) ∧
      Target extents i (.stored (physicalOffset + (i - logicalOffset)) availability) ∧
      physicalOffset + (i - logicalOffset) < sourceLen
  | .zero _ _ reason => Target extents i (.filled reason)

/-- What a plan for a candidate is, in terms of the candidate's extents. -/
structure PlanExact (candidate : Candidate) (sourceLen : Nat) (sha : Option Digest)
    (policy : PartialPolicy) (limits : PlanLimits) (plan : ContentPlan) : Prop where
  disjoint : candidate.extents.Pairwise Apart
  size_eq : plan.logicalSize = candidate.size
  tiles : Tiles plan.segments 0 candidate.size
  length_le : plan.segments.length ≤ limits.maxSegments
  renders : ∀ s ∈ plan.segments, ∀ i, Covers s i → s.Renders candidate.extents sourceLen i
  /-- A segment ends only where the next byte does not continue the last one. -/
  coalesced : ∀ before s t after, plan.segments = before ++ s :: t :: after →
    ∀ u v, Target candidate.extents (stop s - 1) u → Target candidate.extents (start t) v →
      ¬u.Continues v
  flag : plan.requiresBestEffort = true ↔ ∃ s ∈ plan.segments, s.Lossy
  complete : policy = .completeOnly → plan.requiresBestEffort = false
  perm : ∀ extents', extents'.Perm candidate.extents →
    planCandidate { candidate with extents := extents' } sourceLen sha policy limits =
      .ok (some plan)
  preflight : ∀ scratchLen, 0 < scratchLen → scratchLen ≤ maxStreamBufferBytes →
    preflight sourceLen plan scratchLen = .ok ()
  zeroRanges : (∃ ranges, plannedZeroRanges plan = .ok ranges) ↔
    plan.segments.countP (·.reason?.isSome) ≤ maxZeroFilledRanges

/-- Disjoint extents cover a byte once. -/
theorem eq_of_covers {i : Nat} (h : extents.Pairwise Apart) :
    ∀ e ∈ extents, ∀ e' ∈ extents, Covers e i → Covers e' i → e = e' := by
  intro e he e' he' hcovers hcovers'
  by_cases hne : e = e'
  · exact hne
  · have hsymm : Std.Symm (Apart (α := ExtentRun)) := ⟨fun x y hxy => hxy.symm⟩
    have hapart := h.forall he he' hne
    simp only [Covers, Apart] at hcovers hcovers' hapart
    omega

/-- A byte that a builder reads is stored in an extent that is free or resident. -/
theorem Target.stored_availability {i p : Nat} {availability : ExtentAvailability}
    (h : Target extents i (.stored p availability)) :
    availability = .freeInSnapshot ∨ availability = .resident := by
  rcases h with ⟨e, _, _, htarget⟩ | ⟨_, hmissing⟩
  · rw [extentTarget] at htarget
    split at htarget
    · next hmapped =>
      cases htarget
      exact hmapped.1
    · cases htarget
  · cases hmissing

theorem planExact_of_planCandidate {candidate : Candidate} {sourceLen : Nat} {sha : Option Digest}
    {policy : PartialPolicy} {limits : PlanLimits} {plan : ContentPlan}
    (hsize : candidate.size < 2 ^ 64) (hsource : sourceLen < 2 ^ 64)
    (h : planCandidate candidate sourceLen sha policy limits = .ok (some plan)) :
    PlanExact candidate sourceLen sha policy limits plan := by
  have hplanned := planCandidate_eq_ok.mp h
  obtain ⟨hdisjoint, b, hb, rfl⟩ := hplanned.built
  have hrendered := hb.rendered
  have hlimits := hplanned.limits_valid
  have hreads : ∀ s ∈ b.segments.map (·.segment), s.ReadsInside sourceLen := by
    intro s hs
    obtain ⟨built, hbuilt, rfl⟩ := List.mem_map.mp hs
    have hinside := hrendered.inside built hbuilt
    cases hsegment : built.segment with
    | read o p n =>
      rw [BuiltSegment.Inside, hsegment] at hinside
      exact hinside.1
    | zero o n reason => trivial
  have hlossy : (∃ s ∈ b.segments.map (·.segment), s.Lossy) ↔
    ∃ s ∈ b.segments, s.segment.Lossy := by
    simp only [List.mem_map, exists_exists_and_eq_and]
  have hcomplete : policy = .completeOnly → ∀ s ∈ b.segments.map (·.segment), ¬s.Lossy := by
    intro hp s hs
    obtain ⟨built, hbuilt, rfl⟩ := List.mem_map.mp hs
    exact hb.admitted hp built hbuilt
  refine ⟨hdisjoint, rfl, hrendered.tiles, by simpa using hb.length_le, ?_, ?_,
    hb.flag.trans hlossy.symm, ?_, ?_, ?_, ?_⟩
  · intro s hs i hi
    obtain ⟨built, hbuilt, rfl⟩ := List.mem_map.mp hs
    have htarget := hrendered.targets built hbuilt i hi
    have hinside := hreads built.segment hs
    rw [BuiltSegment.target] at htarget
    cases hsegment : built.segment with
    | read o p n =>
      rw [hsegment] at htarget hinside hi
      have hinside : p + n ≤ sourceLen := hinside
      have hhi : i < o + n := hi.2
      have hlo : o ≤ i := hi.1
      exact ⟨_, htarget.stored_availability, htarget, by omega⟩
    | zero o n reason =>
      rw [hsegment] at htarget
      exact htarget
  · intro before s t after hsplit u v hu hv hcontinues
    have hchain := hrendered.coalesced
    -- the built segments split in the same place
    obtain ⟨before', rest, hsplit', rfl, hrest⟩ := List.map_eq_append_iff.mp hsplit
    obtain ⟨s', rest', rfl, rfl, hrest'⟩ := List.map_eq_cons_iff.mp hrest
    obtain ⟨t', after', rfl, rfl, rfl⟩ := List.map_eq_cons_iff.mp hrest'
    rw [hsplit'] at hchain
    have hjoin := List.isChain_iff_forall_rel_of_append_cons_cons.mp hchain rfl
    have htiles := hrendered.tiles
    rw [hsplit', List.map_append] at htiles
    obtain ⟨_, _, _, hlen, _, hlenT, _⟩ := tiles_append.mp htiles
    have hlen : 0 < len s'.segment := hlen
    have hlenT : 0 < len t'.segment := hlenT
    have hmem : s' ∈ b.segments := by rw [hsplit']; simp
    have hmemT : t' ∈ b.segments := by rw [hsplit']; simp
    have htargetS := hrendered.targets s' hmem (stop s'.segment - 1)
      ⟨by simp only [stop]; omega, by simp only [stop]; omega⟩
    have htargetT := hrendered.targets t' hmemT (start t'.segment)
      ⟨Nat.le_refl _, by simp only [stop]; omega⟩
    rw [hu.unique (eq_of_covers hdisjoint) htargetS, hv.unique (eq_of_covers hdisjoint) htargetT]
      at hcontinues
    exact hjoin hcontinues
  · intro hp
    have hnone : ¬∃ s ∈ b.segments, s.segment.Lossy := by
      rintro ⟨s, hs, hs'⟩
      exact hb.admitted hp s hs hs'
    exact Bool.eq_false_iff.mpr fun hflag => hnone (hb.flag.mp hflag)
  · intro extents' hperm
    exact planCandidate_eq_ok.mpr (hplanned.perm hperm)
  · intro scratchLen hpos hle
    obtain ⟨flag, hflag⟩ := preflightSegments_accepts 0 false hsource
      (show (⟨candidate.id, candidate.size, b.segments.map (·.segment), sha,
        b.requiresBestEffort, policy⟩ : ContentPlan).logicalSize < 2 ^ 64 from hsize)
      hrendered.tiles (Nat.le_refl _) hreads hcomplete
    have hexpected := (preflightSegments_ok hflag (by decide)).2.2.1
    have hlength := hb.length_le
    have hflag_eq : flag = b.requiresBestEffort := by
      rw [Bool.eq_iff_iff, hexpected, hb.flag]
      simp
    simp only [Restore.preflight, throw_bind]
    rw [if_neg (by omega), if_neg (by rw [List.length_map]; omega), hflag, bind_ok]
    simp only [hflag_eq, ne_eq, not_true_eq_false, if_false]
    rfl
  · have hchain : (b.segments.map (·.segment)).IsChain
        fun s t => ∀ r, s.reason? = some r → t.reason? ≠ some r := by
      refine List.isChain_map_of_isChain _ ?_ hrendered.coalesced
      intro s t hnot r hs ht
      cases hsegment : s.segment with
      | read o p n => rw [hsegment] at hs; cases hs
      | zero o n reason =>
        rw [hsegment] at hs
        cases hs
        cases htsegment : t.segment with
        | read o' p' n' => rw [htsegment] at ht; cases ht
        | zero o' n' reason' =>
          rw [htsegment] at ht
          cases ht
          apply hnot
          rw [BuiltSegment.target, BuiltSegment.target, hsegment, htsegment]
          rfl
    have hcount := plannedZeroRangesFrom_isOk [] hrendered.tiles hchain
      (fun range hrange => (by cases hrange)) (Nat.zero_le _)
    rw [List.length_nil, Nat.zero_add] at hcount
    exact hcount

/-- An accepted plan gives every byte of the file its target. -/
theorem planCandidate_targets (candidate : Candidate) (sourceLen : Nat) (sha : Option Digest)
    (policy : PartialPolicy) (limits : PlanLimits) (plan : ContentPlan)
    (hsize : candidate.size < 2 ^ 64) (hsource : sourceLen < 2 ^ 64)
    (h : planCandidate candidate sourceLen sha policy limits = .ok (some plan)) :
    PlanExact candidate sourceLen sha policy limits plan :=
  planExact_of_planCandidate hsize hsource h

/-- Free clusters, a hole and a resident tail behind them. -/
def mixedCandidate : Candidate where
  id := 1
  kind := .file
  method := .ntfsMetadata
  state := .partialContent
  name := "mixed.bin"
  nameCertain := true
  parentPath := []
  metadataConfidence := .high
  size := 8
  timestamps := {}
  extents := [⟨6, some 14, 2, .resident⟩, ⟨0, some 10, 2, .freeInSnapshot⟩,
    ⟨2, some 12, 2, .freeInSnapshot⟩]
  recordRef := 30
  sequence := none
  warnings := []

theorem planCandidate_targets_mixed :
    PlanExact mixedCandidate 16 none .zeroFillAndMap {} ⟨1, 8,
      [.read 0 10 4, .zero 4 2 .missingExtent, .read 6 14 2], none, true, .zeroFillAndMap⟩ :=
  planCandidate_targets mixedCandidate 16 none .zeroFillAndMap {} _ (by decide) (by decide)
    (by decide)

/-- The second segment goes on where the first one ends, in the source or with zeros of the
    same reason. -/
def ContentSegment.Joins : ContentSegment → ContentSegment → Prop
  | .read _ p n, .read _ q _ => q = p + n
  | .zero _ _ r, .zero _ _ s => s = r
  | _, _ => False

/-- Two reads that touch in the source stay apart when one is free and one is resident. -/
theorem planCandidate_keeps_apart :
    ¬ ∀ (candidate : Candidate) (sourceLen : Nat) (sha : Option Digest) (policy : PartialPolicy)
        (limits : PlanLimits) (plan : ContentPlan), candidate.size < 2 ^ 64 → sourceLen < 2 ^ 64 →
      planCandidate candidate sourceLen sha policy limits = .ok (some plan) →
      ∀ before s t after, plan.segments = before ++ s :: t :: after → ¬s.Joins t := by
  intro h
  refine h { mixedCandidate with
      size := 4, extents := [⟨0, some 10, 2, .freeInSnapshot⟩, ⟨2, some 12, 2, .resident⟩] }
    16 none .zeroFillAndMap {} ⟨1, 4, [.read 0 10 2, .read 2 12 2], none, false, .zeroFillAndMap⟩
    (by decide) (by decide) (by decide) [] (.read 0 10 2) (.read 2 12 2) [] rfl ?_
  show 12 = 10 + 2
  rfl

end Undelete.Restore
