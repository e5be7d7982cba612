import Undelete.Native.Desktop.RestorePlan
import Undelete.Spec.CoverageCorrect
import Undelete.Spec.PlanOutcome

/-!
# Eligibility and planning

What the eligibility of a well-formed file candidate says about its recovery plan. A complete
candidate is planned without best effort as soon as its readable extents have a place in the
source; a best-effort candidate needs the zero-fill policy, and its plan reads the source
exactly when some readable extent has one. So the planning of a selection that the eligibility
check admits does not fail (`planSelection_admitted`).
-/

namespace Undelete.Desktop

open Except IntervalLike Restore

/-- Every extent that planning would read has a place in the source. -/
def Located (candidate : Candidate) : Prop :=
  ∀ e ∈ candidate.extents, e.availability = .freeInSnapshot ∨ e.availability = .resident →
    e.physicalOffset.isSome

theorem completeAvailability_iff {a : ExtentAvailability} :
    completeAvailability a = true ↔ a = .freeInSnapshot ∨ a = .resident ∨ a = .sparse := by
  cases a <;> simp [completeAvailability]

theorem degradedExtent_iff {e : ExtentRun}
    (hlocated : e.availability = .freeInSnapshot ∨ e.availability = .resident →
      e.physicalOffset.isSome) :
    DegradedExtent e ↔ completeAvailability e.availability = false := by
  rw [← Bool.not_eq_true, completeAvailability_iff, DegradedExtent, Mapped]
  tauto

/-- A well-formed file without bytes has no extents. -/
theorem extents_eq_nil {candidate : Candidate} {sourceLen : Nat}
    (h : WellFormed candidate sourceLen) (hsize : candidate.size = 0) : candidate.extents = [] := by
  apply List.eq_nil_iff_forall_not_mem.mpr
  intro e he
  have hinside := h.inside e he
  have hlen := h.nonempty e he
  omega

/-- An eligible file is complete exactly when it has no gap and every extent is intact. -/
theorem candidateEligibility_complete_iff {candidate : Candidate} {sourceLen : Nat}
    (h : WellFormed candidate sourceLen)
    (heligible : candidateEligibility candidate ≠ .ineligible) :
    candidateEligibility candidate = .complete ↔
      ¬Gap candidate.extents 0 candidate.size ∧
        ∀ e ∈ candidate.extents, completeAvailability e.availability = true := by
  have hmissing := hasMissingRanges_iff h.size_lt
  simp only [candidateEligibility, h.file, reduceCtorEq, false_or] at heligible ⊢
  by_cases hempty : candidate.size = 0
  · simp [hempty, extents_eq_nil h hempty]
  rw [if_neg hempty] at heligible ⊢
  split at heligible
  · exact absurd rfl heligible
  split at heligible
  · exact absurd rfl heligible
  next hstate hreadable =>
  rw [if_neg hstate, if_neg hreadable, ← hmissing]
  split
  · next hcomplete => simpa using hcomplete
  · next hcomplete => simpa using hcomplete

theorem degraded_iff {candidate : Candidate} {sourceLen : Nat} (h : WellFormed candidate sourceLen)
    (heligible : candidateEligibility candidate ≠ .ineligible) (hlocated : Located candidate) :
    Degraded candidate ↔ candidateEligibility candidate = .bestEffort := by
  have hcomplete := candidateEligibility_complete_iff h heligible
  have hdegraded : Degraded candidate ↔ candidateEligibility candidate ≠ .complete := by
    rw [Ne, hcomplete, not_and_or, not_not, Degraded]
    apply or_congr_right
    simp only [not_forall, Bool.not_eq_true, exists_prop]
    apply exists_congr
    intro e
    rw [and_congr_right_iff]
    intro he
    exact degradedExtent_iff (hlocated e he)
  rw [hdegraded]
  cases hclass : candidateEligibility candidate with
  | complete => simp
  | bestEffort => simp
  | ineligible => exact absurd hclass heligible

/-- A best-effort candidate has degraded content, wherever its extents lie. -/
theorem degraded_of_bestEffort {candidate : Candidate} {sourceLen : Nat}
    (h : WellFormed candidate sourceLen) (hclass : candidateEligibility candidate = .bestEffort) :
    Degraded candidate := by
  have hincomplete := (candidateEligibility_complete_iff h (by simp [hclass])).not.mp
    (by simp [hclass])
  rw [not_and_or, not_not, not_forall] at hincomplete
  rcases hincomplete with hgap | ⟨e, he⟩
  · exact .inl hgap
  · rw [Classical.not_imp, completeAvailability_iff] at he
    obtain ⟨he, hclass⟩ := he
    refine .inr ⟨e, he, ?_⟩
    rw [DegradedExtent, Mapped]
    tauto

theorem degraded_of_not_located {candidate : Candidate} (hlocated : ¬Located candidate) :
    Degraded candidate := by
  simp only [Located, not_forall] at hlocated
  obtain ⟨e, he, hreadable, hnowhere⟩ := hlocated
  refine .inr ⟨e, he, ?_, fun hmapped => hnowhere hmapped.2⟩
  rcases hreadable with h | h <;> simp [h]

/-! ## Planning one candidate -/

/-- Planning stopped at the segment limit. -/
def LimitReached (x : Except RestoreError (Option ContentPlan)) : Prop :=
  ∃ limit, x = .error (.segmentLimitExceeded limit)

def Succeeds (x : Except RestoreError (Option ContentPlan)) : Prop := ∃ plan, x = .ok (some plan)

/-- Planning refused content that is not available. -/
def Refused (x : Except RestoreError (Option ContentPlan)) : Prop :=
  ∃ logicalOffset len reason, x = .error (.unavailableContent logicalOffset len reason)

/-- Content that is not degraded is planned under every policy. -/
theorem planCandidate_intact {candidate : Candidate} {sourceLen : Nat} (sha : Option Digest)
    {policy : PartialPolicy} {limits : PlanLimits} (h : WellFormed candidate sourceLen)
    (hlimits : 0 < limits.maxSegments ∧ limits.maxSegments ≤ maxContentPlanSegments)
    (hadmitted : policy = .completeOnly → ¬Degraded candidate) :
    LimitReached (planCandidate candidate sourceLen sha policy limits) ∨
      Succeeds (planCandidate candidate sourceLen sha policy limits) := by
  have houtcome : PlanOutcome candidate policy
      (planCandidate candidate sourceLen sha policy limits) := planCandidate_outcome h hlimits
  generalize planCandidate candidate sourceLen sha policy limits = x at houtcome
  cases houtcome with
  | limit limit => exact .inl ⟨limit, rfl⟩
  | refused _ _ _ hpolicy hdegraded => exact absurd hdegraded (hadmitted hpolicy)
  | planned plan => exact .inr ⟨plan, rfl⟩

theorem planCandidate_degraded {candidate : Candidate} {sourceLen : Nat} (sha : Option Digest)
    {limits : PlanLimits} (h : WellFormed candidate sourceLen)
    (hlimits : 0 < limits.maxSegments ∧ limits.maxSegments ≤ maxContentPlanSegments)
    (hdegraded : Degraded candidate) :
    LimitReached (planCandidate candidate sourceLen sha .completeOnly limits) ∨
      Refused (planCandidate candidate sourceLen sha .completeOnly limits) := by
  have houtcome : PlanOutcome candidate .completeOnly
      (planCandidate candidate sourceLen sha .completeOnly limits) :=
      planCandidate_outcome h hlimits
  generalize planCandidate candidate sourceLen sha .completeOnly limits = x at houtcome
  cases houtcome with
  | limit limit => exact .inl ⟨limit, rfl⟩
  | refused logicalOffset len reason => exact .inr ⟨logicalOffset, len, reason, rfl⟩
  | planned plan hadmitted => exact absurd hdegraded (hadmitted rfl)

theorem planCandidate_zeroFill {candidate : Candidate} {sourceLen : Nat} {sha : Option Digest}
    {limits : PlanLimits} (h : WellFormed candidate sourceLen)
    (hlimits : 0 < limits.maxSegments ∧ limits.maxSegments ≤ maxContentPlanSegments)
    (hdegraded : Degraded candidate) :
    LimitReached (planCandidate candidate sourceLen sha .zeroFillAndMap limits) ∨
      ∃ plan, planCandidate candidate sourceLen sha .zeroFillAndMap limits = .ok (some plan) ∧
        plan.requiresBestEffort = true ∧
        (plan.HasRead ↔ ∃ e ∈ candidate.extents, Mapped e) := by
  have houtcome : PlanOutcome candidate .zeroFillAndMap
      (planCandidate candidate sourceLen sha .zeroFillAndMap limits) :=
      planCandidate_outcome h hlimits
  generalize planCandidate candidate sourceLen sha .zeroFillAndMap limits = x at houtcome
  cases houtcome with
  | limit limit => exact .inl ⟨limit, rfl⟩
  | refused _ _ _ hpolicy => cases hpolicy
  | planned plan _ hflag hread => exact .inr ⟨plan, rfl, hflag.mpr hdegraded, hread⟩

/-! ## Planning a selection -/

/-- The eligibility check lets the candidate pass under the policy, and its extents are what
    a scanner reports: well formed, and located where only complete content is accepted. -/
structure Admitted (sourceLen : Nat) (policy : PartialPolicy) (candidate : Candidate) : Prop where
  eligible : candidateEligibility candidate ≠ .ineligible
  consent : candidateEligibility candidate = .bestEffort → policy = .zeroFillAndMap
  wellFormed : candidate.kind = .file → WellFormed candidate sourceLen
  located : candidate.kind = .file → policy = .completeOnly → Located candidate

theorem Admitted.plans {sourceLen : Nat} {policy : PartialPolicy} {candidate : Candidate}
    (h : Admitted sourceLen policy candidate) (hfile : candidate.kind = .file)
    (sha : Option Digest) :
    LimitReached (planCandidate candidate sourceLen sha policy {}) ∨
      Succeeds (planCandidate candidate sourceLen sha policy {}) := by
  apply planCandidate_intact sha (h.wellFormed hfile) (by decide)
  intro hpolicy hdegraded
  have hclass := (degraded_iff (h.wellFormed hfile) h.eligible (h.located hfile hpolicy)).mp
    hdegraded
  rw [h.consent hclass] at hpolicy
  cases hpolicy

theorem sanitizeRestoreWarnings_bounds (trim : String → String) (warnings : List String) :
    (sanitizeRestoreWarnings trim warnings).length ≤ maxRestoreWarnings ∧
      ∀ w ∈ sanitizeRestoreWarnings trim warnings, w.length ≤ maxRestoreWarningScalars := by
  constructor
  · refine Nat.le_trans (List.length_filter_le _ _) ?_
    rw [List.length_map, List.length_take]
    exact Nat.min_le_left _ _
  · intro w hw
    obtain ⟨warning, _, rfl⟩ := List.mem_map.mp (List.mem_filter.mp hw).1
    rw [String.length_ofList, List.length_take]
    exact Nat.min_le_left _ _

/-- Sanitized warnings are never too many or too long for an item. -/
theorem withWarnings_sanitized (item : FileRestorePlan) (trim : String → String)
    (warnings : List String) :
    ∃ item', item.withWarnings (sanitizeRestoreWarnings trim warnings) = .ok item' := by
  obtain ⟨hcount, hlength⟩ := sanitizeRestoreWarnings_bounds trim warnings
  have hcount' : ¬(sanitizeRestoreWarnings trim warnings).length > 1024 := by
    simp only [maxRestoreWarnings] at hcount
    omega
  have hlength' : ¬(sanitizeRestoreWarnings trim warnings).any (·.length > 4096) = true := by
    rw [List.any_eq_true]
    rintro ⟨w, hw, hlong⟩
    have := hlength w hw
    simp only [maxRestoreWarningScalars, decide_eq_true_eq] at *
    omega
  exact ⟨_, if_neg (not_or.mpr ⟨hcount', hlength'⟩)⟩

/-- One round of the planning loop on an admitted candidate: only its path, a counter or the
    segment limit can stop it. -/
theorem planSelected_admitted {paths : PathEnv} {trim : String → String} {sourceLen : Nat}
    {policy : PartialPolicy} {plan : PlannedSelection} {selected : RestoreSelectedCandidate}
    {e : DesktopRestoreError} (h : Admitted sourceLen policy selected.candidate)
    (herror : planSelected paths trim sourceLen policy plan selected = .error e) :
    e = .unsafePath ∨ e = .internal ∨
      LimitReached
        (planCandidate selected.candidate sourceLen selected.expectedSha256 policy {}) := by
  rw [planSelected, bind_eq_error] at herror
  rcases herror with hadmit | ⟨bestEffort, _, herror⟩
  · -- the check itself: only its counter can overflow
    unfold admitSelected at hadmit
    split at hadmit
    · next hclass => exact absurd hclass h.eligible
    · next hclass =>
      rw [if_neg (not_not.mpr (h.consent hclass)), okOr_eq_error] at hadmit
      exact .inr (.inl hadmit.2.symm)
    · cases hadmit
  rw [bind_eq_error] at herror
  rcases herror with hpath | ⟨path, _, herror⟩
  · obtain ⟨_, _, rfl⟩ := mapError_eq_error.mp hpath
    exact .inl rfl
  rw [bind_eq_error] at herror
  rcases herror with hitem | ⟨⟨plan', item⟩, _, herror⟩
  · unfold planItem at hitem
    split at hitem
    · simp only [bind_eq_error, okOr_eq_error, pure_eq_error, and_false, exists_false,
        or_false] at hitem
      exact .inr (.inl hitem.2.symm)
    · next hkind =>
      have hfile : selected.candidate.kind = .file := by
        cases hk : selected.candidate.kind with
        | file => rfl
        | directory => exact absurd hk hkind
      rw [bind_eq_error, okOr_eq_error] at hitem
      rcases hitem with ⟨_, rfl⟩ | ⟨files, _, hitem⟩
      · exact .inr (.inl rfl)
      rw [bind_eq_error, okOr_eq_error] at hitem
      rcases hitem with ⟨_, rfl⟩ | ⟨logicalBytes, _, hitem⟩
      · exact .inr (.inl rfl)
      rcases h.plans hfile selected.expectedSha256 with hlimit | ⟨content, hcontent⟩
      · exact .inr (.inr hlimit)
      · rw [hcontent] at hitem
        cases hitem
  · obtain ⟨item', hitem'⟩ := withWarnings_sanitized item trim selected.warnings
    simp only [hitem'] at herror
    cases herror

/-- Planning an admitted selection. -/
theorem planSelection_admitted {paths : PathEnv} {trim : String → String} {sourceLen : Nat}
    {policy : PartialPolicy} {candidates : List RestoreSelectedCandidate} {e : DesktopRestoreError}
    (h : ∀ selected ∈ candidates, Admitted sourceLen policy selected.candidate)
    (herror : planSelection paths trim sourceLen policy candidates = .error e) :
    e = .unsafePath ∨ e = .internal ∨ ∃ selected ∈ candidates,
      LimitReached
        (planCandidate selected.candidate sourceLen selected.expectedSha256 policy {}) := by
  obtain ⟨before, selected, after, plan, rfl, _, hstep⟩ := foldlM_eq_error.mp herror
  have hmem : selected ∈ before ++ selected :: after := by simp
  rcases planSelected_admitted (h selected hmem) hstep with h | h | h
  · exact .inl h
  · exact .inr (.inl h)
  · exact .inr (.inr ⟨selected, hmem, h⟩)

/-! ## Eligibility as a promise -/

/-- What the eligibility of the well-formed file candidates of a source promises about their
    plans, and about planning whole selections of them. -/
theorem eligibility_planned (sourceLen : Nat) :
    (∀ (candidate : Candidate) (sha : Option Digest) (limits : PlanLimits),
      WellFormed candidate sourceLen →
      0 < limits.maxSegments ∧ limits.maxSegments ≤ maxContentPlanSegments →
      (candidateEligibility candidate = .complete →
        LimitReached (planCandidate candidate sourceLen sha .completeOnly limits) ∨
          (Located candidate ∧
            Succeeds (planCandidate candidate sourceLen sha .completeOnly limits)) ∨
          (¬Located candidate ∧
            Refused (planCandidate candidate sourceLen sha .completeOnly limits))) ∧
      (candidateEligibility candidate = .bestEffort →
        (LimitReached (planCandidate candidate sourceLen sha .completeOnly limits) ∨
          Refused (planCandidate candidate sourceLen sha .completeOnly limits)) ∧
        (LimitReached (planCandidate candidate sourceLen sha .zeroFillAndMap limits) ∨
          ∃ plan, planCandidate candidate sourceLen sha .zeroFillAndMap limits = .ok (some plan) ∧
            plan.requiresBestEffort = true ∧
            (plan.HasRead ↔ ∃ e ∈ candidate.extents, Mapped e)))) ∧
    ∀ (paths : PathEnv) (trim : String → String) (policy : PartialPolicy)
      (candidates : List RestoreSelectedCandidate) (e : DesktopRestoreError),
      (∀ selected ∈ candidates, Admitted sourceLen policy selected.candidate) →
      planSelection paths trim sourceLen policy candidates = .error e →
      e = .unsafePath ∨ e = .internal ∨ ∃ selected ∈ candidates,
        LimitReached
          (planCandidate selected.candidate sourceLen selected.expectedSha256 policy {}) := by
  refine ⟨fun candidate sha limits h hlimits => ⟨fun hclass => ?_, fun hclass => ?_⟩,
    fun paths trim policy candidates e h herror => planSelection_admitted h herror⟩
  · by_cases hlocated : Located candidate
    · have hintact : ¬Degraded candidate := by
        rw [degraded_iff h (by simp [hclass]) hlocated]
        simp [hclass]
      rcases planCandidate_intact sha h hlimits fun _ => hintact with hlimit | hplan
      · exact .inl hlimit
      · exact .inr (.inl ⟨hlocated, hplan⟩)
    · rcases planCandidate_degraded sha h hlimits (degraded_of_not_located hlocated) with
        hlimit | hrefused
      · exact .inl hlimit
      · exact .inr (.inr ⟨hlocated, hrefused⟩)
  · have hdegraded := degraded_of_bestEffort h hclass
    exact ⟨planCandidate_degraded sha h hlimits hdegraded,
      planCandidate_zeroFill h hlimits hdegraded⟩

/-- A file of 512 bytes with the given extents. -/
def smallFile (extents : List ExtentRun) : Candidate where
  id := 7
  kind := .file
  method := .ntfsMetadata
  state := .conflicted
  name := "report.txt"
  nameCertain := true
  parentPath := []
  metadataConfidence := .high
  size := 512
  timestamps := {}
  extents
  recordRef := 7
  sequence := none
  warnings := []

theorem smallFile_wellFormed {e : ExtentRun} {sourceLen : Nat} (hsource : sourceLen < 2 ^ 64)
    (hlen : 0 < e.len) (hinside : e.logicalOffset + e.len ≤ 512)
    (hmapped : ∀ p, e.physicalOffset = some p → p + e.len ≤ sourceLen) :
    WellFormed (smallFile [e]) sourceLen where
  file := rfl
  size_lt := show 512 < 2 ^ 64 by decide
  source_lt := hsource
  nonempty e' he' := by rw [List.mem_singleton.mp he']; exact hlen
  inside e' he' := by rw [List.mem_singleton.mp he']; exact hinside
  disjoint := List.pairwise_singleton _ _
  mapped e' he' := by rw [List.mem_singleton.mp he']; exact hmapped

/-- The first half of the file is free, the second half has no extent. -/
theorem eligibility_planned_half :
    (LimitReached (planCandidate (smallFile [⟨0, some 1024, 256, .freeInSnapshot⟩]) 4096 none
        .zeroFillAndMap {}) ∨
      ∃ plan, planCandidate (smallFile [⟨0, some 1024, 256, .freeInSnapshot⟩]) 4096 none
          .zeroFillAndMap {} = .ok (some plan) ∧ plan.requiresBestEffort = true ∧
        (plan.HasRead ↔
          ∃ e ∈ (smallFile [⟨0, some 1024, 256, .freeInSnapshot⟩]).extents, Mapped e)) :=
  (((eligibility_planned 4096).1 (smallFile [⟨0, some 1024, 256, .freeInSnapshot⟩]) none {}
    (smallFile_wellFormed (by decide) (by decide) (by decide) (by simp)) (by decide)).2
      (by decide +kernel)).2

/-- A best-effort file whose plan is nothing but zeros, and a complete file that cannot be
    planned. -/
theorem eligible_without_content :
    (WellFormed (smallFile [⟨0, some 1024, 512, .currentlyAllocated⟩]) 4096 ∧
      candidateEligibility (smallFile [⟨0, some 1024, 512, .currentlyAllocated⟩]) = .bestEffort ∧
      ∃ plan, planCandidate (smallFile [⟨0, some 1024, 512, .currentlyAllocated⟩]) 4096 none
          .zeroFillAndMap {} = .ok (some plan) ∧ ¬plan.HasRead) ∧
    WellFormed (smallFile [⟨0, none, 512, .freeInSnapshot⟩]) 4096 ∧
      candidateEligibility (smallFile [⟨0, none, 512, .freeInSnapshot⟩]) = .complete ∧
      Refused (planCandidate (smallFile [⟨0, none, 512, .freeInSnapshot⟩]) 4096 none
        .completeOnly {}) := by
  refine ⟨⟨?_, by decide +kernel, ⟨7, 512, [.zero 0 512 .currentlyAllocated], none, true,
    .zeroFillAndMap⟩, by decide +kernel, ?_⟩, ?_, by decide +kernel, 0, 512,
    .unknownAvailability, by decide +kernel⟩
  · exact smallFile_wellFormed (by decide) (by decide) (by decide) (by simp)
  · rintro ⟨s, hs, hread⟩
    rw [List.mem_singleton] at hs
    rw [hs] at hread
    exact hread
  · exact smallFile_wellFormed (by decide) (by decide) (by decide) (by simp)

end Undelete.Desktop
