import Undelete.Spec.CoverageCorrect
import Undelete.Spec.ScoreSweep

/-!
# The inputs of the score and its caps

The counters behind a score are defined by a sweep over segments. They count positions of the
file: a position counts as adverse for every adverse class over it, and as clean once, under the
first of the clean classes, when no adverse or unknown class lies over it.

## Key results

- `RecoverabilityInputs.fromCandidate_counts`: every counter counts positions.
- `RecoverabilityInputs.cap_le`: the cap is below every limit whose condition holds.
- `RecoverabilityInputs.score_fromCandidate`: what a candidate's evidence says of its score.
-/

namespace Undelete

open IntervalLike

/-- Some extent lies over position `i`. -/
def covered (candidate : Candidate) (i : Nat) : Bool :=
  candidate.extents.any fun extent =>
    extent.logicalOffset ≤ i ∧ i < extent.logicalOffset + extent.len

/-- The clean class of position `i`: the first one over it, unless other evidence speaks
    against the position. -/
def cleanEvidence (candidate : Candidate) (i : Nat) : Option ExtentAvailability :=
  if [.outOfVolume, .readFailed, .currentlyAllocated, .unknown].any (hasEvidence candidate i) then
    none
  else [.zeroed, .freeInSnapshot, .resident, .sparse].find? (hasEvidence candidate i)

theorem covered_of_hasEvidence {candidate : Candidate} {i : Nat} {availability : ExtentAvailability}
    (h : hasEvidence candidate i availability = true) : covered candidate i = true := by
  rw [hasEvidence, List.any_eq_true] at h
  rw [covered, List.any_eq_true]
  obtain ⟨extent, hextent, hover⟩ := h
  rw [decide_eq_true_eq] at hover
  exact ⟨extent, hextent, decide_eq_true hover.2⟩

theorem cleanClass_hasEvidence (candidate : Candidate) (i : Nat) :
    cleanClass (hasEvidence candidate i) = cleanEvidence candidate i := by
  unfold cleanClass cleanEvidence isAdverse
  simp only [List.any_cons, List.any_nil, Bool.or_false, Bool.or_assoc]
  split
  · rfl
  · cases hzeroed : hasEvidence candidate i .zeroed <;>
      cases hfree : hasEvidence candidate i .freeInSnapshot <;>
      cases hresident : hasEvidence candidate i .resident <;>
      cases hsparse : hasEvidence candidate i .sparse <;>
      simp [hzeroed, hfree, hresident, hsparse]

theorem bytesWhere_le (candidate : Candidate) (p : Nat → Bool) :
    bytesWhere candidate p ≤ candidate.size := by
  have hle : (List.range candidate.size).countP p ≤ (List.range candidate.size).length :=
    List.countP_le_length
  rwa [List.length_range] at hle

theorem bytesWhere_pos {candidate : Candidate} {p : Nat → Bool} {i : Nat}
    (hi : i < candidate.size) (hp : p i = true) : 0 < bytesWhere candidate p :=
  List.countP_pos_iff.mpr ⟨i, List.mem_range.mpr hi, hp⟩

/-! ## Counting bytes -/

/-- The bytes a counter takes from the segments. -/
theorem foldl_addBytes {p : (ExtentAvailability → Bool) → Bool} {segments : List LogicalSegment}
    {bytes : Nat} (h : bytes + weight p segments < 2 ^ 64) :
    segments.foldl (fun bytes segment =>
        addBytes (p segment.active) (segment.stop - segment.start) bytes) bytes =
      bytes + weight p segments := by
  induction segments generalizing bytes with
  | nil => rfl
  | cons segment segments ih =>
    rw [weight_cons] at h ⊢
    have hone : addBytes (p segment.active) (segment.stop - segment.start) bytes =
        bytes + if p segment.active then segment.stop - segment.start else 0 := by
      unfold addBytes
      split
      · next hp =>
        rw [if_pos hp] at h
        exact U64.saturatingAdd_of_lt (by omega)
      · rfl
    rw [List.foldl_cons, hone, ih (by omega), Nat.add_assoc]

namespace RecoverabilityInputs

section Counters

variable (order : EventSort) {candidate : Candidate}

/-- A counter of the loop counts positions. -/
theorem counter_eq (counter : RecoverabilityInputs → Nat) {p : (ExtentAvailability → Bool) → Bool}
    (hnone : p (fun _ => false) = false) (hstart : counter { totalLen := candidate.size } = 0)
    (hstep : ∀ inp segment, addBytes (p segment.active) (segment.stop - segment.start)
      (counter inp) = counter (inp.addSegment segment))
    (hsize : candidate.size < 2 ^ 64) (hfew : 2 * candidate.extents.length < 2 ^ 64) :
    counter ((classifiedLogicalSegments order candidate).foldl addSegment
      { totalLen := candidate.size }) =
      bytesWhere candidate fun i => p (hasEvidence candidate i) := by
  have hweight := weight_classifiedLogicalSegments order hnone hsize hfew
  have hle := bytesWhere_le candidate fun i => p (hasEvidence candidate i)
  have hfold := @List.foldl_hom _ _ _ counter addSegment
    (fun bytes segment => addBytes (p segment.active) (segment.stop - segment.start) bytes)
    (classifiedLogicalSegments order candidate) { totalLen := candidate.size } hstep
  rw [← hfold, hstart, foldl_addBytes (by omega), hweight, Nat.zero_add]

/-- The bytes the extents cover are the covered positions. -/
theorem foldl_covered (hsize : candidate.size < 2 ^ 64) :
    (normalizedLogicalIntervals candidate.extents candidate.size).foldl
        (fun total interval => U64.saturatingAdd total (interval.2 - interval.1)) 0 =
      bytesWhere candidate (covered candidate) := by
  obtain ⟨hascending, hcovered⟩ := normalizedLogicalIntervals_ok candidate.extents hsize
  have hle := hascending.total_le
  rw [foldl_saturatingAdd (by omega), Nat.zero_add, hascending.total_eq_countP, Nat.sub_zero,
    ← List.range_eq_range', bytesWhere]
  intro i _ hi
  rw [hcovered i hi, covered, List.any_eq_true]
  apply exists_congr
  intro extent
  rw [decide_eq_true_eq]
  rfl

/-- Uncovered positions and positions outside the volume are different ones. -/
theorem countP_missing (xs : List Nat) :
    xs.countP (fun i => hasEvidence candidate i .outOfVolume || !covered candidate i) =
      xs.countP (fun i => hasEvidence candidate i .outOfVolume) +
        (xs.length - xs.countP (covered candidate)) := by
  induction xs with
  | nil => rfl
  | cons i xs ih =>
    have hle : xs.countP (covered candidate) ≤ xs.length := List.countP_le_length
    have himp := @covered_of_hasEvidence candidate i .outOfVolume
    rw [List.countP_cons, List.countP_cons, List.countP_cons, List.length_cons, ih]
    cases hout : hasEvidence candidate i .outOfVolume <;> cases hcov : covered candidate i
    · simp
      omega
    · simp
    · rw [himp hout] at hcov
      exact absurd hcov Bool.noConfusion
    · simp
      omega

/-- A counter that the rest of `from_candidate` leaves as the loop made it. -/
theorem fromCandidate_counter (counter : RecoverabilityInputs → Nat)
    {p : (ExtentAvailability → Bool) → Bool} (hnone : p (fun _ => false) = false)
    (hstart : counter { totalLen := candidate.size } = 0)
    (hstep : ∀ inp segment, addBytes (p segment.active) (segment.stop - segment.start)
      (counter inp) = counter (inp.addSegment segment))
    (hframe : ∀ inp missing inferred, counter { inp with
      missingBytes := missing, chainInferred := inferred } = counter inp)
    (hsize : candidate.size < 2 ^ 64) (hfew : 2 * candidate.extents.length < 2 ^ 64) :
    counter (fromCandidate order candidate) =
      bytesWhere candidate fun i => p (hasEvidence candidate i) := by
  rw [fromCandidate, hframe]
  exact counter_eq order counter hnone hstart hstep hsize hfew

theorem missingBytes_fromCandidate (hsize : candidate.size < 2 ^ 64)
    (hfew : 2 * candidate.extents.length < 2 ^ 64) :
    (fromCandidate order candidate).missingBytes = bytesWhere candidate fun i =>
      hasEvidence candidate i .outOfVolume || !covered candidate i := by
  have hloop := counter_eq order missingBytes (p := fun has => has .outOfVolume) rfl rfl
    (fun _ _ => rfl) hsize hfew
  have hboth := @countP_missing candidate (List.range candidate.size)
  have hle := bytesWhere_le candidate fun i =>
    hasEvidence candidate i .outOfVolume || !covered candidate i
  have hcov := bytesWhere_le candidate (covered candidate)
  rw [List.length_range] at hboth
  simp only [bytesWhere] at hloop hle hcov ⊢
  rw [fromCandidate]
  simp only [foldl_covered hsize, hloop, bytesWhere, addBytes, decide_eq_true_eq]
  split
  · rw [U64.saturatingAdd_of_lt (by omega), hboth]
  · omega

theorem readErrorBytes_fromCandidate (hsize : candidate.size < 2 ^ 64)
    (hfew : 2 * candidate.extents.length < 2 ^ 64) :
    (fromCandidate order candidate).readErrorBytes =
      bytesWhere candidate fun i => hasEvidence candidate i .readFailed :=
  fromCandidate_counter order readErrorBytes (p := fun has => has .readFailed) rfl rfl
    (fun _ _ => rfl) (fun _ _ _ => rfl) hsize hfew

theorem allocatedConflictBytes_fromCandidate (hsize : candidate.size < 2 ^ 64)
    (hfew : 2 * candidate.extents.length < 2 ^ 64) :
    (fromCandidate order candidate).allocatedConflictBytes =
      bytesWhere candidate fun i => hasEvidence candidate i .currentlyAllocated :=
  fromCandidate_counter order allocatedConflictBytes (p := fun has => has .currentlyAllocated) rfl
    rfl (fun _ _ => rfl) (fun _ _ _ => rfl) hsize hfew

theorem zeroedRiskBytes_fromCandidate (hsize : candidate.size < 2 ^ 64)
    (hfew : 2 * candidate.extents.length < 2 ^ 64) :
    (fromCandidate order candidate).zeroedRiskBytes =
      bytesWhere candidate fun i => hasEvidence candidate i .zeroed :=
  fromCandidate_counter order zeroedRiskBytes (p := fun has => has .zeroed) rfl rfl
    (fun _ _ => rfl) (fun _ _ _ => rfl) hsize hfew

theorem totalLen_foldl (segments : List LogicalSegment) (inp : RecoverabilityInputs) :
    (segments.foldl addSegment inp).totalLen = inp.totalLen := by
  induction segments generalizing inp with
  | nil => rfl
  | cons segment segments ih => exact ih (inp.addSegment segment)

theorem totalLen_fromCandidate (candidate : Candidate) :
    (fromCandidate order candidate).totalLen = candidate.size := totalLen_foldl _ _

theorem clean_fromCandidate (counter : RecoverabilityInputs → Nat)
    (availability : ExtentAvailability)
    (hstart : counter { totalLen := candidate.size } = 0)
    (hstep : ∀ inp segment, addBytes (cleanClass segment.active = some availability)
      (segment.stop - segment.start) (counter inp) = counter (inp.addSegment segment))
    (hframe : ∀ inp missing inferred, counter { inp with
      missingBytes := missing, chainInferred := inferred } = counter inp)
    (hsize : candidate.size < 2 ^ 64) (hfew : 2 * candidate.extents.length < 2 ^ 64) :
    counter (fromCandidate order candidate) =
      bytesWhere candidate fun i => cleanEvidence candidate i = some availability := by
  rw [fromCandidate_counter order counter (p := fun has => cleanClass has = some availability) rfl
    hstart hstep hframe hsize hfew]
  simp only [cleanClass_hasEvidence]

/-- Every counter counts positions of the file. The bound on the extents is the one of a vector
    in memory. -/
theorem fromCandidate_counts (candidate : Candidate) (hsize : candidate.size < 2 ^ 64)
    (hfew : candidate.extents.length < 2 ^ 63) :
    (fromCandidate order candidate).totalLen = candidate.size ∧
      (fromCandidate order candidate).missingBytes = bytesWhere candidate (fun i =>
        hasEvidence candidate i .outOfVolume || !covered candidate i) ∧
      (fromCandidate order candidate).readErrorBytes =
        bytesWhere candidate (fun i => hasEvidence candidate i .readFailed) ∧
      (fromCandidate order candidate).allocatedConflictBytes =
        bytesWhere candidate (fun i => hasEvidence candidate i .currentlyAllocated) ∧
      (fromCandidate order candidate).zeroedRiskBytes =
        bytesWhere candidate (fun i => hasEvidence candidate i .zeroed) ∧
      (fromCandidate order candidate).zeroedBytes =
        bytesWhere candidate (fun i => cleanEvidence candidate i = some .zeroed) ∧
      (fromCandidate order candidate).freeBytes =
        bytesWhere candidate (fun i => cleanEvidence candidate i = some .freeInSnapshot) ∧
      (fromCandidate order candidate).residentBytes =
        bytesWhere candidate (fun i => cleanEvidence candidate i = some .resident) ∧
      (fromCandidate order candidate).sparseBytes =
        bytesWhere candidate (fun i => cleanEvidence candidate i = some .sparse) := by
  have hfew : 2 * candidate.extents.length < 2 ^ 64 := by omega
  refine ⟨totalLen_fromCandidate order candidate, missingBytes_fromCandidate order hsize hfew,
    ?_, ?_, ?_, ?_, ?_, ?_, ?_⟩
  · exact readErrorBytes_fromCandidate order hsize hfew
  · exact allocatedConflictBytes_fromCandidate order hsize hfew
  · exact zeroedRiskBytes_fromCandidate order hsize hfew
  · exact clean_fromCandidate order zeroedBytes .zeroed rfl (fun _ _ => rfl) (fun _ _ _ => rfl)
      hsize hfew
  · exact clean_fromCandidate order freeBytes .freeInSnapshot rfl (fun _ _ => rfl)
      (fun _ _ _ => rfl) hsize hfew
  · exact clean_fromCandidate order residentBytes .resident rfl (fun _ _ => rfl)
      (fun _ _ _ => rfl) hsize hfew
  · exact clean_fromCandidate order sparseBytes .sparse rfl (fun _ _ => rfl) (fun _ _ _ => rfl)
      hsize hfew

end Counters

/-- Four extents over six bytes: clean and zeroed evidence, a conflict over their overlap, and
    an end behind the largest word. -/
def overlappingCandidate : Candidate where
  id := 1
  kind := .file
  method := .ntfsMetadata
  state := .conflicted
  name := "overlap.bin"
  nameCertain := true
  parentPath := []
  metadataConfidence := .high
  size := 6
  timestamps := {}
  extents := [⟨3, some 8192, 2 ^ 64 - 1, .zeroed⟩, ⟨0, some 4096, 4, .freeInSnapshot⟩,
    ⟨3, some 8192, 1, .currentlyAllocated⟩, ⟨5, none, 1, .outOfVolume⟩]
  recordRef := 1
  sequence := some 1
  warnings := []

theorem fromCandidate_counts_overlapping :
    (fromCandidate .insertion overlappingCandidate).freeBytes = 3 ∧
      (fromCandidate .insertion overlappingCandidate).zeroedBytes = 1 ∧
      (fromCandidate .insertion overlappingCandidate).zeroedRiskBytes = 3 := by
  obtain ⟨_, _, _, _, hrisk, hzeroed, hfree, _, _⟩ :=
    fromCandidate_counts .insertion overlappingCandidate (by decide) (by decide)
  rw [hrisk, hzeroed, hfree]
  decide

/-! ## The caps -/

section Caps

variable {inp : RecoverabilityInputs}

theorem score_le_cap (hlen : 0 < inp.totalLen) : inp.score ≤ min inp.cap 99 := by
  unfold score
  rw [if_neg (by omega)]
  show (if _ then 0 else _) ≤ _
  split
  · exact Nat.zero_le _
  · exact Nat.min_le_right _ _

/-- The cap is below every limit whose condition holds. -/
theorem cap_le (inp : RecoverabilityInputs) :
    inp.cap ≤ 99 ∧ (inp.validated = false → inp.cap ≤ 84) ∧
      (inp.chainInferred = true → inp.cap ≤ 74) ∧
      (0 < inp.missingBytes ∨ 0 < inp.readErrorBytes → inp.cap ≤ 69) ∧
      (0 < inp.allocatedConflictBytes → inp.cap ≤ 49) ∧
      (inp.totalLen / 2 < inp.zeroedRiskBytes → inp.cap ≤ 10) := by
  unfold cap
  grind

end Caps

/-- The inputs of a candidate's score: what the extents say, and what a validator said. -/
def scored (order : EventSort) (candidate : Candidate) (validated validatorAvailable : Bool) :
    RecoverabilityInputs :=
  { fromCandidate order candidate with
    validated := validated
    validatorAvailable := validatorAvailable }

section Scored

variable (order : EventSort)

/-- A missing or unreadable byte caps the score. -/
theorem score_le_unreadable {candidate : Candidate} (validated validatorAvailable : Bool)
    (hsize : candidate.size < 2 ^ 64) (hfew : 2 * candidate.extents.length < 2 ^ 64) {i : Nat}
    (hi : i < candidate.size) (h : covered candidate i = false ∨
      hasEvidence candidate i .outOfVolume = true ∨ hasEvidence candidate i .readFailed = true) :
    (scored order candidate validated validatorAvailable).score ≤ 69 := by
  have hlen : 0 < (scored order candidate validated validatorAvailable).totalLen := by
    have htotal := totalLen_fromCandidate order candidate
    show 0 < (fromCandidate order candidate).totalLen
    omega
  have hscore := score_le_cap hlen
  obtain ⟨_, _, _, hcap, _, _⟩ := cap_le (scored order candidate validated validatorAvailable)
  have hbytes : 0 < (fromCandidate order candidate).missingBytes ∨
      0 < (fromCandidate order candidate).readErrorBytes := by
    rw [missingBytes_fromCandidate order hsize hfew, readErrorBytes_fromCandidate order hsize hfew]
    obtain hcov | hout | hfailed := h
    · exact .inl (bytesWhere_pos hi (by rw [hcov, Bool.not_false, Bool.or_true]))
    · exact .inl (bytesWhere_pos hi (by rw [hout, Bool.true_or]))
    · exact .inr (bytesWhere_pos hi hfailed)
  have := hcap hbytes
  omega

/-- A byte that other data occupies caps the score. -/
theorem score_le_conflict {candidate : Candidate} (validated validatorAvailable : Bool)
    (hsize : candidate.size < 2 ^ 64) (hfew : 2 * candidate.extents.length < 2 ^ 64) {i : Nat}
    (hi : i < candidate.size) (h : hasEvidence candidate i .currentlyAllocated = true) :
    (scored order candidate validated validatorAvailable).score ≤ 49 := by
  have hlen : 0 < (scored order candidate validated validatorAvailable).totalLen := by
    have htotal := totalLen_fromCandidate order candidate
    show 0 < (fromCandidate order candidate).totalLen
    omega
  have hscore := score_le_cap hlen
  obtain ⟨_, _, _, _, hcap, _⟩ := cap_le (scored order candidate validated validatorAvailable)
  have hbytes : 0 < (fromCandidate order candidate).allocatedConflictBytes := by
    rw [allocatedConflictBytes_fromCandidate order hsize hfew]
    exact bytesWhere_pos hi h
  have := hcap hbytes
  omega

/-- What a candidate's evidence says of its score. An empty file has nothing to lose, so no cap
    is asked of it. -/
theorem score_fromCandidate (candidate : Candidate) (validated validatorAvailable : Bool)
    (hsize : candidate.size < 2 ^ 64) (hfew : candidate.extents.length < 2 ^ 63) :
    (candidate.size = 0 → (scored order candidate validated validatorAvailable).score = 99) ∧
      (0 < candidate.size →
        ((scored order candidate validated validatorAvailable).score ≤ 99 ∧
          (validated = false →
            (scored order candidate validated validatorAvailable).score ≤ 84) ∧
          ((∃ w ∈ candidate.warnings,
              "inferred".toList <:+: w.toList ∨ "assumed".toList <:+: w.toList) →
            (scored order candidate validated validatorAvailable).score ≤ 74) ∧
          ((∃ i < candidate.size, covered candidate i = false ∨
              hasEvidence candidate i .outOfVolume = true ∨
              hasEvidence candidate i .readFailed = true) →
            (scored order candidate validated validatorAvailable).score ≤ 69) ∧
          ((∃ i < candidate.size, hasEvidence candidate i .currentlyAllocated = true) →
            (scored order candidate validated validatorAvailable).score ≤ 49) ∧
          (candidate.size < 2 * bytesWhere candidate (fun i => hasEvidence candidate i .zeroed) →
            (scored order candidate validated validatorAvailable).score ≤ 10)) ∧
        (85 ≤ (scored order candidate validated validatorAvailable).score →
          validated = true ∧ ∀ i < candidate.size, covered candidate i = true ∧
            hasEvidence candidate i .outOfVolume = false ∧
            hasEvidence candidate i .readFailed = false ∧
            hasEvidence candidate i .currentlyAllocated = false)) := by
  have hfew : 2 * candidate.extents.length < 2 ^ 64 := by omega
  have htotal : (scored order candidate validated validatorAvailable).totalLen = candidate.size :=
    totalLen_fromCandidate order candidate
  have hunreadable := fun i hi => @score_le_unreadable order candidate validated validatorAvailable
    hsize hfew i hi
  have hconflict := fun i hi => @score_le_conflict order candidate validated validatorAvailable
    hsize hfew i hi
  constructor
  · intro hzero
    unfold score
    rw [htotal, if_pos hzero]
  · intro hpos
    have hscore := score_le_cap (htotal ▸ hpos)
    obtain ⟨_, hunvalidated, hinferred, _, _, hzeroed⟩ :=
      cap_le (scored order candidate validated validatorAvailable)
    have hvalidated : validated = false →
        (scored order candidate validated validatorAvailable).score ≤ 84 := by
      intro h
      have := hunvalidated h
      omega
    refine ⟨⟨by omega, hvalidated, ?_, ?_, ?_, ?_⟩, fun hexcellent => ⟨?_, fun i hi => ?_⟩⟩
    · intro ⟨w, hw, hcontains⟩
      have hchain : (fromCandidate order candidate).chainInferred = true := by
        refine List.any_eq_true.mpr ⟨w, hw, ?_⟩
        rwa [Bool.or_eq_true, decide_eq_true_eq, decide_eq_true_eq]
      have := hinferred hchain
      omega
    · intro ⟨i, hi, h⟩
      exact hunreadable i hi h
    · intro ⟨i, hi, h⟩
      exact hconflict i hi h
    · intro hmajority
      have hrisk := zeroedRiskBytes_fromCandidate order hsize hfew
      have := hzeroed (by
        rw [htotal]
        show _ < (fromCandidate order candidate).zeroedRiskBytes
        omega)
      omega
    · rw [← Bool.not_eq_false]
      intro h
      have := hvalidated h
      omega
    · have hclean := fun h => Nat.not_le.mpr (Nat.lt_of_lt_of_le (by decide : 69 < 85) hexcellent)
        (hunreadable i hi h)
      have hfree := fun h => Nat.not_le.mpr (Nat.lt_of_lt_of_le (by decide : 49 < 85) hexcellent)
        (hconflict i hi h)
      refine ⟨?_, ?_, ?_, ?_⟩
      · exact Bool.not_eq_false _ ▸ fun h => hclean (.inl h)
      · exact Bool.not_eq_true _ ▸ fun h => hclean (.inr (.inl h))
      · exact Bool.not_eq_true _ ▸ fun h => hclean (.inr (.inr h))
      · exact Bool.not_eq_true _ ▸ fun h => hfree h

end Scored

/-- A file with an assumed layout, of which most bytes are zeroed and the last one is missing. -/
def wornCandidate : Candidate :=
  { overlappingCandidate with
    extents := [⟨0, some 4096, 4, .zeroed⟩, ⟨4, some 8192, 1, .freeInSnapshot⟩]
    warnings := ["cluster chain cleared on delete; contiguous layout assumed"] }

/-- A file all of whose bytes are on free clusters. -/
def freeCandidate : Candidate :=
  { overlappingCandidate with extents := [⟨0, some 4096, 6, .freeInSnapshot⟩] }

/-- The cap of a conflict, those of a worn file, and what the best score implies. -/
theorem score_fromCandidate_overlapping :
    (scored .insertion overlappingCandidate true true).score ≤ 49 ∧
    ((scored .insertion wornCandidate false true).score ≤ 84 ∧
      (scored .insertion wornCandidate false true).score ≤ 74 ∧
      (scored .insertion wornCandidate false true).score ≤ 69 ∧
      (scored .insertion wornCandidate false true).score ≤ 10) ∧
    ∀ i < freeCandidate.size, covered freeCandidate i = true ∧
      hasEvidence freeCandidate i .readFailed = false := by
  refine ⟨?_, ?_, ?_⟩
  · obtain ⟨⟨_, _, _, _, hconflict, _⟩, _⟩ :=
      (score_fromCandidate .insertion overlappingCandidate true true (by decide) (by decide)).2
        (by decide)
    exact hconflict ⟨3, by decide, by decide⟩
  · obtain ⟨⟨_, hunvalidated, hinferred, hmissing, _, hzeroed⟩, _⟩ :=
      (score_fromCandidate .insertion wornCandidate false true (by decide) (by decide)).2
        (by decide)
    refine ⟨hunvalidated rfl, hinferred ⟨_, List.mem_singleton_self _, .inr ?_⟩,
      hmissing ⟨5, by decide, .inl (by decide)⟩, hzeroed (by decide)⟩
    exact ⟨"cluster chain cleared on delete; contiguous layout ".toList, [], by decide⟩
  · obtain ⟨_, hbest⟩ :=
      (score_fromCandidate .insertion freeCandidate true true (by decide) (by decide)).2
        (by decide)
    intro i hi
    obtain ⟨hcovered, _, hread, _⟩ := (hbest (by decide)).2 i hi
    exact ⟨hcovered, hread⟩

/-- A validated file whose second byte is only covered by unknown evidence. -/
def partlyKnownCandidate : Candidate :=
  { overlappingCandidate with
    size := 2
    extents := [⟨0, some 4096, 1, .freeInSnapshot⟩, ⟨1, some 4097, 1, .unknown⟩] }

/-- No cap is attached to unknown evidence, and none to an empty file. -/
theorem score_partlyKnown :
    (85 ≤ (scored .insertion partlyKnownCandidate true true).score ∧
      1 < partlyKnownCandidate.size ∧
      allAvailabilities.filter (hasEvidence partlyKnownCandidate 1) = [.unknown]) ∧
    84 < (scored .insertion { overlappingCandidate with size := 0 } false false).score := by
  decide

end RecoverabilityInputs

end Undelete
