import Undelete.ForStd.Except
import Undelete.Native.Deep

/-!
# Merging what was carved

A carved range that exactly one metadata candidate stores stands for that candidate; every
other carved range gets one candidate of its own, however often it was carved. The evidence
refers to the candidate of its range.

## Key results

- `exactPhysicalRange_eq_some`: the ranges that candidates stand for.
- `foldlM_indexCandidate`: what is collected of the metadata.
- `Resolves.mergeItem`, `Evidences.mergeItem`: one round of the merge.
- `mergeCarvedEvidence_spec`: the merged list and its evidence.
-/

namespace Undelete.Deep

open Except Carve

/-! ## Physical ranges -/

/-- The extents lie behind one another, from a logical and a physical position on. -/
def Contiguous : List ExtentRun → Nat → Nat → Prop
  | [], _, _ => True
  | extent :: extents, logical, physical => 0 < extent.len ∧ extent.logicalOffset = logical ∧
      extent.physicalOffset = some physical ∧
        Contiguous extents (logical + extent.len) (physical + extent.len)

section Range

variable {size logical start physical : Nat} {extents : List ExtentRun} {range : Nat × Nat}

/-- One round of the loop, behind the first extent. -/
theorem physicalRangeFrom_cons (extent : ExtentRun) (hsize : size < 2 ^ 64) :
    physicalRangeFrom size (extent :: extents) logical (some start) physical =
      if 0 < extent.len ∧ extent.logicalOffset = logical ∧ extent.physicalOffset = some physical ∧
          logical + extent.len ≤ size ∧ physical + extent.len < 2 ^ 64 then
        physicalRangeFrom size extents (logical + extent.len) (some start) (physical + extent.len)
      else none := by
  rw [physicalRangeFrom]
  -- the checks of the loop, in the order of the source
  by_cases hfirst : extent.len = 0 ∨ extent.logicalOffset ≠ logical
  · rw [if_pos hfirst, if_neg fun h => hfirst.elim (Nat.ne_of_gt h.1) fun hne => hne h.2.1]
    rfl
  · obtain ⟨hlen, hlogical⟩ := not_or.mp hfirst
    rw [if_neg hfirst]
    cases hoffset : extent.physicalOffset with
    | none => exact (if_neg fun h => Option.some_ne_none _ h.2.2.1.symm).symm
    | some extentPhysical =>
      by_cases hphysical : extentPhysical = physical
      · subst hphysical
        by_cases hfits : logical + extent.len ≤ size ∧ extentPhysical + extent.len < 2 ^ 64
        · rw [if_pos (c := _ ∧ _) ⟨Nat.pos_of_ne_zero hlen, Decidable.not_not.mp hlogical,
            rfl, hfits⟩]
          simp only [Option.bind_eq_bind, Option.bind_some, ne_eq, not_true_eq_false, if_false,
            U64.checkedAdd_of_lt (Nat.lt_of_le_of_lt hfits.1 hsize), U64.checkedAdd_of_lt hfits.2,
            Nat.not_lt_of_le hfits.1]
        · rw [if_neg (c := _ ∧ _) fun h => hfits h.2.2.2]
          simp only [Option.bind_eq_bind, Option.bind_some, ne_eq, not_true_eq_false, if_false]
          cases hlong : U64.checkedAdd logical extent.len with
          | none => rfl
          | some next =>
            obtain ⟨-, rfl⟩ := U64.checkedAdd_eq_some.mp hlong
            cases hplace : U64.checkedAdd extentPhysical extent.len with
            | none => rfl
            | some place =>
              obtain ⟨hplace, -⟩ := U64.checkedAdd_eq_some.mp hplace
              rw [Option.bind_some, Option.bind_some,
                if_pos (Nat.lt_of_not_le fun hle => hfits ⟨hle, hplace⟩)]
              rfl
      · rw [if_neg (c := _ ∧ _) fun h => hphysical (Option.some.inj h.2.2.1)]
        simp only [Option.bind_eq_bind, Option.bind_some, ne_eq, hphysical, not_false_eq_true,
          if_true]
        rfl

theorem physicalRangeFrom_eq_some (hsize : size < 2 ^ 64) (hlogical : logical ≤ size) :
    physicalRangeFrom size extents logical (some start) physical = some range ↔
      Contiguous extents logical physical ∧ logical + (extents.map (·.len)).sum = size ∧
        (extents = [] ∨ physical + (extents.map (·.len)).sum < 2 ^ 64) ∧ range = (start, size) := by
  -- the sums are kept relative to where the loop stands
  induction extents generalizing logical physical with
  | nil =>
    simp only [physicalRangeFrom, Contiguous, List.map_nil, List.sum_nil, Nat.add_zero, true_and,
      true_or, Option.bind_eq_bind, Option.bind_some, eq_comm]
    split <;> simp_all
  | cons extent extents ih =>
    have hne : extent :: extents ≠ [] := List.cons_ne_nil _ _
    rw [physicalRangeFrom_cons extent hsize, Contiguous, List.map_cons, List.sum_cons]
    by_cases hextent : 0 < extent.len ∧ extent.logicalOffset = logical ∧
        extent.physicalOffset = some physical ∧ logical + extent.len ≤ size ∧
        physical + extent.len < 2 ^ 64
    · obtain ⟨hlen, hoffset, hplace, hfits, hword⟩ := id hextent
      have hrest : (extents = [] ∨ physical + extent.len + (extents.map (·.len)).sum < 2 ^ 64) ↔
          physical + (extent.len + (extents.map (·.len)).sum) < 2 ^ 64 := by
        cases extents with
        | nil => simpa using hword
        | cons next extents => simp [Nat.add_assoc]
      rw [if_pos hextent, ih hfits, hrest]
      simp only [hlen, hoffset, hplace, hne, true_and, false_or, Nat.add_assoc]
    · rw [if_neg hextent]
      refine iff_of_false (Option.some_ne_none _ ·.symm) ?_
      intro h
      obtain ⟨⟨hlen, hoffset, hplace, _⟩, htotal, hword, _⟩ := h
      have hword := hword.resolve_left hne
      exact hextent ⟨hlen, hoffset, hplace, by omega, by omega⟩

/-- The first extent gives the start of the range. -/
theorem physicalRangeFrom_none (extent : ExtentRun) :
    physicalRangeFrom size (extent :: extents) logical none physical =
      extent.physicalOffset.bind fun place =>
        physicalRangeFrom size (extent :: extents) logical (some place) place := by
  rw [physicalRangeFrom]
  cases hoffset : extent.physicalOffset with
  | none => split <;> rfl
  | some place =>
    rw [Option.bind_some, physicalRangeFrom, hoffset]
    simp only [Option.bind_eq_bind, Option.bind_some, ne_eq, not_true_eq_false, if_false]

/-- The content of a candidate is the range when its extents lie behind one another on the disk,
    from the start of the range on, and make up the whole content. -/
theorem exactPhysicalRange_eq_some {candidate : Candidate} (hsize : candidate.size < 2 ^ 64) :
    exactPhysicalRange candidate = some (start, size) ↔
      0 < size ∧ size = candidate.size ∧ Contiguous candidate.extents 0 start ∧
        (candidate.extents.map (·.len)).sum = size ∧ start + size < 2 ^ 64 := by
  unfold exactPhysicalRange
  cases hextents : candidate.extents with
  | nil =>
    rw [if_pos (.inr rfl)]
    refine iff_of_false (Option.some_ne_none _ ·.symm) ?_
    intro ⟨hpos, _, _, hsum, _⟩
    exact absurd hsum (Nat.ne_of_lt hpos)
  | cons extent extents =>
    by_cases hzero : candidate.size = 0
    · rw [if_pos (.inl hzero)]
      refine iff_of_false (Option.some_ne_none _ ·.symm) ?_
      intro ⟨hpos, heq, _⟩
      omega
    · rw [if_neg (by simp [hzero]), physicalRangeFrom_none]
      -- the first extent says where the range begins
      have hplace : ∀ place, physicalRangeFrom candidate.size (extent :: extents) 0 (some place)
          place = some (start, size) ↔ place = start ∧ 0 < size ∧ size = candidate.size ∧
            Contiguous (extent :: extents) 0 place ∧
              ((extent :: extents).map (·.len)).sum = size ∧ place + size < 2 ^ 64 := by
        intro place
        rw [physicalRangeFrom_eq_some hsize (Nat.zero_le _), Nat.zero_add, Prod.mk.injEq]
        constructor
        · intro ⟨hcontiguous, hsum, hword, hstart, heq⟩
          have hword := hword.resolve_left (List.cons_ne_nil _ _)
          exact ⟨hstart.symm, by omega, heq, hcontiguous, by omega, by omega⟩
        · intro ⟨hstart, hpos, heq, hcontiguous, hsum, hword⟩
          exact ⟨hcontiguous, by omega, .inr (by omega), hstart.symm, heq⟩
      cases hoffset : extent.physicalOffset with
      | none =>
        refine iff_of_false (Option.some_ne_none _ ·.symm) ?_
        intro ⟨_, _, hcontiguous, _⟩
        rw [hcontiguous.2.2.1] at hoffset
        cases hoffset
      | some place =>
        rw [Option.bind_some, hplace]
        constructor
        · intro ⟨hstart, hrest⟩
          exact hstart ▸ hrest
        · intro hrest
          obtain rfl := Option.some.inj (hoffset.symm.trans hrest.2.2.1.2.2.1)
          exact ⟨rfl, hrest⟩

end Range

/-! ## Metadata -/

/-- The NTFS candidates with the exact physical range `range`. -/
def owners (candidates : List Candidate) (range : Nat × Nat) : List Candidate :=
  candidates.filter fun candidate =>
    candidate.method = .ntfsMetadata ∧ exactPhysicalRange candidate = some range

/-- Exactly one NTFS candidate has the range. -/
def UniquelyOwned (candidates : List Candidate) (range : Nat × Nat) : Prop :=
  (owners candidates range).length = 1

/-- What the metadata binds a range to. -/
def ownerOf : List Candidate → Option (Option Nat)
  | [] => none
  | [candidate] => some (some candidate.id)
  | _ => some none

/-- What has been collected of `candidates`. -/
structure Indexes (candidates : List Candidate) (ids : MetadataIndex) : Prop where
  nodup : (candidates.map (·.id)).Nodup
  used : ∀ id, id ∈ ids.usedIds ↔ id ∈ candidates.map (·.id)
  ranges : ∀ range, ids.metadataRanges.lookup range = ownerOf (owners candidates range)

section Metadata

variable {candidates : List Candidate} {candidate : Candidate} {ids ids' : MetadataIndex}
  {index : Nat} {range : Nat × Nat}

theorem mem_owners : candidate ∈ owners candidates range ↔ candidate ∈ candidates ∧
    candidate.method = .ntfsMetadata ∧ exactPhysicalRange candidate = some range := by
  rw [owners, List.mem_filter, decide_eq_true_eq]

theorem ownerOf_eq_some_some {id : Nat} :
    ownerOf (owners candidates range) = some (some id) →
      UniquelyOwned candidates range ∧ ∃ candidate ∈ candidates, candidate.id = id ∧
        exactPhysicalRange candidate = some range := by
  unfold UniquelyOwned
  cases howners : owners candidates range with
  | nil => intro h; cases h
  | cons owner rest =>
    cases rest with
    | nil =>
      intro h
      cases h
      have hmem := mem_owners.mp (howners ▸ List.mem_singleton_self owner)
      exact ⟨rfl, owner, hmem.1, rfl, hmem.2.2⟩
    | cons other rest => intro h; cases h

theorem not_uniquelyOwned (h : ∀ id, ownerOf (owners candidates range) ≠ some (some id)) :
    ¬UniquelyOwned candidates range := by
  intro hunique
  obtain ⟨owner, howners⟩ := List.length_eq_one_iff.mp hunique
  rw [howners] at h
  exact h owner.id rfl

/-- One more owner of a range makes it shared. -/
theorem lookup_ownRange {metadataRanges : RangeMap (Option Nat)}
    (hid : ∀ owner ∈ owners candidates range, owner.id ≠ candidate.id)
    (h : metadataRanges.lookup range = ownerOf (owners candidates range)) :
    (ownRange metadataRanges range candidate.id).lookup range =
      ownerOf (owners candidates range ++ [candidate]) := by
  unfold ownRange
  rw [h]
  cases howners : owners candidates range with
  | nil => exact AList.lookup_insert _
  | cons owner rest =>
    have hshared : ownerOf (owner :: rest ++ [candidate]) = some none := by
      cases rest <;> rfl
    rw [hshared]
    cases rest with
    | nil =>
      have hne := hid owner (howners ▸ List.mem_cons_self)
      show AList.lookup range (if some owner.id ≠ some candidate.id then _ else _) = _
      rw [if_pos fun heq => hne (Option.some.inj heq)]
      exact AList.lookup_insert _
    | cons other rest =>
      show AList.lookup range (if none ≠ some candidate.id then _ else _) = _
      rw [if_pos (Option.some_ne_none candidate.id).symm]
      exact AList.lookup_insert _

theorem lookup_ownRange_ne {metadataRanges : RangeMap (Option Nat)} {range' : Nat × Nat} {id : Nat}
    (h : range' ≠ range) :
    (ownRange metadataRanges range id).lookup range' = metadataRanges.lookup range' := by
  unfold ownRange
  split
  · split
    · exact AList.lookup_insert_ne h
    · rfl
  · exact AList.lookup_insert_ne h

theorem indexCandidate_eq_ok (h : indexCandidate index ids candidate = .ok ids') :
    candidate.id ∉ ids.usedIds ∧ ids'.usedIds = insert candidate.id ids.usedIds ∧
      ids'.metadataRanges =
        (if candidate.method = .ntfsMetadata then exactPhysicalRange candidate else none).elim
          ids.metadataRanges fun range => ownRange ids.metadataRanges range candidate.id := by
  rw [indexCandidate, throw_bind, ite_throw_eq_ok] at h
  obtain ⟨hfresh, h⟩ := h
  refine ⟨hfresh, ?_⟩
  dsimp only at h
  by_cases hmethod : candidate.method = .ntfsMetadata
  · rw [if_pos hmethod] at h ⊢
    cases hrange : exactPhysicalRange candidate with
    | none =>
      rw [hrange] at h
      cases h
      exact ⟨rfl, rfl⟩
    | some range =>
      rw [hrange] at h
      cases h
      exact ⟨rfl, rfl⟩
  · rw [if_neg hmethod] at h ⊢
    cases h
    exact ⟨rfl, rfl⟩

theorem Indexes.indexCandidate (hindexes : Indexes candidates ids)
    (h : indexCandidate index ids candidate = .ok ids') :
    Indexes (candidates ++ [candidate]) ids' := by
  obtain ⟨hfresh, hused, hranges⟩ := indexCandidate_eq_ok h
  have hfresh : candidate.id ∉ candidates.map (·.id) := fun hmem =>
    hfresh ((hindexes.used candidate.id).mpr hmem)
  constructor
  · rw [List.map_append]
    refine List.nodup_append.mpr ⟨hindexes.nodup, List.nodup_singleton _, ?_⟩
    intro id hid id' hid' heq
    rw [heq, List.mem_singleton.mp hid'] at hid
    exact hfresh hid
  · intro id
    rw [hused, Finset.mem_insert, hindexes.used, List.map_append, List.mem_append, or_comm]
    exact or_congr_right List.mem_singleton.symm
  · intro range
    have howners : owners (candidates ++ [candidate]) range =
        owners candidates range ++ owners [candidate] range := List.filter_append ..
    rw [hranges, howners]
    -- the candidate joins the owners of its own range only
    by_cases hown : candidate.method = .ntfsMetadata ∧ exactPhysicalRange candidate = some range
    · have hsingle : owners [candidate] range = [candidate] :=
        List.filter_cons_of_pos (decide_eq_true hown)
      rw [if_pos hown.1, hown.2, hsingle]
      refine lookup_ownRange (fun owner howner heq => hfresh ?_) (hindexes.ranges range)
      exact heq ▸ List.mem_map_of_mem (mem_owners.mp howner).1
    · have hnone : owners [candidate] range = [] :=
        List.filter_cons_of_neg (by simpa using hown)
      rw [hnone, List.append_nil, ← hindexes.ranges range]
      split
      · next hmethod =>
        cases hrange : exactPhysicalRange candidate with
        | none => rfl
        | some range' =>
          exact lookup_ownRange_ne fun heq => hown ⟨hmethod, heq ▸ hrange⟩
      · rfl

/-- What is collected of the metadata. -/
theorem foldlM_indexCandidate (h : candidates.foldlM (indexCandidate index) {} = .ok ids) :
    Indexes candidates ids := by
  refine foldlM_prefix (fun done candidate ids ids' => Indexes.indexCandidate) ?_ h
  exact ⟨List.nodup_nil, fun id => by simp, fun range => rfl⟩

end Metadata

/-! ## The merge -/

/-- The carved ranges of `done` are resolved: a range with one owner to that candidate, any
    other one to a candidate that was added. -/
structure Resolves (metadata added : List Candidate) (done : List (Candidate × CarveEvidence))
    (st : MergeState) : Prop where
  candidates : st.candidates = metadata ++ added
  nodup : ((metadata ++ added).map (·.id)).Nodup
  used : ∀ id, id ∈ st.usedIds ↔ id ∈ (metadata ++ added).map (·.id)
  carved : ∀ candidate ∈ added, candidate.method = .carving ∧
    ∃ range, exactPhysicalRange candidate = some range ∧
      range ∈ done.map (·.2.range) ∧ ¬UniquelyOwned metadata range
  ranges : (added.map exactPhysicalRange).Nodup
  keys : ∀ range, range ∈ st.resolvedCarveRanges ↔ range ∈ done.map (·.2.range)
  named : ∀ range id, st.resolvedCarveRanges.lookup range = some id →
    ∃ candidate, candidate.id = id ∧ exactPhysicalRange candidate = some range ∧
      (candidate ∈ added ∨ candidate ∈ metadata ∧ UniquelyOwned metadata range)

/-- Each range of `done` has one evidence item, for the id the range is resolved to. -/
structure Evidences (done : List (Candidate × CarveEvidence)) (st : MergeState) : Prop where
  nodup : (st.evidence.map (·.range)).Nodup
  keys : ∀ range, range ∈ st.evidenceRanges ↔ range ∈ st.evidence.map (·.range)
  ranges : ∀ range, range ∈ st.evidence.map (·.range) ↔ range ∈ done.map (·.2.range)
  assigned : ∀ item ∈ st.evidence, st.resolvedCarveRanges.lookup item.range = some item.candidateId

section Merge

variable {metadata added : List Candidate} {done : List (Candidate × CarveEvidence)}
  {st st' : MergeState} {metadataRanges : RangeMap (Option Nat)} {found : Candidate × CarveEvidence}
  {candidate : Candidate} {range : Nat × Nat} {index id : Nat}

/-- The three ways to resolve a range. -/
theorem resolveCarve_eq_ok
    (h : resolveCarve index metadataRanges st candidate range = .ok (id, st')) :
    (st.resolvedCarveRanges.lookup range = some id ∧ st' = st) ∨
    (range ∉ st.resolvedCarveRanges ∧ metadataRanges.lookup range = some (some id) ∧ st' = st) ∨
    (range ∉ st.resolvedCarveRanges ∧ (∀ id', metadataRanges.lookup range ≠ some (some id')) ∧
      id ∉ st.usedIds ∧ ∃ lastId, st' =
        { st with
          candidates := st.candidates ++
            [admittedCandidate candidate id (metadataRanges.lookup range)]
          usedIds := insert id st.usedIds
          lastId }) := by
  unfold resolveCarve at h
  cases hresolved : st.resolvedCarveRanges.lookup range with
  | some existingId =>
    rw [hresolved] at h
    cases h
    exact .inl ⟨rfl, rfl⟩
  | none =>
    rw [hresolved] at h
    have hkey := AList.lookup_eq_none.mp hresolved
    dsimp only at h
    split at h
    -- a range with one owner keeps the candidate of the metadata
    · next metadataId howner =>
      cases h
      exact .inr (.inl ⟨hkey, howner, rfl⟩)
    · next hshared =>
      obtain ⟨nextId, -, h⟩ := bind_eq_ok.mp h
      rw [throw_bind, ite_throw_eq_ok] at h
      obtain ⟨hfresh, h⟩ := h
      cases h
      exact .inr (.inr ⟨hkey, hshared, hfresh, _, rfl⟩)

/-- What one round of the merge checks and changes. -/
theorem mergeItem_eq_ok (h : mergeItem index metadataRanges st found = .ok st') :
    found.1.method = .carving ∧ exactPhysicalRange found.1 = some found.2.range ∧
    ∃ id st₁, resolveCarve index metadataRanges st found.1 found.2.range = .ok (id, st₁) ∧
      st'.candidates = st₁.candidates ∧ st'.usedIds = st₁.usedIds ∧
      st'.resolvedCarveRanges = st₁.resolvedCarveRanges.insert found.2.range id ∧
      ((found.2.range ∈ st₁.evidenceRanges ∧ st'.evidence = st₁.evidence ∧
          st'.evidenceRanges = st₁.evidenceRanges) ∨
        (found.2.range ∉ st₁.evidenceRanges ∧
          st'.evidence = st₁.evidence ++ [{ found.2 with candidateId := id }] ∧
          ∃ fingerprint,
            st'.evidenceRanges = st₁.evidenceRanges.insert found.2.range fingerprint)) := by
  obtain ⟨candidate, item⟩ := found
  unfold mergeItem at h
  dsimp only at h
  rw [throw_bind, ite_throw_eq_ok] at h
  obtain ⟨hchecks, h⟩ := h
  simp only [not_or, ne_eq, Decidable.not_not] at hchecks
  obtain ⟨⟨id, st₁⟩, hresolve, h⟩ := bind_eq_ok.mp h
  refine ⟨hchecks.1, hchecks.2.2.2.2, id, st₁, hresolve, ?_⟩
  dsimp only at h
  -- an item of a range that is known already adds no evidence
  cases hlookup : st₁.evidenceRanges.lookup item.range with
  | some existing =>
    rw [hlookup] at h
    dsimp only at h
    rw [throw_bind, ite_throw_eq_ok] at h
    cases h.2
    exact ⟨rfl, rfl, rfl, .inl ⟨AList.lookup_isSome.mp (by rw [hlookup]; rfl), rfl, rfl⟩⟩
  | none =>
    rw [hlookup] at h
    cases h
    exact ⟨rfl, rfl, rfl, .inr ⟨AList.lookup_eq_none.mp hlookup, rfl, _, rfl⟩⟩

theorem mem_ranges_append : range ∈ (done ++ [found]).map (·.2.range) ↔
    range ∈ done.map (·.2.range) ∨ range = found.2.range := by
  rw [List.map_append, List.mem_append]
  exact or_congr_right List.mem_singleton

/-- A range with a candidate is bound to it. -/
theorem Resolves.insert {added' : List Candidate} (hresolves : Resolves metadata added done st)
    (hcandidates : st'.candidates = metadata ++ added')
    (hnodup : ((metadata ++ added').map (·.id)).Nodup)
    (hused : ∀ id, id ∈ st'.usedIds ↔ id ∈ (metadata ++ added').map (·.id))
    (hadded : ∀ candidate ∈ added, candidate ∈ added')
    (hcarved : ∀ candidate ∈ added', candidate ∈ added ∨ candidate.method = .carving ∧
      exactPhysicalRange candidate = some found.2.range ∧
        ¬UniquelyOwned metadata found.2.range)
    (hdistinct : (added'.map exactPhysicalRange).Nodup)
    (hresolved : st'.resolvedCarveRanges = st.resolvedCarveRanges.insert found.2.range id)
    (hnamed : ∃ candidate, candidate.id = id ∧
      exactPhysicalRange candidate = some found.2.range ∧
        (candidate ∈ added' ∨ candidate ∈ metadata ∧ UniquelyOwned metadata found.2.range)) :
    Resolves metadata added' (done ++ [found]) st' where
  candidates := hcandidates
  nodup := hnodup
  used := hused
  carved := by
    intro candidate hcandidate
    cases hcarved candidate hcandidate with
    | inl hold =>
      obtain ⟨hmethod, range, hrange, hdone, hshared⟩ := hresolves.carved candidate hold
      exact ⟨hmethod, range, hrange, mem_ranges_append.mpr (.inl hdone), hshared⟩
    | inr hnew =>
      exact ⟨hnew.1, _, hnew.2.1, mem_ranges_append.mpr (.inr rfl), hnew.2.2⟩
  ranges := hdistinct
  keys := by
    intro range
    rw [hresolved, AList.mem_insert, hresolves.keys, mem_ranges_append, or_comm]
  named := by
    intro range id' hlookup
    rw [hresolved] at hlookup
    -- the other ranges are resolved as they were
    by_cases hrange : range = found.2.range
    · rw [hrange, AList.lookup_insert] at hlookup
      cases hlookup
      exact hrange ▸ hnamed
    · rw [AList.lookup_insert_ne hrange] at hlookup
      obtain ⟨candidate, hid, hphysical, hcandidate⟩ := hresolves.named range id' hlookup
      exact ⟨candidate, hid, hphysical, hcandidate.imp_left (hadded candidate)⟩

/-- One round of the merge resolves its range. -/
theorem Resolves.mergeItem (hresolves : Resolves metadata added done st)
    (hranges : ∀ range, metadataRanges.lookup range = ownerOf (owners metadata range))
    (h : mergeItem index metadataRanges st found = .ok st') :
    ∃ added', Resolves metadata added' (done ++ [found]) st' := by
  obtain ⟨hmethod, hphysical, id, st₁, hresolve, hcandidates, hused, hresolved, -⟩ :=
    mergeItem_eq_ok h
  -- resolved before, owned by one candidate of the metadata, or new
  cases resolveCarve_eq_ok hresolve with
  | inl hagain =>
    obtain ⟨hlookup, rfl⟩ := hagain
    exact ⟨added, hresolves.insert (hcandidates.trans hresolves.candidates) hresolves.nodup
      (hused ▸ hresolves.used) (fun _ hmem => hmem) (fun _ => .inl) hresolves.ranges hresolved
      (hresolves.named _ _ hlookup)⟩
  | inr hfresh =>
    cases hfresh with
    | inl howned =>
      obtain ⟨-, howner, rfl⟩ := howned
      rw [hranges] at howner
      obtain ⟨hunique, candidate, hmem, hid, hrange⟩ := ownerOf_eq_some_some howner
      exact ⟨added, hresolves.insert (hcandidates.trans hresolves.candidates) hresolves.nodup
        (hused ▸ hresolves.used) (fun _ hmem => hmem) (fun _ => .inl) hresolves.ranges hresolved
        ⟨candidate, hid, hrange, .inr ⟨hmem, hunique⟩⟩⟩
    | inr hnew =>
      obtain ⟨hkey, hshared, hfresh, lastId, rfl⟩ := hnew
      generalize hcandidate : admittedCandidate found.1 id (metadataRanges.lookup found.2.range) =
        candidate at hcandidates
      have hid : candidate.id = id := by rw [← hcandidate]; rfl
      have hrange : exactPhysicalRange candidate = some found.2.range := by
        rw [← hcandidate, ← hphysical]
        rfl
      have hcarving : candidate.method = .carving := by
        rw [← hcandidate]
        exact hmethod
      have hshared : ¬UniquelyOwned metadata found.2.range :=
        not_uniquelyOwned fun id' howner => hshared id' ((hranges found.2.range).trans howner)
      have hids : (metadata ++ (added ++ [candidate])).map (·.id) =
          (metadata ++ added).map (·.id) ++ [id] := by
        rw [← List.append_assoc, List.map_append, List.map_singleton, hid]
      have hnotUsed : id ∉ (metadata ++ added).map (·.id) := fun hmem =>
        hfresh ((hresolves.used id).mpr hmem)
      refine ⟨added ++ [candidate], hresolves.insert ?_ ?_ ?_ ?_ ?_ ?_ hresolved
        ⟨candidate, hid, hrange, .inl (List.mem_append_right _ (List.mem_singleton_self _))⟩⟩
      · rw [hcandidates, ← List.append_assoc, ← hresolves.candidates]
      · rw [hids]
        refine List.nodup_append.mpr ⟨hresolves.nodup, List.nodup_singleton _, ?_⟩
        intro id' hmem id'' hmem' heq
        rw [heq, List.mem_singleton.mp hmem'] at hmem
        exact hnotUsed hmem
      · intro id'
        rw [hused, hids, List.mem_append, List.mem_singleton, ← hresolves.used, or_comm]
        exact Finset.mem_insert
      · intro candidate' hmem
        exact List.mem_append_left _ hmem
      · intro candidate' hmem
        cases List.mem_append.mp hmem with
        | inl hold => exact .inl hold
        | inr hnew =>
          rw [List.mem_singleton.mp hnew]
          exact .inr ⟨hcarving, hrange, hshared⟩
      · rw [List.map_append]
        refine List.nodup_append.mpr ⟨hresolves.ranges, List.nodup_singleton _, ?_⟩
        intro physical hmem physical' hmem' heq
        obtain ⟨candidate', hcandidate', hphysical'⟩ := List.mem_map.mp hmem
        obtain ⟨-, range, hrange', hdone, -⟩ := hresolves.carved candidate' hcandidate'
        rw [← hphysical', hrange', List.mem_singleton.mp hmem', hrange] at heq
        rw [← hresolves.keys, Option.some.inj heq] at hdone
        exact hkey hdone

/-- One round of the merge keeps one evidence item for each range. -/
theorem Evidences.mergeItem (hevidences : Evidences done st)
    (hresolves : Resolves metadata added done st)
    (h : mergeItem index metadataRanges st found = .ok st') :
    Evidences (done ++ [found]) st' := by
  obtain ⟨-, -, id, st₁, hresolve, -, -, hresolved, hevidence⟩ := mergeItem_eq_ok h
  -- resolving a range leaves the evidence alone, and an id that was assigned before
  have hframe : st₁.evidence = st.evidence ∧ st₁.evidenceRanges = st.evidenceRanges ∧
      ∀ item ∈ st.evidence, st'.resolvedCarveRanges.lookup item.range = some item.candidateId := by
    have hassigned : ∀ item ∈ st.evidence, item.range ≠ found.2.range →
        (st.resolvedCarveRanges.insert found.2.range id).lookup item.range =
          some item.candidateId := by
      intro item hitem hne
      rw [AList.lookup_insert_ne hne]
      exact hevidences.assigned item hitem
    have hdone : ∀ item ∈ st.evidence, item.range ∈ st.resolvedCarveRanges := fun item hitem =>
      (hresolves.keys _).mpr ((hevidences.ranges _).mp (List.mem_map_of_mem hitem))
    rw [hresolved]
    cases resolveCarve_eq_ok hresolve with
    | inl hagain =>
      obtain ⟨hlookup, rfl⟩ := hagain
      refine ⟨rfl, rfl, fun item hitem => ?_⟩
      by_cases hrange : item.range = found.2.range
      · rw [hrange, AList.lookup_insert, ← hlookup, ← hrange]
        exact hevidences.assigned item hitem
      · exact hassigned item hitem hrange
    | inr hfresh =>
      have hne : found.2.range ∉ st.resolvedCarveRanges →
          ∀ item ∈ st.evidence, item.range ≠ found.2.range :=
        fun hkey item hitem hrange => hkey (hrange ▸ hdone item hitem)
      cases hfresh with
      | inl howned =>
        obtain ⟨hkey, -, rfl⟩ := howned
        exact ⟨rfl, rfl, fun item hitem => hassigned item hitem (hne hkey item hitem)⟩
      | inr hnew =>
        obtain ⟨hkey, -, -, lastId, rfl⟩ := hnew
        exact ⟨rfl, rfl, fun item hitem => hassigned item hitem (hne hkey item hitem)⟩
  obtain ⟨hsame, hsameRanges, hassigned⟩ := hframe
  rw [hsame, hsameRanges] at hevidence
  cases hevidence with
  | inl hagain =>
    obtain ⟨hkey, hevidence, hevidenceRanges⟩ := hagain
    refine ⟨hevidence ▸ hevidences.nodup, ?_, ?_, hevidence ▸ hassigned⟩
    · rw [hevidence, hevidenceRanges]
      exact hevidences.keys
    · intro range
      rw [hevidence, mem_ranges_append, ← hevidences.ranges]
      refine ⟨.inl, fun hor => hor.elim (fun hmem => hmem) fun heq => ?_⟩
      rw [heq]
      exact (hevidences.keys _).mp hkey
  | inr hnew =>
    obtain ⟨hkey, hevidence, fingerprint, hevidenceRanges⟩ := hnew
    have hmap : st'.evidence.map (·.range) = st.evidence.map (·.range) ++ [found.2.range] := by
      rw [hevidence, List.map_append]
      rfl
    refine ⟨?_, ?_, ?_, ?_⟩
    · rw [hmap]
      refine List.nodup_append.mpr ⟨hevidences.nodup, List.nodup_singleton _, ?_⟩
      intro range hmem range' hmem' heq
      rw [heq, List.mem_singleton.mp hmem', ← hevidences.keys] at hmem
      exact hkey hmem
    · intro range
      rw [hevidenceRanges, AList.mem_insert, hevidences.keys, hmap, List.mem_append,
        List.mem_singleton, or_comm]
    · intro range
      rw [hmap, List.mem_append, List.mem_singleton, hevidences.ranges, mem_ranges_append]
    · intro item hitem
      rw [hevidence] at hitem
      cases List.mem_append.mp hitem with
      | inl hold => exact hassigned item hold
      | inr hlast =>
        rw [List.mem_singleton.mp hlast, hresolved]
        exact AList.lookup_insert _

end Merge

/-! ## The merged list -/

theorem mem_empty_iff {β : Type} (range : Nat × Nat) :
    range ∈ (∅ : RangeMap β) ↔ range ∈ ([] : List (Nat × Nat)) :=
  iff_of_false (AList.notMem_empty range) List.not_mem_nil

/-- Before the first round nothing is added to the metadata. -/
theorem Indexes.resolves {candidates : List Candidate} {ids : MetadataIndex}
    (hindexes : Indexes candidates ids) : Resolves candidates [] []
      { candidates, usedIds := ids.usedIds, lastId := ids.lastId } where
  candidates := (List.append_nil _).symm
  nodup := by
    rw [List.append_nil]
    exact hindexes.nodup
  used := by
    rw [List.append_nil]
    exact hindexes.used
  carved := fun candidate hmem => absurd hmem List.not_mem_nil
  ranges := List.nodup_nil
  keys := fun range => mem_empty_iff range
  named := by
    intro range id hlookup
    rw [AList.lookup_empty] at hlookup
    cases hlookup

theorem evidences_nil (candidates : List Candidate) (usedIds : Finset Nat) (lastId : Option Nat) :
    Evidences [] { candidates, usedIds, lastId } where
  nodup := List.nodup_nil
  keys := fun range => mem_empty_iff range
  ranges := fun _ => Iff.rfl
  assigned := fun _ hmem => absurd hmem List.not_mem_nil

/-- A successful merge extends the metadata by one carved candidate for each carved range that
    does not belong to exactly one NTFS candidate, under distinct ids, and has one evidence item
    for each carved range, for a candidate with that range. -/
theorem mergeCarvedEvidence_spec (index : Nat) (candidates : List Candidate) (carved : CarveReport)
    (merged : List Candidate) (evidence : List CarveEvidence)
    (h : mergeCarvedEvidence index candidates carved = .ok (merged, evidence)) :
    (∃ added, merged = candidates ++ added ∧
      (∀ candidate ∈ added, candidate.method = .carving) ∧
      (added.map exactPhysicalRange).Nodup ∧
      ∀ range, (∃ candidate ∈ added, exactPhysicalRange candidate = some range) ↔
        range ∈ carved.evidence.map (·.range) ∧ ¬UniquelyOwned candidates range) ∧
    (merged.map (·.id)).Nodup ∧
    (evidence.map (·.range)).Nodup ∧
    (∀ range, range ∈ evidence.map (·.range) ↔ range ∈ carved.evidence.map (·.range)) ∧
    ∀ item ∈ evidence, ∃ candidate ∈ merged, candidate.id = item.candidateId ∧
      exactPhysicalRange candidate = some item.range := by
  rw [mergeCarvedEvidence, throw_bind, ite_throw_eq_ok] at h
  obtain ⟨hlength, h⟩ := h
  obtain ⟨ids, hindex, h⟩ := bind_eq_ok.mp h
  obtain ⟨st, hmerge, h⟩ := bind_eq_ok.mp h
  cases h
  have hindexes := foldlM_indexCandidate hindex
  -- the loop over the carved items keeps both invariants
  have hinvariant :
    (∃ added, Resolves candidates added (carved.candidates.zip carved.evidence) st) ∧
      Evidences (carved.candidates.zip carved.evidence) st := by
    refine foldlM_prefix (P := fun done st =>
      (∃ added, Resolves candidates added done st) ∧ Evidences done st) ?_ ?_ hmerge
    · intro done found st st' hdone hstep
      obtain ⟨⟨added, hresolves⟩, hevidences⟩ := hdone
      exact ⟨hresolves.mergeItem hindexes.ranges hstep, hevidences.mergeItem hresolves hstep⟩
    · exact ⟨⟨[], hindexes.resolves⟩, evidences_nil _ _ _⟩
  obtain ⟨⟨added, hresolves⟩, hevidences⟩ := hinvariant
  -- the lists have one length, so no item is dropped
  have hranges : (carved.candidates.zip carved.evidence).map (·.2.range) =
      carved.evidence.map (·.range) := by
    have hsnd : (carved.candidates.zip carved.evidence).map Prod.snd = carved.evidence :=
      List.map_snd_zip (Nat.le_of_eq (Decidable.not_not.mp hlength).symm)
    conv_rhs => rw [← hsnd, List.map_map]
    rfl
  refine ⟨⟨added, hresolves.candidates, fun candidate hmem => (hresolves.carved candidate hmem).1,
    hresolves.ranges, fun range => ⟨?_, ?_⟩⟩, hresolves.candidates ▸ hresolves.nodup,
    hevidences.nodup, fun range => hranges ▸ hevidences.ranges range, fun item hitem => ?_⟩
  · intro ⟨candidate, hmem, hrange⟩
    obtain ⟨-, range', hrange', hdone, hshared⟩ := hresolves.carved candidate hmem
    obtain rfl := Option.some.inj (hrange.symm.trans hrange')
    exact ⟨hranges ▸ hdone, hshared⟩
  · intro ⟨hdone, hshared⟩
    obtain ⟨id, hlookup⟩ := Option.isSome_iff_exists.mp
      (AList.lookup_isSome.mpr ((hresolves.keys range).mpr (hranges ▸ hdone)))
    obtain ⟨candidate, -, hrange, hcandidate⟩ := hresolves.named range id hlookup
    exact ⟨candidate, hcandidate.resolve_right fun howned => hshared howned.2, hrange⟩
  · obtain ⟨candidate, hid, hrange, hcandidate⟩ :=
      hresolves.named _ _ (hevidences.assigned item hitem)
    refine ⟨candidate, ?_, hid, hrange⟩
    rw [hresolves.candidates]
    exact List.mem_append.mpr (hcandidate.symm.imp_left And.left)

/-- A file of 768 bytes at `physicalOffset`. -/
def storedFile (id : Nat) (method : DiscoveryMethod) (physicalOffset : Nat) : Candidate where
  id
  kind := .file
  method
  state := .structurallyValid
  name := "photo.jpg"
  nameCertain := true
  parentPath := []
  metadataConfidence := .high
  size := 768
  timestamps := {}
  extents := [⟨0, some physicalOffset, 768, .freeInSnapshot⟩]
  recordRef := physicalOffset
  sequence := none
  warnings := []

/-- The carver found two files, one of them twice. -/
def carvedTwice : CarveReport where
  candidates := [storedFile 4096 .carving 4096, storedFile 8192 .carving 8192,
    storedFile 8192 .carving 8192]
  evidence := [⟨4096, 4096, 768, .replicate 32 0, "jpeg-structural-v1"⟩,
    ⟨8192, 8192, 768, .replicate 32 0, "jpeg-structural-v1"⟩,
    ⟨8192, 8192, 768, .replicate 32 0, "jpeg-structural-v1"⟩]
  coverage := { bytesRequested := 0 }

/-- A file of the metadata is recognized, the other one is added once, and each of the two has one
    evidence item. -/
theorem mergeCarvedEvidence_spec_twice : ∃ added evidence,
    mergeCarvedEvidence 0 [storedFile 7 .ntfsMetadata 4096] carvedTwice =
      .ok (storedFile 7 .ntfsMetadata 4096 :: added, evidence) ∧
    (∃ candidate ∈ added, exactPhysicalRange candidate = some (8192, 768)) ∧
    (¬∃ candidate ∈ added, exactPhysicalRange candidate = some (4096, 768)) ∧
    ((storedFile 7 .ntfsMetadata 4096 :: added).map (·.id)).Nodup ∧
    (evidence.map (·.range)).Nodup ∧
    ∀ range, range ∈ evidence.map (·.range) ↔ range = (4096, 768) ∨ range = (8192, 768) := by
  obtain ⟨⟨merged, evidence⟩, hmerge⟩ := exists_of_isOk
    (show (mergeCarvedEvidence 0 [storedFile 7 .ntfsMetadata 4096] carvedTwice).isOk = true by
      decide +kernel)
  obtain ⟨⟨added, rfl, _, _, hadded⟩, hids, hevidence, hranges, _⟩ :=
    mergeCarvedEvidence_spec _ _ _ _ _ hmerge
  refine ⟨added, evidence, hmerge, ?_, ?_, hids, hevidence, fun range => ?_⟩
  · exact (hadded _).mpr ⟨by decide, by unfold UniquelyOwned; decide⟩
  · rw [hadded]
    exact fun h => h.2 (by unfold UniquelyOwned; decide)
  · rw [hranges]
    show range ∈ [(4096, 768), (8192, 768), (8192, 768)] ↔ _
    simp

end Undelete.Deep
