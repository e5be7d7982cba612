import Undelete.Spec.CandidateCorrect
import Undelete.Spec.NamespaceCorrect

/-!
# The displayed path and the namespace

`reconstruct_path` and `expand_parent_paths` follow the same references with two walks of
their own: the first one goes through the best name of each record and demotes its
confidence, the second one goes through all names and merges states. They agree on the
chain of best names.

## Key results

- `walkPath_agrees`: the walk finds the only path of the best names, or both find none.
- `expandParentPaths_ofBestNames`: a path of the best names is a path of all names.
- `reconstructPath_namespace`: the displayed path is a path of the namespace.
-/

namespace Undelete.Ntfs

variable {entries : RecordMap ParsedEntry}

/-! ## The walk -/

/-- The walk when it is about to follow the reference of `name`. -/
abbrev walkAt (visited : List Nat) (name : FileNameAttr) (parts : List String)
    (confidence : MetadataConfidence) (warnings : List NtfsWarning) : PathWalk :=
  ⟨visited, name.parentRecord, name.parentSequence, parts, confidence, warnings⟩

/-- The confidence of a walk after a part of the path that has the given state. -/
def demote (state : NtfsPathState) (confidence : MetadataConfidence) : MetadataConfidence :=
  if state = .reconstructed ∧ confidence = .high then .medium else confidence

theorem demote_ne_low {state : NtfsPathState} {confidence : MetadataConfidence}
    (h : confidence ≠ .low) : demote state confidence ≠ .low := by
  unfold demote
  split
  · exact nofun
  · exact h

theorem demote_merge {left right : NtfsPathState} (hleft : left.Proven) (hright : right.Proven)
    (confidence : MetadataConfidence) :
    demote (mergePathState left right) confidence = demote left (demote right confidence) := by
  rcases hleft with rfl | rfl <;> rcases hright with rfl | rfl <;> cases confidence <;> rfl

/-- A root that was already visited is not in use. -/
def RootUnused (entries : RecordMap ParsedEntry) (visited : List Nat) : Prop :=
  rootRecord ∈ visited → ∀ root, entries.get? rootRecord = some root → root.inUse = false

section Walk

variable (selfRecord : Nat) {visited : List Nat} {name : FileNameAttr} {parts : List String}
  {confidence : MetadataConfidence} {warnings : List NtfsWarning} {parent : ParsedEntry}

/-- The walk ends as an orphan. -/
def IsOrphan (r : PathWalk ⊕ (List String × MetadataConfidence × List NtfsWarning)) : Prop :=
  ∃ warnings, r = .inr (orphanPath selfRecord, .low, warnings)

theorem walkAt_step_broken (hunused : RootUnused entries visited)
    (h : ¬∃ parent, GoodHop entries visited name parent) :
    IsOrphan selfRecord
      ((walkAt visited name parts confidence warnings).step entries selfRecord) := by
  simp only [PathWalk.step]
  -- the two guards differ: the root is checked for use, other parents for cycles
  by_cases hroot : name.parentRecord = rootRecord
  · simp only [hroot, if_true]
    split
    · exact ⟨_, rfl⟩
    · next root hget =>
      split
      · exact ⟨_, rfl⟩
      · next hactive =>
        split
        · exact ⟨_, rfl⟩
        · next hsequence =>
          simp only [Bool.or_eq_true, Bool.not_eq_true', not_or, Bool.not_eq_false,
            ne_eq, Decidable.not_not] at hactive hsequence
          -- the walk cannot have passed an active root before
          have hfresh : name.parentRecord ∉ visited := fun hmem => by
            have hinUse := hunused (hroot ▸ hmem) root hget
            rw [hactive.1] at hinUse
            cases hinUse
          exact absurd ⟨root, ⟨hroot ▸ hget, fun _ => ⟨hactive.1, hsequence⟩,
            by simp [generationMatches, hsequence]⟩, hactive.2, hfresh⟩ h
  · simp only [hroot, if_false]
    split
    · exact ⟨_, rfl⟩
    · next hfresh =>
      split
      · exact ⟨_, rfl⟩
      · next parent hget =>
        split
        · exact ⟨_, rfl⟩
        · next hgeneration =>
          split
          · exact ⟨_, rfl⟩
          · next hdirectory =>
            exact absurd ⟨parent, ⟨hget, fun h => absurd h hroot, by simpa using hgeneration⟩,
              by simpa using hdirectory, hfresh⟩ h

theorem GoodHop.walkAt_step_root (h : GoodHop entries visited name parent)
    (hroot : name.parentRecord = rootRecord) :
    (walkAt visited name parts confidence warnings).step entries selfRecord =
      .inr (parts, confidence, warnings) := by
  obtain ⟨hactive, hsequence⟩ := h.root hroot
  simp [PathWalk.step, hroot, hroot ▸ h.get, hactive, h.directory, hsequence]

theorem GoodHop.walkAt_step_followed {best : FileNameAttr}
    (h : GoodHop entries visited name parent) (hroot : name.parentRecord ≠ rootRecord)
    (hcomplete : parent.attributesComplete = true) (hbest : parent.bestName = some best) :
    ∃ warnings', (walkAt visited name parts confidence warnings).step entries selfRecord =
      .inl (walkAt (name.parentRecord :: visited) best (best.name :: parts)
        (demote (relationState parent) confidence) warnings') := by
  simp only [walkAt, PathWalk.step, hroot, h.fresh, h.get, h.generation, h.directory, hbest,
    if_false, Bool.not_true, Bool.false_eq_true]
  refine ⟨if !parent.inUse && confidence = .high then
    warnings ++ [.ancestorDeleted name.parentRecord] else warnings, ?_⟩
  cases hinUse : parent.inUse <;> cases confidence <;>
    simp [demote, relationState, hcomplete, hinUse]

end Walk

/-! ## The chain of best names -/

/-- The record with the name that is displayed as its only one. -/
def ParsedEntry.bestOnly (entry : ParsedEntry) : ParsedEntry :=
  { entry with names := entry.bestName.toList }

/-- The records when each of them has only the name that is displayed. -/
def bestOnly (entries : RecordMap ParsedEntry) : RecordMap ParsedEntry :=
  entries.map ParsedEntry.bestOnly

theorem goodHop_bestOnly {visited : List Nat} {name : FileNameAttr} {parent' : ParsedEntry} :
    GoodHop (bestOnly entries) visited name parent' ↔
      ∃ parent, parent' = parent.bestOnly ∧ GoodHop entries visited name parent := by
  constructor
  · intro h
    have hget := h.get
    simp only [bestOnly, RecordMap.get?_map, Option.map_eq_some_iff] at hget
    obtain ⟨parent, hget, rfl⟩ := hget
    exact ⟨parent, rfl, ⟨hget, h.root, h.generation⟩, h.directory, h.fresh⟩
  · rintro ⟨parent, rfl, h⟩
    exact ⟨⟨by rw [bestOnly, RecordMap.get?_map, h.get]; rfl, h.root, h.generation⟩,
      h.directory, h.fresh⟩

/-- The best name of the record, which the namespace does not skip. -/
structure NamedBy (entry : ParsedEntry) (best : FileNameAttr) : Prop where
  eq : entry.bestName = some best
  notDos : best.namespaceId ≠ nsDos
  nonempty : best.name.isEmpty = false

theorem mem_usefulNames_bestOnly {entry : ParsedEntry} {name : FileNameAttr} :
    name ∈ usefulNamespaceNames entry.bestOnly ↔ NamedBy entry name := by
  simp only [usefulNamespaceNames, ParsedEntry.bestOnly, List.mem_filter, Option.mem_toList,
    Bool.and_eq_true, decide_eq_true_eq, Bool.not_eq_true']
  exact ⟨fun ⟨h₁, h₂, h₃⟩ => ⟨h₁, h₂, h₃⟩, fun ⟨h₁, h₂, h₃⟩ => ⟨h₁, h₂, h₃⟩⟩

theorem NamedBy.usefulNames_bestOnly {entry : ParsedEntry} {best : FileNameAttr}
    (h : NamedBy entry best) : usefulNamespaceNames entry.bestOnly = [best] := by
  simp [usefulNamespaceNames, ParsedEntry.bestOnly, h.eq, h.notDos, h.nonempty]

/-- The names that the walk follows, which ends at the root. -/
def Displayed (record : Nat) (parent : ParsedEntry) (name : FileNameAttr) : Prop :=
  record ≠ rootRecord ∧ parent.bestName = some name

/-- Every record on the parent chain of `name` has complete attributes and, but for the
    root, a best name that the namespace does not skip. -/
def Legible (entries : RecordMap ParsedEntry) (name : FileNameAttr) : Prop :=
  ∀ node parent, Chain entries Displayed name node → entries.get? node.record = some parent →
    parent.attributesComplete = true ∧
      (node.record ≠ rootRecord → ∃ best, NamedBy parent best)

theorem Legible.parent {name : FileNameAttr} {parent : ParsedEntry} (h : Legible entries name)
    (hhop : ValidHop entries name parent) : parent.attributesComplete = true ∧
      (name.parentRecord ≠ rootRecord → ∃ best, NamedBy parent best) :=
  h _ parent (.hop hhop) hhop.get

theorem Legible.up {name best : FileNameAttr} {parent : ParsedEntry} (h : Legible entries name)
    (hhop : ValidHop entries name parent) (hroot : name.parentRecord ≠ rootRecord)
    (hbest : NamedBy parent best) : Legible entries best :=
  fun node parent' hchain => h node parent' (.step hhop ⟨hroot, hbest.eq⟩ hchain)

/-- How the result of a walk relates to the expansion of the best names: both find the
    same path, or the walk is an orphan and no path of the expansion is proven. -/
inductive WalkAgrees (parts : List String) (confidence : MetadataConfidence)
    (e : ParentPathExpansion) : List String × MetadataConfidence × List NtfsWarning → Prop
  | orphan {path : List String} {warnings : List NtfsWarning}
    (h : ∀ up ∈ e.paths, ¬up.state.Proven) : WalkAgrees parts confidence e (path, .low, warnings)
  | path {warnings : List NtfsWarning} (up : ParentPathEvidence) (heq : e.paths = [up])
    (hproven : up.state.Proven) :
    WalkAgrees parts confidence e (up.parentPath ++ parts, demote up.state confidence, warnings)

theorem relationState_proven {parent : ParsedEntry} (h : parent.attributesComplete = true) :
    (relationState parent).Proven := by
  cases hinUse : parent.inUse <;> simp [relationState, NtfsPathState.Proven, h, hinUse]

section Level

variable {left : Nat} {visited : List Nat} {name best : FileNameAttr} {parent : ParsedEntry}

/-- Behind a directory, the expansion of the best names has what its best name leads to. -/
theorem GoodHop.bestOnly_followed (h : GoodHop entries visited name parent)
    (hroot : name.parentRecord ≠ rootRecord) (hbest : NamedBy parent best) :
    let upstream := expandName (bestOnly entries) left (name.parentRecord :: visited) best
    let push := fun up : ParentPathEvidence =>
      up.push best.name (parentNode name parent) (relationState parent)
    (∀ up ∈ (expandName (bestOnly entries) (left + 1) visited name).paths, up.state.Proven →
      ∃ up' ∈ upstream.paths, up = push up') ∧
    (∀ up, upstream.paths = [up] →
      (expandName (bestOnly entries) (left + 1) visited name).paths = [push up]) := by
  have hhop := goodHop_bestOnly.mpr ⟨parent, rfl, h⟩
  have hnames := hbest.usefulNames_bestOnly
  rw [hhop.expandName_followed hroot (hnames ▸ List.cons_ne_nil _ _), hnames]
  constructor
  · intro up hup hproven
    split at hup
    · obtain rfl := List.mem_singleton.mp hup
      exact absurd hproven not_proven_incomplete
    · rcases mem_expandNames hup with h | ⟨name', hname', h⟩
      · cases h
      · obtain rfl := List.mem_singleton.mp hname'
        obtain ⟨up', hup', rfl⟩ := List.mem_map.mp h
        exact ⟨up', hup', rfl⟩
  · intro up hup
    simp only [expandName] at hup
    simp [expandNames, pushUpstream, hup, maxNamespacePathsPerName]
    rfl

end Level

/-- The walk finds the only path of the best names, or both find none. -/
theorem walkPath_agrees (selfRecord left : Nat) {visited : List Nat} {name : FileNameAttr}
    {parts : List String} {confidence : MetadataConfidence} {warnings : List NtfsWarning}
    (hunused : RootUnused entries visited) (hlegible : Legible entries name) :
    WalkAgrees parts confidence (expandName (bestOnly entries) left visited name)
      (walkPath entries selfRecord left (walkAt visited name parts confidence warnings)) := by
  -- on the depth left, along the parents of the best name
  induction left generalizing visited name parts confidence warnings with
  | zero =>
    refine .orphan fun up hup => ?_
    obtain rfl := List.mem_singleton.mp hup
    exact not_proven_incomplete
  | succ left ih =>
    -- a good hop goes on in both walks, a broken one orphans both
    by_cases hgood : ∃ parent, GoodHop entries visited name parent
    · obtain ⟨parent, hhop⟩ := hgood
      obtain ⟨hcomplete, hnamed⟩ := hlegible.parent hhop.toValidHop
      by_cases hroot : name.parentRecord = rootRecord
      · have hhop' := goodHop_bestOnly.mpr ⟨parent, rfl, hhop⟩
        rw [walkPath, hhop.walkAt_step_root selfRecord hroot]
        exact .path ⟨[], [parentNode name parent.bestOnly], .exact⟩
          (by rw [hhop'.expandName_root hroot]; simp [ParsedEntry.bestOnly, hcomplete]) (.inl rfl)
      · obtain ⟨best, hbest⟩ := hnamed hroot
        obtain ⟨warnings', hstep⟩ := hhop.walkAt_step_followed selfRecord hroot hcomplete hbest.eq
        rw [walkPath, hstep]
        change WalkAgrees _ _ _ (walkPath entries selfRecord left _)
        obtain ⟨hpaths, hpath⟩ := hhop.bestOnly_followed hroot hbest
        have hunused' : RootUnused entries (name.parentRecord :: visited) := fun hmem =>
          hunused ((List.mem_cons.mp hmem).resolve_left fun h => hroot h.symm)
        have hrest := @ih (name.parentRecord :: visited) best (best.name :: parts)
          (demote (relationState parent) confidence) warnings' hunused'
          (hlegible.up hhop.toValidHop hroot hbest)
        revert hrest
        generalize walkPath entries selfRecord left _ = r
        intro hrest
        -- the state of this hop demotes the walk and merges into the namespace path
        have hrelation := relationState_proven hcomplete
        cases hrest with
        | orphan hnone =>
          refine .orphan fun up hup hproven => ?_
          obtain ⟨up', hup', rfl⟩ := hpaths up hup hproven
          exact hnone up' hup' (mergePathState_proven.mp hproven).1
        | path up heq hproven =>
          rw [← demote_merge hproven hrelation, List.append_cons]
          exact .path _ (hpath up heq) (mergePathState_proven.mpr ⟨hproven, hrelation⟩)
    · obtain ⟨warnings', hstep⟩ := walkAt_step_broken selfRecord hunused hgood
      rw [walkPath, hstep, expandName_broken (by
        rintro ⟨_, h⟩
        obtain ⟨parent, _, h⟩ := goodHop_bestOnly.mp h
        exact hgood ⟨parent, h⟩)]
      refine .orphan fun up hup => ?_
      obtain rfl := List.mem_singleton.mp hup
      exact not_proven_orphaned

/-! ## The namespace -/

theorem mem_of_pickBestName {names : List FileNameAttr} {best : FileNameAttr}
    (h : pickBestName names = some best) : best ∈ names := by
  rcases Option.or_eq_some_iff.mp h with h | ⟨_, h⟩
  · exact List.mem_of_find?_eq_some h
  · exact List.mem_of_head? h

/-- Every entry displays the name that `parse_entry` picks. -/
def BestNames (entries : RecordMap ParsedEntry) : Prop :=
  ∀ record entry, entries.get? record = some entry → entry.bestName = pickBestName entry.names

/-- The entries of a scan do; the merge of extension records leaves the names alone. -/
theorem scanRecords_bestNames {reader : SourceReader} {plan : ScanPlan} {st : MftState}
    (hplan : planScan reader = .ok plan) (hscan : scanRecords reader plan = .ok st) :
    BestNames st.entries := by
  intro record entry hget
  obtain ⟨_, _, _, hentry⟩ := scanRecords_entryOf hplan hscan hget
  rw [hentry.entry_eq]
  rfl

theorem NamedBy.mem_usefulNames {entry : ParsedEntry} {best : FileNameAttr}
    (h : NamedBy entry best) (hpick : entry.bestName = pickBestName entry.names) :
    best ∈ usefulNamespaceNames entry := by
  simp only [usefulNamespaceNames, List.mem_filter, Bool.and_eq_true, decide_eq_true_eq,
    Bool.not_eq_true']
  exact ⟨mem_of_pickBestName (hpick.symm.trans h.eq), h.notDos, h.nonempty⟩

/-- A proven path of the best names is a path of all names. -/
theorem expandParentPaths_ofBestNames {depthLeft : Nat} {visited : List Nat}
    {name : FileNameAttr} {up : ParentPathEvidence} (hnames : BestNames entries)
    (hcomplete : (expandName entries depthLeft visited name).complete = true)
    (hup : up ∈ (expandName (bestOnly entries) depthLeft visited name).paths)
    (hproven : up.state.Proven) : up ∈ (expandName entries depthLeft visited name).paths := by
  -- on the depth; the best name of each record is one of its useful names
  induction depthLeft generalizing visited name up with
  | zero => cases hcomplete
  | succ depthLeft ih =>
    -- a proven path comes from the root or through a followed parent
    cases expandName_step (bestOnly entries) depthLeft visited name with
    | orphaned heq =>
      rw [heq] at hup
      obtain rfl := List.mem_singleton.mp hup
      exact absurd hproven not_proven_orphaned
    | nameless _ _ heq =>
      rw [heq] at hup
      obtain rfl := List.mem_singleton.mp hup
      exact absurd hproven not_proven_orphaned
    | deadEnd _ _ heq =>
      rw [heq] at hup
      obtain rfl := List.mem_singleton.mp hup
      exact absurd hproven not_proven_incomplete
    | root _ hbestHop hroot heq =>
      obtain ⟨parent, rfl, hhop⟩ := goodHop_bestOnly.mp hbestHop
      rw [heq] at hup
      rw [hhop.expandName_root hroot]
      exact hup
    | followed _ hbestHop hroot heq _ =>
      obtain ⟨parent, rfl, hhop⟩ := goodHop_bestOnly.mp hbestHop
      rw [heq] at hup
      rcases mem_expandNames hup with h | ⟨best, hbest, h⟩
      · cases h
      · have hbest' := (mem_usefulNames_bestOnly.mp hbest).mem_usefulNames
          (hnames _ _ hhop.get)
        obtain ⟨up', hup', rfl⟩ := List.mem_map.mp h
        have hproven' := (mergePathState_proven.mp hproven).1
        rw [hhop.expandName_followed hroot (List.ne_nil_of_mem hbest')] at hcomplete ⊢
        split at hcomplete
        · cases hcomplete
        · next hne =>
          rw [if_neg hne]
          obtain ⟨_, hpaths, hall⟩ := expandNames_complete hcomplete
          rw [hpaths, List.nil_append]
          exact List.mem_flatMap.mpr ⟨best, hbest',
            List.mem_map_of_mem (ih (hall best hbest') hup' hproven')⟩

/-- A proven path ends at an active root. -/
theorem expandParentPaths_root {depthLeft : Nat} {visited : List Nat} {name : FileNameAttr}
    {up : ParentPathEvidence} (hup : up ∈ (expandName entries depthLeft visited name).paths)
    (hproven : up.state.Proven) :
    ∃ root, entries.get? rootRecord = some root ∧ root.inUse = true := by
  induction depthLeft generalizing visited name up with
  | zero =>
    obtain rfl := List.mem_singleton.mp hup
    exact absurd hproven not_proven_incomplete
  | succ depthLeft ih =>
    -- only a hop to the root starts a proven path
    cases expandName_step entries depthLeft visited name with
    | orphaned heq =>
      rw [heq] at hup
      obtain rfl := List.mem_singleton.mp hup
      exact absurd hproven not_proven_orphaned
    | nameless _ _ heq =>
      rw [heq] at hup
      obtain rfl := List.mem_singleton.mp hup
      exact absurd hproven not_proven_orphaned
    | deadEnd _ _ heq =>
      rw [heq] at hup
      obtain rfl := List.mem_singleton.mp hup
      exact absurd hproven not_proven_incomplete
    | root parent hhop hroot _ => exact ⟨parent, hroot ▸ hhop.get, (hhop.root hroot).1⟩
    | followed _ _ _ heq _ =>
      rw [heq] at hup
      rcases mem_expandNames hup with h | ⟨best, _, h⟩
      · cases h
      · obtain ⟨up', hup', rfl⟩ := List.mem_map.mp h
        exact ih hup' (mergePathState_proven.mp hproven).1

/-- The state of the namespace path for a displayed path of the given confidence; an
    orphan has none. -/
def pathStateOf : MetadataConfidence → Option NtfsPathState
  | .high => some .exact
  | .medium => some .reconstructed
  | .low => none

theorem pathStateOf_demote {state state' : NtfsPathState} (hproven : state.Proven)
    (h : pathStateOf (demote state .high) = some state') : state' = state := by
  rcases hproven with rfl | rfl <;> simpa [demote, pathStateOf, eq_comm] using h

/-- The displayed path of a deleted record is a path of the namespace, under the same
    best name and with the state that belongs to the confidence; and where it is an orphan,
    no path through the best names alone is proven. -/
theorem reconstructPath_namespace {entries : RecordMap ParsedEntry} {scanComplete : Bool}
    {record : Nat} {entry : ParsedEntry} {best : FileNameAttr} (hnames : BestNames entries)
    (hentry : entries.get? record = some entry) (hdeleted : entry.inUse = false)
    (hbest : NamedBy entry best) (hcomplete : entry.attributesComplete = true)
    (hlegible : Legible entries best) :
    let ns := buildNamespace entries scanComplete
    let (parts, confidence, _) := reconstructPath entries best record
    (ns.2 = [] → ∀ state, pathStateOf confidence = some state →
      ∃ path ∈ ns.1.paths, path.node = ⟨record, entry.sequence⟩ ∧ path.name = best.name ∧
        path.namespaceId = best.namespaceId ∧ path.parentPath = parts ∧ path.state = state) ∧
    (confidence = .low → ∀ path ∈ recordEvidence (bestOnly entries) record,
      ¬path.state.Proven) := by
  have hunused : RootUnused entries [record] := by
    intro hmem root hget
    obtain rfl := List.mem_singleton.mp hmem
    exact (Option.some.inj (hentry.symm.trans hget)) ▸ hdeleted
  have hagrees := @walkPath_agrees entries record maxPathDepth [record] best [] .high []
    hunused hlegible
  have hbudget := (buildNamespace_adds entries scanComplete).2
  simp only [reconstructPath]
  revert hagrees
  generalize walkPath entries record maxPathDepth _ = r
  intro hagrees
  -- an orphan has no proven path, a walked path is one of the expanded ones
  cases hagrees with
  | orphan hnone =>
    refine ⟨fun _ state h => (by cases h), fun _ path hpath hproven => ?_⟩
    obtain ⟨_, entry', hget, name, hname, hpath⟩ := (mem_recordEvidence _).mp hpath
    obtain ⟨up, hup, rfl⟩ := List.mem_map.mp hpath
    simp only [bestOnly, RecordMap.get?_map, hentry, Option.map_some, Option.some.injEq] at hget
    subst hget
    rw [hbest.usefulNames_bestOnly] at hname
    obtain rfl := List.mem_singleton.mp hname
    exact hnone up hup (mergePathState_proven.mp hproven).1
  | path up heq hproven =>
    refine ⟨fun hnone state hstate => ?_, fun h => absurd h (demote_ne_low nofun)⟩
    obtain ⟨hexpanded, hpaths⟩ := hbudget (.inr hnone) record
    have hup : up ∈ (expandName (bestOnly entries) maxPathDepth [record] best).paths :=
      heq ▸ List.mem_cons_self
    have hmem := hbest.mem_usefulNames (hnames _ _ hentry)
    -- the root record itself is in use, this one is deleted
    have hroot : record ≠ rootRecord := by
      rintro rfl
      obtain ⟨root, hget, hactive⟩ := expandParentPaths_root hup hproven
      simp only [bestOnly, RecordMap.get?_map, hentry, Option.map_some, Option.some.injEq] at hget
      rw [← hget] at hactive
      exact absurd (hdeleted.symm.trans hactive) Bool.false_ne_true
    have hup' := expandParentPaths_ofBestNames hnames (hexpanded hroot entry hentry best hmem)
      hup hproven
    refine ⟨namespacePath record entry best up, hpaths _ ((mem_recordEvidence entries).mpr
      ⟨hroot, entry, hentry, best, hmem, List.mem_map_of_mem hup'⟩), rfl, rfl, rfl, by simp
        [namespacePath], ?_⟩
    rw [pathStateOf_demote hproven hstate]
    simp only [namespacePath, hcomplete, if_true]
    rcases hproven with h | h <;> rw [h] <;> rfl

theorem aliasedTree_bestNames : BestNames aliasedTree := by
  intro record entry hget
  have hmem := RecordMap.get?_eq_some_iff.mp hget
  simp only [aliasedTree, List.mem_cons, Prod.mk.injEq, List.not_mem_nil, or_false] at hmem
  rcases hmem with ⟨-, rfl⟩ | ⟨-, rfl⟩ | ⟨-, rfl⟩ | ⟨-, rfl⟩ | ⟨-, rfl⟩ <;> rfl

theorem aliasedTree_legible : Legible aliasedTree (namedIn 20 1 "a") := by
  -- the chain is record 20 and then the root
  intro node parent hchain hget
  cases hchain with
  | hop h =>
    obtain rfl := Option.some.inj ((show aliasedTree.get? 20 = some _ from rfl).symm.trans hget)
    exact ⟨rfl, fun _ => ⟨namedIn 5 1 "long name", rfl, by decide, by decide +kernel⟩⟩
  | step h hvia hrest =>
    obtain rfl := Option.some.inj ((show aliasedTree.get? 20 = some _ from rfl).symm.trans h.get)
    obtain rfl := Option.some.inj ((show some (namedIn 5 1 "long name") = _ from hvia.2))
    cases hrest with
    | hop h =>
      obtain rfl := Option.some.inj ((show aliasedTree.get? 5 = some _ from rfl).symm.trans hget)
      exact ⟨rfl, fun hroot => absurd rfl hroot⟩
    | step _ hvia _ => exact absurd rfl hvia.1

/-- File 40 of the tree is displayed, and found in the namespace, behind a long name. -/
theorem reconstructPath_namespace_aliasedTree :
    (reconstructPath aliasedTree (namedIn 20 1 "a") 40).2.1 = .high ∧
    ∃ path ∈ (buildNamespace aliasedTree true).1.paths, path.node = ⟨40, 1⟩ ∧
      path.name = "a" ∧ path.namespaceId = 1 ∧
      path.parentPath = (reconstructPath aliasedTree (namedIn 20 1 "a") 40).1 ∧
      path.state = .exact := by
  have hagrees := @reconstructPath_namespace aliasedTree true 40 _ (namedIn 20 1 "a")
    aliasedTree_bestNames rfl rfl ⟨rfl, by decide, by decide +kernel⟩ rfl aliasedTree_legible
  have hhigh : (reconstructPath aliasedTree (namedIn 20 1 "a") 40).2.1 = .high := by
    decide +kernel
  exact ⟨hhigh, hagrees.1 (by decide +kernel) .exact (hhigh ▸ rfl)⟩

/-- A tree in which the first name of directory 20 is empty, and deleted record 41 has
    attributes that could not all be parsed. -/
def unnamedTree : RecordMap ParsedEntry where
  toList := [(5, namedEntry true [namedIn 5 3 "."]),
    (20, namedEntry true [namedIn 5 0 "", namedIn 5 1 "folder"]),
    (40, namedEntry false [namedIn 20 1 "a"]),
    (41, { namedEntry false [namedIn 5 1 "b"] with attributesComplete := false })]
  nodup := by decide

/-- An empty best name is displayed, but the namespace goes through the other name; and a
    record that is itself incomplete makes its namespace paths incomplete. -/
theorem unnamedTree_differs :
    (∀ record ∈ [5, 20, 40], ∃ entry ∈ unnamedTree.get? record,
      entry.attributesComplete = true ∧ entry.bestName = pickBestName entry.names ∧
        usefulNamespaceNames entry ≠ []) ∧
    (buildNamespace unnamedTree true).2 = [] ∧
    ((reconstructPath unnamedTree (namedIn 20 1 "a") 40).1 = [""] ∧
      (reconstructPath unnamedTree (namedIn 20 1 "a") 40).2.1 = .high ∧
      ∀ path ∈ (buildNamespace unnamedTree true).1.paths, path.node = ⟨40, 1⟩ →
        path.parentPath ≠ [""]) ∧
    (reconstructPath unnamedTree (namedIn 5 1 "b") 41).2.1 = .high ∧
      ∀ path ∈ (buildNamespace unnamedTree true).1.paths, path.node = ⟨41, 1⟩ →
        path.state = .incomplete := by
  decide +kernel

end Undelete.Ntfs
