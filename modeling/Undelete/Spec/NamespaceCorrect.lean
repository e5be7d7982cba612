import Undelete.Native.Ntfs.Namespace

/-!
# Paths and parent chains

`expand_parent_paths` follows the parent references of a name. What it finds is a valid
chain of references, and when it neither ran into a bound nor into broken evidence, it
found every valid chain. `build_namespace` collects its paths, and folder membership is
decided by them.

## Key results

- `expandParentPaths_sound`: the ancestors of a path are reached by valid references.
- `expandParentPaths_complete`: a complete, proven expansion misses no ancestor.
- `buildNamespace_adds`: the paths of a namespace, unless a budget was reached.
- `classifyCandidate_chain`: folder membership agrees with the chains of references.
-/

namespace Undelete.Ntfs

/-! ## Path states -/

/-- The path was followed to the root through evidence that can be trusted. -/
def NtfsPathState.Proven (state : NtfsPathState) : Prop := state = .exact ∨ state = .reconstructed

theorem mergePathState_proven {left right : NtfsPathState} :
    (mergePathState left right).Proven ↔ left.Proven ∧ right.Proven := by
  cases left <;> cases right <;> simp [mergePathState, NtfsPathState.rank, NtfsPathState.Proven]

theorem not_proven_orphaned : ¬NtfsPathState.Proven .orphaned := by simp [NtfsPathState.Proven]

theorem not_proven_incomplete : ¬NtfsPathState.Proven .incomplete := by
  simp [NtfsPathState.Proven]

/-! ## The names of one directory -/

variable {name : String} {node : NtfsNodeRef} {relation : NtfsPathState}

theorem pushUpstream_uncapped {upstream paths : List ParentPathEvidence}
    (h : (pushUpstream name node relation upstream paths).2 = false) :
    (pushUpstream name node relation upstream paths).1 =
      paths ++ upstream.map (·.push name node relation) := by
  induction upstream generalizing paths with
  | nil => simp [pushUpstream]
  | cons path upstream ih =>
    simp only [pushUpstream] at h ⊢
    split at h
    · cases h
    · next hroom =>
      rw [if_neg hroom, ih h, List.map_cons, List.append_assoc]
      rfl

theorem mem_pushUpstream {upstream paths : List ParentPathEvidence} {path : ParentPathEvidence}
    (h : path ∈ (pushUpstream name node relation upstream paths).1) :
    path ∈ paths ∨ ∃ up ∈ upstream, path = up.push name node relation := by
  induction upstream generalizing paths with
  | nil => exact .inl h
  | cons up upstream ih =>
    simp only [pushUpstream] at h
    split at h
    · exact .inl h
    · rcases ih h with h | ⟨up', hup', rfl⟩
      · rcases List.mem_append.mp h with h | h
        · exact .inl h
        · exact .inr ⟨up, List.mem_cons_self, List.mem_singleton.mp h⟩
      · exact .inr ⟨up', List.mem_cons_of_mem up hup', rfl⟩

variable {expand : Nat → Nat → ParentPathExpansion}

/-- What one name contributes to the paths of its directory. -/
def namePaths (expand : Nat → Nat → ParentPathExpansion) (node : NtfsNodeRef)
    (relation : NtfsPathState) (name : FileNameAttr) : List ParentPathEvidence :=
  (expand name.parentRecord name.parentSequence).paths.map (·.push name.name node relation)

/-- A complete expansion has the paths of every name. -/
theorem expandNames_complete {names : List FileNameAttr} {paths : List ParentPathEvidence}
    {complete : Bool}
    (h : (expandNames expand node relation names paths complete).complete = true) :
    complete = true ∧
    (expandNames expand node relation names paths complete).paths =
      paths ++ names.flatMap (namePaths expand node relation) ∧
    ∀ name ∈ names, (expand name.parentRecord name.parentSequence).complete = true := by
  induction names generalizing paths complete with
  | nil => exact ⟨h, by simp [expandNames], by simp⟩
  | cons name names ih =>
    simp only [expandNames] at h ⊢
    split at h
    · cases h
    · next hroom =>
      rw [if_neg hroom]
      split at h
      · cases h
      · next huncapped =>
        rw [if_neg huncapped]
        obtain ⟨hcomplete, hpaths, hrest⟩ := ih h
        rw [Bool.and_eq_true] at hcomplete
        refine ⟨hcomplete.1, ?_, List.forall_mem_cons.mpr ⟨hcomplete.2, hrest⟩⟩
        rw [hpaths, pushUpstream_uncapped (Bool.not_eq_true _ ▸ huncapped), List.flatMap_cons,
          List.append_assoc]
        rfl

theorem mem_expandNames {names : List FileNameAttr} {paths : List ParentPathEvidence}
    {complete : Bool} {path : ParentPathEvidence}
    (h : path ∈ (expandNames expand node relation names paths complete).paths) :
    path ∈ paths ∨ ∃ name ∈ names, path ∈ namePaths expand node relation name := by
  induction names generalizing paths complete with
  | nil => exact .inl h
  | cons name names ih =>
    have hpush : path ∈ (pushUpstream name.name node relation
        (expand name.parentRecord name.parentSequence).paths paths).1 →
        path ∈ paths ∨ ∃ name' ∈ name :: names, path ∈ namePaths expand node relation name' := by
      intro h
      rcases mem_pushUpstream h with h | ⟨up, hup, rfl⟩
      · exact .inl h
      · exact .inr ⟨name, List.mem_cons_self, List.mem_map_of_mem hup⟩
    simp only [expandNames] at h
    split at h
    · exact .inl h
    · split at h
      · exact hpush h
      · rcases ih h with h | ⟨name', hname', h⟩
        · exact hpush h
        · exact .inr ⟨name', List.mem_cons_of_mem name hname', h⟩

/-! ## Chains of references -/

variable {entries : RecordMap ParsedEntry}

/-- The parent reference of `name` points at the generation of `parent` that the record
    holds: the root has to be exact and active, any other record may have been freed
    since. -/
structure ValidHop (entries : RecordMap ParsedEntry) (name : FileNameAttr) (parent : ParsedEntry) :
    Prop where
  get : entries.get? name.parentRecord = some parent
  root : name.parentRecord = rootRecord →
    parent.inUse = true ∧ parent.sequence = name.parentSequence
  generation : generationMatches parent name.parentSequence = true

/-- The reference of `name` leads to a directory that was not visited before. -/
structure GoodHop (entries : RecordMap ParsedEntry) (visited : List Nat) (name : FileNameAttr)
    (parent : ParsedEntry) : Prop extends ValidHop entries name parent where
  directory : parent.isDirectory = true
  fresh : name.parentRecord ∉ visited

/-- A chain of valid references from `name` to `node`. From a record the chain goes on
    through the names that `via` admits. -/
inductive Chain (entries : RecordMap ParsedEntry)
    (via : Nat → ParsedEntry → FileNameAttr → Prop) : FileNameAttr → NtfsNodeRef → Prop
  | hop {name : FileNameAttr} {parent : ParsedEntry} (h : ValidHop entries name parent) :
    Chain entries via name ⟨name.parentRecord, parent.sequence⟩
  | step {name name' : FileNameAttr} {parent : ParsedEntry} {node : NtfsNodeRef}
    (h : ValidHop entries name parent) (hvia : via name.parentRecord parent name')
    (hrest : Chain entries via name' node) : Chain entries via name node

/-- The names the scanner follows: non-DOS, non-empty ones, and none behind the root. -/
def Followed (record : Nat) (parent : ParsedEntry) (name : FileNameAttr) : Prop :=
  record ≠ rootRecord ∧ name ∈ usefulNamespaceNames parent

/-- The expansion of the parent reference of `name`. -/
def expandName (entries : RecordMap ParsedEntry) (depthLeft : Nat) (visited : List Nat)
    (name : FileNameAttr) : ParentPathExpansion :=
  expandParentPaths entries depthLeft visited name.parentRecord name.parentSequence

/-- The node the parent reference of `name` stands for, once it is validated. -/
def parentNode (name : FileNameAttr) (parent : ParsedEntry) : NtfsNodeRef :=
  ⟨name.parentRecord, parent.sequence⟩

section Levels

variable {depthLeft : Nat} {visited : List Nat} {name : FileNameAttr} {parent : ParsedEntry}

theorem expandName_broken (h : ¬∃ parent, GoodHop entries visited name parent) :
    expandName entries (depthLeft + 1) visited name = orphanedParentPath := by
  simp only [expandName, expandParentPaths]
  split
  · rfl
  · next hfresh =>
    split
    · rfl
    · next parent hget =>
      split
      · rfl
      · next hdirectory =>
        simp only [Bool.not_eq_true', Bool.not_eq_false] at hdirectory
        split
        · next hroot =>
          split
          · rfl
          · next hactive =>
            simp only [Bool.or_eq_true, Bool.not_eq_true', not_or, Bool.not_eq_false,
              decide_eq_true_eq, ne_eq, Decidable.not_not] at hactive
            exact absurd ⟨parent, ⟨hget, fun _ => hactive,
              by simp [generationMatches, hactive.2]⟩, hdirectory, hfresh⟩ h
        · next hroot =>
          split
          · rfl
          · next hgeneration =>
            exact absurd ⟨parent, ⟨hget, fun h => absurd h hroot, by simpa using hgeneration⟩,
              hdirectory, hfresh⟩ h

theorem GoodHop.expandName_root (h : GoodHop entries visited name parent)
    (hroot : name.parentRecord = rootRecord) :
    expandName entries (depthLeft + 1) visited name =
      ⟨[⟨[], [parentNode name parent],
        if parent.attributesComplete then .exact else .incomplete⟩], true⟩ := by
  obtain ⟨hactive, hsequence⟩ := h.root hroot
  simp [expandName, expandParentPaths, hroot ▸ h.fresh, hroot ▸ h.get, h.directory, hroot, hactive,
    hsequence, parentNode]

/-- A directory without useful names leads nowhere. -/
theorem GoodHop.expandName_nameless (h : GoodHop entries visited name parent)
    (hroot : name.parentRecord ≠ rootRecord) (hnames : usefulNamespaceNames parent = []) :
    expandName entries (depthLeft + 1) visited name =
      ⟨[⟨[], [parentNode name parent], .orphaned⟩], true⟩ := by
  simp [expandName, expandParentPaths, h.fresh, h.get, h.directory, h.generation, hroot,
    parentNode, hnames]

/-- Behind a directory with useful names, the expansion goes through all of them. -/
theorem GoodHop.expandName_followed (h : GoodHop entries visited name parent)
    (hroot : name.parentRecord ≠ rootRecord) (hnames : usefulNamespaceNames parent ≠ []) :
    let expansion := expandNames
      (expandParentPaths entries depthLeft (name.parentRecord :: visited))
      (parentNode name parent) (relationState parent) (usefulNamespaceNames parent) [] true
    expandName entries (depthLeft + 1) visited name =
      if expansion.paths.isEmpty then ⟨[⟨[], [parentNode name parent], .incomplete⟩], false⟩
      else expansion := by
  simp only [expandName, expandParentPaths, h.fresh, h.get, h.directory, h.generation, hroot,
    parentNode, List.isEmpty_iff, hnames, if_false, Bool.not_true, Bool.false_eq_true]

end Levels

/-- What one level of the expansion can be. -/
inductive ExpandStep (entries : RecordMap ParsedEntry) (depthLeft : Nat) (visited : List Nat)
    (name : FileNameAttr) (e : ParentPathExpansion) : Prop where
  /-- The reference is broken, or closes a cycle. -/
  | orphaned (heq : e = orphanedParentPath)
  | root (parent : ParsedEntry) (hhop : GoodHop entries visited name parent)
      (hroot : name.parentRecord = rootRecord)
      (heq : e = ⟨[⟨[], [parentNode name parent],
        if parent.attributesComplete then .exact else .incomplete⟩], true⟩)
  /-- The parent has no name to follow. -/
  | nameless (parent : ParsedEntry) (hhop : GoodHop entries visited name parent)
      (heq : e = ⟨[⟨[], [parentNode name parent], .orphaned⟩], true⟩)
  /-- None of its names led anywhere. -/
  | deadEnd (parent : ParsedEntry) (hhop : GoodHop entries visited name parent)
      (heq : e = ⟨[⟨[], [parentNode name parent], .incomplete⟩], false⟩)
  | followed (parent : ParsedEntry) (hhop : GoodHop entries visited name parent)
      (hroot : name.parentRecord ≠ rootRecord)
      (heq : e = expandNames (expandParentPaths entries depthLeft (name.parentRecord :: visited))
        (parentNode name parent) (relationState parent) (usefulNamespaceNames parent) [] true)
      (hne : e.paths ≠ [])

theorem expandName_step (entries : RecordMap ParsedEntry) (depthLeft : Nat) (visited : List Nat)
    (name : FileNameAttr) :
    ExpandStep entries depthLeft visited name
      (expandName entries (depthLeft + 1) visited name) := by
  by_cases hgood : ∃ parent, GoodHop entries visited name parent
  · obtain ⟨parent, hhop⟩ := hgood
    by_cases hroot : name.parentRecord = rootRecord
    · exact .root parent hhop hroot (hhop.expandName_root hroot)
    · by_cases hnames : usefulNamespaceNames parent = []
      · exact .nameless parent hhop (hhop.expandName_nameless hroot hnames)
      · rw [hhop.expandName_followed hroot hnames]
        split
        · exact .deadEnd parent hhop rfl
        · next hne => exact .followed parent hhop hroot rfl (by simpa using hne)
  · exact .orphaned (expandName_broken hgood)

/-- Every ancestor of a path is reached by a chain of valid references. -/
theorem expandParentPaths_sound {depthLeft : Nat} {visited : List Nat} {name : FileNameAttr}
    {path : ParentPathEvidence} {d : NtfsNodeRef}
    (hpath : path ∈ (expandName entries depthLeft visited name).paths)
    (hd : d ∈ path.ancestors) : Chain entries Followed name d := by
  induction depthLeft generalizing visited name path with
  | zero =>
    obtain rfl := List.mem_singleton.mp hpath
    cases hd
  | succ depthLeft ih =>
    -- the parent itself is one reference away
    have hself : ∀ {parent : ParsedEntry}, ValidHop entries name parent →
        d ∈ [parentNode name parent] → Chain entries Followed name d := by
      intro parent hhop h
      obtain rfl := List.mem_singleton.mp h
      exact .hop hhop
    cases expandName_step entries depthLeft visited name with
    | orphaned heq =>
      rw [heq] at hpath
      obtain rfl := List.mem_singleton.mp hpath
      cases hd
    | root parent hhop _ heq =>
      rw [heq] at hpath
      obtain rfl := List.mem_singleton.mp hpath
      exact hself hhop.toValidHop hd
    | nameless parent hhop heq =>
      rw [heq] at hpath
      obtain rfl := List.mem_singleton.mp hpath
      exact hself hhop.toValidHop hd
    | deadEnd parent hhop heq =>
      rw [heq] at hpath
      obtain rfl := List.mem_singleton.mp hpath
      exact hself hhop.toValidHop hd
    | followed parent hhop hroot heq _ =>
      rw [heq] at hpath
      rcases mem_expandNames hpath with h | ⟨name', hname', h⟩
      · cases h
      · obtain ⟨up, hup, rfl⟩ := List.mem_map.mp h
        rcases List.mem_append.mp hd with hd | hd
        · exact .step hhop.toValidHop ⟨hroot, hname'⟩ (ih hup hd)
        · exact hself hhop.toValidHop hd

/-- The parent a valid reference leads to is unique. -/
theorem ValidHop.unique {name : FileNameAttr} {parent parent' : ParsedEntry}
    (h : ValidHop entries name parent) (h' : ValidHop entries name parent') :
    parent = parent' :=
  Option.some.inj (h.get.symm.trans h'.get)

/-- A complete expansion whose paths are all proven reaches every node that a followed
    chain reaches. -/
theorem expandParentPaths_complete {depthLeft : Nat} {visited : List Nat} {name : FileNameAttr}
    {d : NtfsNodeRef} (hcomplete : (expandName entries depthLeft visited name).complete = true)
    (hproven : ∀ path ∈ (expandName entries depthLeft visited name).paths, path.state.Proven)
    (hchain : Chain entries Followed name d) :
    ∃ path ∈ (expandName entries depthLeft visited name).paths, d ∈ path.ancestors := by
  induction depthLeft generalizing visited name with
  | zero => cases hcomplete
  | succ depthLeft ih =>
    cases expandName_step entries depthLeft visited name with
    | orphaned heq =>
      rw [heq] at hproven
      exact absurd (hproven _ List.mem_cons_self) not_proven_orphaned
    | nameless parent _ heq =>
      rw [heq] at hproven
      exact absurd (hproven _ List.mem_cons_self) not_proven_orphaned
    | deadEnd parent _ heq =>
      rw [heq] at hcomplete
      cases hcomplete
    | root parent hhop hroot heq =>
      rw [heq]
      refine ⟨_, List.mem_cons_self, ?_⟩
      -- no chain is followed behind the root
      cases hchain with
      | hop h => rw [h.unique hhop.toValidHop]; exact List.mem_cons_self
      | step h hvia _ => exact absurd hroot hvia.1
    | followed parent hhop hroot heq hne =>
      rw [heq] at hcomplete hproven hne ⊢
      obtain ⟨_, hpaths, hall⟩ := expandNames_complete hcomplete
      rw [hpaths, List.nil_append] at hproven hne ⊢
      cases hchain with
      | hop h =>
        -- every path passes through the parent
        obtain ⟨path, hpath⟩ := List.exists_mem_of_ne_nil _ hne
        obtain ⟨name', _, hmem⟩ := List.mem_flatMap.mp hpath
        obtain ⟨up, _, rfl⟩ := List.mem_map.mp hmem
        refine ⟨_, hpath, ?_⟩
        rw [h.unique hhop.toValidHop]
        exact List.mem_append_right _ List.mem_cons_self
      | @step _ name' parent' _ h hvia hrest =>
        obtain rfl := h.unique hhop.toValidHop
        have hmem : ∀ up ∈ (expandName entries depthLeft (name.parentRecord :: visited)
            name').paths, up.push name'.name (parentNode name parent') (relationState parent') ∈
              (usefulNamespaceNames parent').flatMap (namePaths
                (expandParentPaths entries depthLeft (name.parentRecord :: visited))
                (parentNode name parent') (relationState parent')) :=
          fun up hup => List.mem_flatMap.mpr ⟨name', hvia.2, List.mem_map_of_mem hup⟩
        obtain ⟨up, hup, hd⟩ := ih (hall name' hvia.2)
          (fun up hup => (mergePathState_proven.mp (hproven _ (hmem up hup))).1) hrest
        exact ⟨_, hmem up hup, List.mem_append_left _ hd⟩

/-! ## The paths of a namespace -/

/-- What the loops of `build_namespace` do to a draft, when they should add the paths
    `new`: they add them all and every expansion is complete (`ok`), or they stop at a
    budget or an incomplete expansion. -/
structure Adds (d : NamespaceDraft) (new : List NtfsNamespacePath) (ok : Prop)
    (d' : NamespaceDraft) : Prop where
  sub : ∀ path ∈ d'.paths, path ∈ d.paths ∨ path ∈ new
  full : (d'.complete = d.complete ∧ d'.budgetReached = d.budgetReached ∧
      d'.paths = d.paths ++ new ∧ ok) ∨
    (d'.complete = false ∧ d'.budgetReached = true)

variable {d d₁ d₂ : NamespaceDraft} {new new₁ new₂ : List NtfsNamespacePath} {ok ok₁ ok₂ : Prop}

theorem Adds.refl : Adds d [] True d := ⟨fun _ h => .inl h, .inl ⟨rfl, rfl, by simp, trivial⟩⟩

/-- A draft that a bound cut short added some of the paths. -/
theorem Adds.exhausted (hsub : ∀ path ∈ d₁.paths, path ∈ d.paths ∨ path ∈ new) :
    Adds d new ok d₁.exhausted := ⟨hsub, .inr ⟨rfl, rfl⟩⟩

theorem Adds.trans (h₁ : Adds d new₁ ok₁ d₁) (h₂ : Adds d₁ new₂ ok₂ d₂) :
    Adds d (new₁ ++ new₂) (ok₁ ∧ ok₂) d₂ where
  sub path hpath := by
    rcases h₂.sub path hpath with h | h
    · exact (h₁.sub path h).imp id (List.mem_append_left new₂)
    · exact .inr (List.mem_append_right new₁ h)
  full := by
    rcases h₂.full with ⟨hcomplete, hbudget, hpaths, hok⟩ | h
    · rcases h₁.full with ⟨hcomplete', hbudget', hpaths', hok'⟩ | ⟨hcomplete', hbudget'⟩
      · exact .inl ⟨hcomplete.trans hcomplete', hbudget.trans hbudget',
          by rw [hpaths, hpaths', List.append_assoc], hok', hok⟩
      · exact .inr ⟨hcomplete.trans hcomplete', hbudget.trans hbudget'⟩
    · exact .inr h

theorem Adds.imp (h : Adds d new ok₁ d₁) (hok : ok₁ → ok₂) : Adds d new ok₂ d₁ :=
  ⟨h.sub, h.full.imp (fun ⟨hc, hb, hp, ho⟩ => ⟨hc, hb, hp, hok ho⟩) id⟩

/-- A loop that stopped counts as one that never completes. -/
def NamespaceStep.Adds (d : NamespaceDraft) (new : List NtfsNamespacePath) (ok : Prop) :
    NamespaceStep → Prop
  | .next d' => Ntfs.Adds d new ok d'
  | .stop d' => Ntfs.Adds d new False d'

theorem Adds.stopped (h : Adds d new₁ False d₁) (hsub : ∀ path ∈ new₁, path ∈ new₂) :
    Adds d new₂ ok d₁ where
  sub path hpath := (h.sub path hpath).imp id (hsub path)
  full := .inr (h.full.resolve_left fun hfull => hfull.2.2.2)

/-- A loop whose body went on, and then the rest of the loop. -/
theorem NamespaceStep.Adds.bind {s : NamespaceStep} {rest : NamespaceDraft → NamespaceStep} :
    s.Adds d new₁ ok₁ → (∀ d₁, (rest d₁).Adds d₁ new₂ ok₂) →
    NamespaceStep.Adds d (new₁ ++ new₂) (ok₁ ∧ ok₂)
      (match s with | .next d₁ => rest d₁ | .stop d₁ => .stop d₁) := by
  intro h₁ h₂
  cases s with
  | stop d₁ => exact Ntfs.Adds.stopped h₁ fun _ h => List.mem_append_left new₂ h
  | next d₁ =>
    have hrest := h₂ d₁
    revert hrest
    simp only
    cases rest d₁ with
    | next d₂ => exact Ntfs.Adds.trans h₁
    | stop d₂ => exact fun hrest => (Ntfs.Adds.trans h₁ hrest).imp And.right

/-- A loop that starts from a draft which was changed first. -/
theorem NamespaceStep.Adds.after {s : NamespaceStep} (h₁ : Ntfs.Adds d new₁ ok₁ d₁)
    (h₂ : s.Adds d₁ new₂ ok₂) : s.Adds d (new₁ ++ new₂) (ok₁ ∧ ok₂) := by
  cases s with
  | next d₂ => exact Ntfs.Adds.trans h₁ h₂
  | stop d₂ => exact (Ntfs.Adds.trans h₁ h₂).imp And.right

theorem NamespaceStep.Adds.imp {s : NamespaceStep} (h : s.Adds d new ok₁) (hok : ok₁ → ok₂) :
    s.Adds d new ok₂ := by
  cases s with
  | next d' => exact Ntfs.Adds.imp h hok
  | stop d' => exact h

section Records

variable (entries) (record : Nat) (entry : ParsedEntry)

theorem addParentPaths_adds (name : FileNameAttr) (parents : List ParentPathEvidence)
    (d : NamespaceDraft) : (addParentPaths record entry name parents d).Adds d
      (parents.map (namespacePath record entry name)) True := by
  induction parents generalizing d with
  | nil => exact .refl
  | cons parent parents ih =>
    simp only [addParentPaths]
    split
    · exact .exhausted fun _ h => .inl h
    · split
      · exact .exhausted fun _ h => .inl h
      · next componentsUsed _ =>
        have hone : Adds d [namespacePath record entry name parent] True
            { d with componentsUsed
                     paths := d.paths ++ [namespacePath record entry name parent] } :=
          ⟨fun _ h => List.mem_append.mp h, .inl ⟨rfl, rfl, rfl, trivial⟩⟩
        exact (NamespaceStep.Adds.after hone (ih _)).imp fun _ => trivial

/-- The paths that one name of a record contributes. -/
def nameEvidence (name : FileNameAttr) : List NtfsNamespacePath :=
  (expandName entries maxPathDepth [record] name).paths.map (namespacePath record entry name)

theorem addNames_adds (names : List FileNameAttr) (d : NamespaceDraft) :
    (addNames entries record entry names d).Adds d
      (names.flatMap (nameEvidence entries record entry))
      (∀ name ∈ names, (expandName entries maxPathDepth [record] name).complete = true) := by
  induction names generalizing d with
  | nil => exact Adds.refl.imp (by simp)
  | cons name names ih =>
    simp only [addNames]
    split
    · exact .exhausted fun _ h => .inl h
    · -- an incomplete expansion exhausts the draft, but its paths are still added
      have hstart : Adds d [] ((expandName entries maxPathDepth [record] name).complete = true)
          (if (expandName entries maxPathDepth [record] name).complete then d
            else d.exhausted) := by
        split
        · next h => exact Adds.refl.imp fun _ => h
        · exact .exhausted fun _ h => .inl h
      have hname := NamespaceStep.Adds.after hstart (addParentPaths_adds record entry name
        (expandName entries maxPathDepth [record] name).paths _)
      rw [List.flatMap_cons]
      exact (hname.bind ih).imp fun h => List.forall_mem_cons.mpr ⟨h.1.1, h.2⟩

/-- The paths that one record contributes; the root itself has none. -/
def recordEvidence (record : Nat) : List NtfsNamespacePath :=
  if record = rootRecord then []
  else match entries.get? record with
    | none => []
    | some entry => (usefulNamespaceNames entry).flatMap (nameEvidence entries record entry)

theorem mem_recordEvidence {record : Nat} {path : NtfsNamespacePath} :
    path ∈ recordEvidence entries record ↔ record ≠ rootRecord ∧
      ∃ entry, entries.get? record = some entry ∧ ∃ name ∈ usefulNamespaceNames entry,
        path ∈ nameEvidence entries record entry name := by
  unfold recordEvidence
  split
  · next h => simp [h]
  · next h => cases hentry : entries.get? record <;> simp [h]

/-- Every expansion that the paths of a record rest on is complete. -/
def Expanded (record : Nat) : Prop :=
  record ≠ rootRecord → ∀ entry, entries.get? record = some entry →
    ∀ name ∈ usefulNamespaceNames entry,
      (expandName entries maxPathDepth [record] name).complete = true

theorem addRecords_adds (records : List Nat) (d : NamespaceDraft) :
    Adds d (records.flatMap (recordEvidence entries))
      (∀ record ∈ records, Expanded entries record) (addRecords entries records d) := by
  induction records generalizing d with
  | nil => exact Adds.refl.imp (by simp)
  | cons record records ih =>
    simp only [addRecords]
    -- a record without evidence leaves the draft alone
    have hskip (hnone : recordEvidence entries record = []) (hexpanded : Expanded entries record) :
        Adds d ((record :: records).flatMap (recordEvidence entries))
          (∀ record' ∈ record :: records, Expanded entries record')
          (addRecords entries records d) := by
      rw [List.flatMap_cons, hnone, List.nil_append]
      exact (ih d).imp fun h => List.forall_mem_cons.mpr ⟨hexpanded, h⟩
    split
    · next hroot => exact hskip (if_pos hroot) (absurd hroot)
    · next hroot =>
      split
      · next hentry =>
        refine hskip (by simp [recordEvidence, hroot, hentry]) fun _ entry h => ?_
        rw [hentry] at h
        cases h
      · next entry hentry =>
        have hevidence : recordEvidence entries record =
            (usefulNamespaceNames entry).flatMap (nameEvidence entries record entry) := by
          simp [recordEvidence, hroot, hentry]
        have hnames := addNames_adds entries record entry (usefulNamespaceNames entry) d
        revert hnames
        cases addNames entries record entry (usefulNamespaceNames entry) d with
        | next d' =>
          intro hnames
          rw [List.flatMap_cons, hevidence]
          refine (hnames.trans (ih d')).imp fun h => List.forall_mem_cons.mpr ⟨?_, h.2⟩
          intro _ entry' hentry'
          obtain rfl := Option.some.inj (hentry.symm.trans hentry')
          exact h.1
        | stop d' =>
          intro hnames
          refine hnames.stopped fun path h => ?_
          rw [List.flatMap_cons, hevidence]
          exact List.mem_append_left _ h

end Records

/-- The paths of a namespace come from the records, and there are all of them when the
    namespace is complete or no budget was reached. -/
theorem buildNamespace_adds (entries : RecordMap ParsedEntry) (scanComplete : Bool) :
    (∀ path ∈ (buildNamespace entries scanComplete).1.paths,
      path ∈ recordEvidence entries path.node.record) ∧
    ((buildNamespace entries scanComplete).1.isComplete = true ∨
        (buildNamespace entries scanComplete).2 = [] →
      ∀ record, Expanded entries record ∧ ∀ path ∈ recordEvidence entries record,
        path ∈ (buildNamespace entries scanComplete).1.paths) := by
  have hadds := addRecords_adds entries (entries.keys.insertionSort (· ≤ ·))
    { complete := scanComplete }
  have hnode : ∀ record, ∀ path ∈ recordEvidence entries record, path.node.record = record := by
    intro record path hpath
    obtain ⟨_, entry, _, name, _, hpath⟩ := (mem_recordEvidence entries).mp hpath
    obtain ⟨up, _, rfl⟩ := List.mem_map.mp hpath
    rfl
  simp only [buildNamespace, List.mem_insertionSort]
  constructor
  · intro path hpath
    obtain ⟨record, _, hmem⟩ := List.mem_flatMap.mp
      ((hadds.sub path hpath).resolve_left List.not_mem_nil)
    rwa [hnode record path hmem]
  · intro hend record
    obtain ⟨_, _, hpaths, hexpanded⟩ := hadds.full.resolve_right (by
      rintro ⟨hcomplete, hbudget⟩
      rcases hend with h | h
      · simp [hcomplete] at h
      · simp [hbudget] at h)
    have hkey : ∀ {entry}, entries.get? record = some entry →
        record ∈ entries.keys.insertionSort (· ≤ ·) := fun h =>
      (List.mem_insertionSort _).mpr (RecordMap.mem_keys_iff.mpr ⟨_, h⟩)
    refine ⟨fun hroot entry hentry => hexpanded record (hkey hentry) hroot entry hentry, ?_⟩
    intro path hpath
    obtain ⟨_, entry, hentry, _⟩ := (mem_recordEvidence entries).mp hpath
    rw [hpaths]
    exact List.mem_append_right _ (List.mem_flatMap.mpr ⟨record, hkey hentry, hpath⟩)

/-- A namespace is only complete when the scan of the records was. -/
theorem buildNamespace_isComplete {entries : RecordMap ParsedEntry} {scanComplete : Bool}
    (h : (buildNamespace entries scanComplete).1.isComplete = true) : scanComplete = true := by
  have hadds := addRecords_adds entries (entries.keys.insertionSort (· ≤ ·))
    { complete := scanComplete }
  rcases hadds.full with ⟨hcomplete, _⟩ | ⟨hcomplete, _⟩
  · exact hcomplete.symm.trans h
  · exact absurd (hcomplete.symm.trans h) Bool.false_ne_true

/-! ## Folder membership -/

/-- A name of `c` starts a chain of references to `d`. -/
def InFolder (entries : RecordMap ParsedEntry) (via : Nat → ParsedEntry → FileNameAttr → Prop)
    (c d : NtfsNodeRef) : Prop :=
  ∃ entry, entries.get? c.record = some entry ∧ entry.sequence = c.sequence ∧
    ∃ name ∈ usefulNamespaceNames entry, Chain entries via name d

theorem mem_pathsOf_iff {ns : NtfsNamespace} {c : NtfsNodeRef} {path : NtfsNamespacePath} :
    path ∈ ns.pathsOf c ↔ path ∈ ns.paths ∧ path.node = c := by
  simp [NtfsNamespace.pathsOf]

/-- A path of a namespace that passes through `d` starts a chain to `d`. -/
theorem recordEvidence_inFolder {path : NtfsNamespacePath} {d : NtfsNodeRef}
    (hpath : path ∈ recordEvidence entries path.node.record) (hd : d ∈ path.ancestors) :
    InFolder entries Followed path.node d := by
  obtain ⟨_, entry, hentry, name, hname, hpath⟩ := (mem_recordEvidence entries).mp hpath
  obtain ⟨up, hup, heq⟩ := List.mem_map.mp hpath
  refine ⟨entry, hentry, by rw [← heq]; rfl, name, hname, expandParentPaths_sound hup ?_⟩
  rw [← heq] at hd
  exact hd

/-- Where a name has a complete and proven expansion, its chains are all seen. -/
theorem inFolder_recordEvidence {c d : NtfsNodeRef} {entry : ParsedEntry} {name : FileNameAttr}
    (hroot : c.record ≠ rootRecord) (hentry : entries.get? c.record = some entry)
    (hsequence : entry.sequence = c.sequence) (hname : name ∈ usefulNamespaceNames entry)
    (hexpanded : Expanded entries c.record)
    (hproven : ∀ path ∈ recordEvidence entries c.record, path.node = c → path.state.Proven)
    (hchain : Chain entries Followed name d) :
    ∃ path ∈ recordEvidence entries c.record, path.node = c ∧ d ∈ path.ancestors := by
  have hmem : ∀ up ∈ (expandName entries maxPathDepth [c.record] name).paths,
      namespacePath c.record entry name up ∈ recordEvidence entries c.record := fun up hup =>
    (mem_recordEvidence entries).mpr
      ⟨hroot, entry, hentry, name, hname, List.mem_map_of_mem hup⟩
  have hnode : ∀ up, (namespacePath c.record entry name up).node = c := fun up => by
    simp [namespacePath, hsequence]
  obtain ⟨up, hup, hd⟩ := expandParentPaths_complete (hexpanded hroot entry hentry name hname)
    (fun up hup => (mergePathState_proven.mp (hproven _ (hmem up hup) (hnode up))).1) hchain
  exact ⟨_, hmem up hup, hnode up, hd⟩

/-- Folder membership agrees with the chains of references that the scanner follows. -/
theorem classifyCandidate_chain (entries : RecordMap ParsedEntry) (scanComplete : Bool)
    (c d : NtfsNodeRef) :
    let ns := (buildNamespace entries scanComplete).1
    (ns.classifyCandidate c d = .isMatch → InFolder entries Followed c d) ∧
    (ns.classifyCandidate c d = .noMatch → ¬InFolder entries Followed c d) := by
  obtain ⟨hsub, hall⟩ := buildNamespace_adds entries scanComplete
  simp only [NtfsNamespace.classifyCandidate]
  split
  · exact ⟨nofun, nofun⟩
  · simp only [NtfsNamespace.classifyIndexed]
    split
    · next hany =>
      refine ⟨fun _ => ?_, nofun⟩
      obtain ⟨path, hpath, hd⟩ := List.any_eq_true.mp hany
      obtain ⟨hpath, hnode⟩ := mem_pathsOf_iff.mp hpath
      exact hnode ▸ recordEvidence_inFolder (hsub path hpath) (List.contains_iff_mem.mp hd)
    · next hnone =>
      split
      · exact ⟨nofun, nofun⟩
      · next hknown =>
        refine ⟨nofun, fun _ => ?_⟩
        rintro ⟨entry, hentry, hsequence, name, hname, hchain⟩
        simp only [Bool.or_eq_true, not_or, Bool.not_eq_true', Bool.not_eq_false,
          List.any_eq_true, not_exists, not_and, List.isEmpty_iff] at hknown
        obtain ⟨⟨hne, hcomplete⟩, hproven⟩ := hknown
        obtain ⟨path₀, hpath₀⟩ := List.exists_mem_of_ne_nil _ hne
        obtain ⟨hpath₀, hnode₀⟩ := mem_pathsOf_iff.mp hpath₀
        have hroot : c.record ≠ rootRecord :=
          hnode₀ ▸ ((mem_recordEvidence entries).mp (hsub path₀ hpath₀)).1
        obtain ⟨hexpanded, hpaths⟩ := hall (.inl hcomplete) c.record
        obtain ⟨path, hpath, hnode, hd⟩ := inFolder_recordEvidence hroot hentry hsequence hname
          hexpanded (fun path hpath hnode => by
            have hstate := hproven path (mem_pathsOf_iff.mpr ⟨hpaths path hpath, hnode⟩)
            simpa [NtfsPathState.Proven] using hstate) hchain
        exact hnone (List.any_eq_true.mpr ⟨path, mem_pathsOf_iff.mpr ⟨hpaths path hpath, hnode⟩,
          List.contains_iff_mem.mpr hd⟩)

/-- A record that holds `names` and nothing else. -/
def namedEntry (inUse : Bool) (names : List FileNameAttr) : ParsedEntry where
  sequence := 1
  inUse := inUse
  isDirectory := inUse
  bestName := pickBestName names
  names := names
  attributesComplete := true
  stdInfo := {}
  streams := []
  recordPhysOffset := 0
  warnings := []

/-- A name in the first generation of record `parent`. -/
def namedIn (parent namespaceId : Nat) (name : String) : FileNameAttr :=
  ⟨parent, 1, namespaceId, name, 0, 0⟩

/-- A tree in which directory 21 is reached from file 40 through the DOS name of its
    parent, and from file 41 through the name of the root. -/
def aliasedTree : RecordMap ParsedEntry where
  toList := [(5, namedEntry true [namedIn 21 3 "."]),
    (20, namedEntry true [namedIn 5 1 "long name", namedIn 21 2 "LONGNA~1"]),
    (21, namedEntry true [namedIn 5 1 "aside"]),
    (40, namedEntry false [namedIn 20 1 "a"]),
    (41, namedEntry false [namedIn 5 1 "b"])]
  nodup := by decide

/-- Chains through any name of a record, or past the root, are not followed. -/
theorem aliasedTree_noMatch :
    let ns := (buildNamespace aliasedTree true).1
    let anyName := fun (_ : Nat) (parent : ParsedEntry) (name : FileNameAttr) =>
      name ∈ parent.names
    let usefulName := fun (_ : Nat) (parent : ParsedEntry) (name : FileNameAttr) =>
      name ∈ usefulNamespaceNames parent
    (ns.classifyCandidate ⟨40, 1⟩ ⟨21, 1⟩ = .noMatch ∧
      InFolder aliasedTree anyName ⟨40, 1⟩ ⟨21, 1⟩) ∧
    (ns.classifyCandidate ⟨41, 1⟩ ⟨21, 1⟩ = .noMatch ∧
      InFolder aliasedTree usefulName ⟨41, 1⟩ ⟨21, 1⟩) := by
  have hroot : ValidHop aliasedTree (namedIn 5 1 "b")
      (namedEntry true [namedIn 21 3 "."]) := ⟨rfl, fun _ => ⟨rfl, rfl⟩, rfl⟩
  have hparent : ValidHop aliasedTree (namedIn 20 1 "a")
      (namedEntry true [namedIn 5 1 "long name", namedIn 21 2 "LONGNA~1"]) :=
    ⟨rfl, by decide, rfl⟩
  have haside (id : Nat) (name : String) : ValidHop aliasedTree (namedIn 21 id name)
      (namedEntry true [namedIn 5 1 "aside"]) :=
    ⟨rfl, fun h => absurd h (show ¬21 = 5 by decide), rfl⟩
  refine ⟨⟨by decide +kernel, _, rfl, rfl, namedIn 20 1 "a", by decide, ?_⟩,
    ⟨by decide +kernel, _, rfl, rfl, namedIn 5 1 "b", by decide, ?_⟩⟩
  · exact .step hparent (List.mem_cons_of_mem _ List.mem_cons_self) (.hop (haside 2 "LONGNA~1"))
  · exact .step hroot (by decide) (.hop (haside 3 "."))

end Undelete.Ntfs
