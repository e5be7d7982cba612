import Undelete.Spec.CollisionCorrect

/-!
# The names of a job

Each name that a restore job uses in a directory denotes an entry of that directory: it is not
empty, no dot and no two dots, and it has no separator. This holds of the names a job makes up
itself, of the components of a safe path, and of the names behind a collision.
-/

namespace Undelete.Restore

/-- A name that the system resolves to an entry of the directory it is used in. -/
structure IsEntry (name : String) : Prop where
  nonempty : name.toList ≠ []
  here : name.toList ≠ ['.']
  up : name.toList ≠ ['.', '.']
  separators : ∀ c ∈ name.toList, c ≠ '/' ∧ c ≠ '\\'

theorem SafeComponent.isEntry {name : String} (h : SafeComponent name.toList) : IsEntry name where
  nonempty := h.nonempty
  here := by
    intro heq
    have hlast := h.last.1
    rw [heq] at hlast
    exact hlast rfl
  up := by
    intro heq
    have hlast := h.last.1
    rw [heq] at hlast
    exact hlast rfl
  separators := by
    intro c hc
    have hplain := h.plain c hc
    unfold isPlain at hplain
    simp only [Bool.and_eq_true, decide_eq_true_eq] at hplain
    exact hplain.1.1

/-! ## Characters -/

/-- The characters of the names that a job makes up. -/
def isJobNameChar (c : Char) : Bool :=
  ".-0123456789abcdefghijklmnopqrstuvwxyz".toList.contains c

theorem isJobNameChar_spec {c : Char} (h : isJobNameChar c = true) : c ≠ '/' ∧ c ≠ '\\' := by
  have hall : ∀ c ∈ ".-0123456789abcdefghijklmnopqrstuvwxyz".toList, c ≠ '/' ∧ c ≠ '\\' :=
    forall_mem_of_all (by decide)
  exact hall c (List.contains_iff_mem.mp h)

/-- A name of such characters that is long enough. -/
theorem isEntry_of_chars {name : String} (h : name.toList.all isJobNameChar = true)
    (hlength : 3 ≤ name.toList.length) : IsEntry name where
  nonempty := by
    intro heq
    rw [heq] at hlength
    simp at hlength
  here := by
    intro heq
    rw [heq] at hlength
    simp at hlength
  up := by
    intro heq
    rw [heq] at hlength
    simp at hlength
  separators := fun c hc => isJobNameChar_spec (List.all_eq_true.mp h c hc)

theorem digit_of_mem_toDigits {b n : Nat} (hb : 1 < b) {c : Char} (h : c ∈ Nat.toDigits b n) :
    ∃ d < b, c = d.digitChar := by
  induction n using Nat.strongRecOn with
  | ind n ih =>
    rw [Nat.toDigits_eq_if hb] at h
    split at h
    · next hlt => exact ⟨n, hlt, List.mem_singleton.mp h⟩
    · next hge =>
      rcases List.mem_append.mp h with h | h
      · exact ih (n / b) (Nat.div_lt_self (by omega) hb) h
      · exact ⟨n % b, Nat.mod_lt n (by omega), List.mem_singleton.mp h⟩

theorem isJobNameChar_toDigits {b n : Nat} (hb : 1 < b) (hb' : b ≤ 16) :
    (Nat.toDigits b n).all isJobNameChar = true := by
  have hall : ∀ d < 16, isJobNameChar d.digitChar = true := by decide
  rw [List.all_eq_true]
  intro c hc
  obtain ⟨d, hd, rfl⟩ := digit_of_mem_toDigits hb hc
  exact hall d (by omega)

theorem isJobNameChar_padDigits {width : Nat} {digits : List Char}
    (h : digits.all isJobNameChar = true) :
    (padDigits width digits).toList.all isJobNameChar = true := by
  have hzero : (List.replicate (width - digits.length) '0').all isJobNameChar = true := by
    rw [List.all_eq_true]
    intro c hc
    rw [List.eq_of_mem_replicate hc]
    decide
  rw [padDigits, String.toList_ofList, List.all_append, hzero, h, Bool.and_self]

theorem isJobNameChar_hexPadded (width n : Nat) :
    (hexPadded width n).toList.all isJobNameChar = true :=
  isJobNameChar_padDigits (isJobNameChar_toDigits (by decide) (by decide))

theorem isJobNameChar_decimalPadded (width n : Nat) :
    (decimalPadded width n).toList.all isJobNameChar = true :=
  isJobNameChar_padDigits (isJobNameChar_toDigits (by decide) (by decide))

theorem isJobNameChar_hashChar {c : Char} (h : isHashChar c = true) : isJobNameChar c = true := by
  have hall : ∀ c ∈ "recovered-0123456789abcdef".toList, isJobNameChar c = true :=
    forall_mem_of_all (by decide)
  exact hall c (List.contains_iff_mem.mp h)

/-! ## The names -/

theorem temporaryName_isEntry {label : String} (candidateId attempt : Nat)
    (hlabel : label.toList.all isJobNameChar = true) :
    IsEntry (temporaryName candidateId label attempt) := by
  have hhead : ".um-".toList.all isJobNameChar = true := by decide
  have hdash : "-".toList.all isJobNameChar = true := by decide
  have htail : ".umrecovering".toList.all isJobNameChar = true := by decide
  apply isEntry_of_chars
  · unfold temporaryName
    simp only [String.toList_append, List.all_append, hhead, hdash, htail, hlabel,
      isJobNameChar_hexPadded, isJobNameChar_decimalPadded, Bool.and_self]
  · have hlength : ".umrecovering".toList.length = 13 := rfl
    unfold temporaryName
    rw [String.toList_append, List.length_append, hlength]
    omega

theorem partialSidecarBaseName_isEntry (itemIndex candidateId : Nat) :
    IsEntry (partialSidecarBaseName (restoreItemKey itemIndex candidateId)) := by
  have hhead : ".um-partial-".toList.all isJobNameChar = true := by decide
  have hdash : "-".toList.all isJobNameChar = true := by decide
  have htail : ".json".toList.all isJobNameChar = true := by decide
  apply isEntry_of_chars
  · unfold partialSidecarBaseName restoreItemKey
    simp only [String.toList_append, List.all_append, hhead, hdash, htail,
      isJobNameChar_hexPadded, isJobNameChar_decimalPadded, Bool.and_self]
  · have hlength : ".json".toList.length = 5 := rfl
    unfold partialSidecarBaseName
    rw [String.toList_append, List.length_append, hlength]
    omega

theorem jobDirectoryComponent_isEntry (sha256 : Bytes → Digest) (jobId : String) :
    IsEntry (jobDirectoryComponent sha256 jobId) := by
  have hhead : ".um-recovery-".toList.all isJobNameChar = true := by decide
  apply isEntry_of_chars
  · unfold jobDirectoryComponent
    rw [String.toList_append, List.all_append, hhead, Bool.true_and, String.toList_ofList,
      List.all_eq_true]
    intro c hc
    exact isJobNameChar_hashChar (isHashChar_hexLower (List.mem_of_mem_take hc))
  · have hlength : ".um-recovery-".toList.length = 13 := rfl
    unfold jobDirectoryComponent
    rw [String.toList_append, List.length_append, hlength]
    omega

theorem journalName_isEntry : IsEntry journalName :=
  isEntry_of_chars (by decide) (by decide)

theorem manifestName_isEntry : IsEntry manifestName :=
  isEntry_of_chars (by decide) (by decide)

theorem component_isEntry {path : SafeRelativePath} {component : String}
    (h : component ∈ path.components) : IsEntry component := by
  obtain ⟨_, _, hcomponents, _⟩ := checkPath_eq_ok.mp path.safe
  exact (hcomponents component h).isEntry

theorem fileName_mem (path : SafeRelativePath) : path.fileName ∈ path.components := by
  obtain ⟨hlength, _⟩ := checkPath_eq_ok.mp path.safe
  have hne : path.components ≠ [] := fun heq => hlength (by rw [heq, List.length_nil])
  rw [SafeRelativePath.fileName, List.getLastD_eq_getLast?, List.getLast?_eq_some_getLast hne]
  exact List.getLast_mem hne

/-- A name behind a collision is checked before it is used, or it is made of a hash. -/
theorem collisionName_isEntry {sha256 : Bytes → Digest} {base : String} (collisionIndex : Nat)
    (hbase : IsEntry base) : IsEntry (collisionName sha256 base collisionIndex) := by
  unfold collisionName
  split
  · exact hbase
  · dsimp only
    split
    · next path hpath =>
      have hsafe := path.safe
      rw [tryFromComponents_eq_ok.mp hpath] at hsafe
      exact (checkPath_singleton.mp hsafe).isEntry
    · have hhash := nameHash_safe sha256 (collisionCandidate base collisionIndex)
      apply SafeComponent.isEntry
      rw [String.toList_append, ← nameHash,
        @String.toList_ofList (nameHash sha256 (collisionCandidate base collisionIndex))]
      exact hhash

end Undelete.Restore
