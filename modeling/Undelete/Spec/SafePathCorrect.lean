import Mathlib.Data.List.TakeWhile
import Undelete.ForStd.Except
import Undelete.Native.Restore.Path
import Undelete.Spec.HashCorrect

/-!
# Derived destination paths

A path derived for a recovery keeps the names that are safe and replaces the others by a
hash. The replacement is safe whatever the hash is, so the derived path passes the checks of
`try_from_components` and only the bounds on depth, length and evidence can fail.

## Key results

- `validateComponent_eq_ok`: what a safe component is.
- `fallbackComponent_safe`: the replacement is one.
- `deriveForRecovery_spec`: the derived path and its evidence, and what fails.
-/

namespace Undelete.Restore

open Except

/-! ## Safe components -/

/-- A character that may stand anywhere in a component. -/
def isPlain (c : Char) : Bool :=
  c ≠ '/' && c ≠ '\\' && !isControl c && !"<>:\"|?*".toList.contains c

/-- What `validate_component` accepts. -/
structure SafeComponent (value : List Char) : Prop where
  nonempty : value ≠ []
  plain : ∀ c ∈ value, isPlain c = true
  last : value.getLast? ≠ some '.' ∧ value.getLast? ≠ some ' '
  notReserved : isReservedWindowsName value = false
  short : utf16Count value ≤ maxSafeComponentUtf16

theorem all_isPlain {value : List Char} :
    (∀ c ∈ value, isPlain c = true) ↔ ¬(value.contains '/' ∨ value.contains '\\') ∧
      ¬value.any isControl ∧ ¬value.any ("<>:\"|?*".toList.contains ·) := by
  simp only [isPlain, Bool.and_eq_true, Bool.not_eq_true', decide_eq_true_eq, not_or,
    List.contains_iff_mem, List.any_eq_true, not_exists, not_and, Bool.not_eq_true]
  constructor
  · intro h
    exact ⟨⟨fun hc => (h _ hc).1.1.1 rfl, fun hc => (h _ hc).1.1.2 rfl⟩,
      fun c hc => (h c hc).1.2, fun c hc => by simpa using (h c hc).2⟩
  · intro ⟨⟨hslash, hback⟩, hcontrol, hforbidden⟩ c hc
    exact ⟨⟨⟨fun heq => hslash (heq ▸ hc), fun heq => hback (heq ▸ hc)⟩, hcontrol c hc⟩,
      by simpa using hforbidden c hc⟩

/-- The index stands in the errors only. -/
theorem validateComponent_eq_ok {value : List Char} {index : Nat} :
    validateComponent value index = .ok () ↔ SafeComponent value := by
  unfold validateComponent
  simp only [throw_bind, ite_throw_eq_ok, pure_eq_ok]
  constructor
  · intro ⟨hempty, _, hseparator, hcontrol, hforbidden, hlast, hreserved, hlength, _⟩
    exact ⟨by simpa using hempty, all_isPlain.mpr ⟨hseparator, hcontrol, hforbidden⟩,
      not_or.mp hlast, by simpa using hreserved, Nat.le_of_not_lt hlength⟩
  · intro h
    obtain ⟨hseparator, hcontrol, hforbidden⟩ := all_isPlain.mp h.plain
    refine ⟨by simpa using h.nonempty, ?_, hseparator, hcontrol, hforbidden, not_or.mpr h.last,
      by simp [h.notReserved], Nat.not_lt_of_le h.short, trivial⟩
    intro htraversal
    cases htraversal with
    | inl hdot => exact h.last.1 (hdot ▸ rfl)
    | inr hdots => exact h.last.1 (hdots ▸ rfl)

theorem utf16Count_append (left right : List Char) :
    utf16Count (left ++ right) = utf16Count left + utf16Count right := by
  rw [utf16Count, List.map_append, List.sum_append]
  rfl

theorem utf16Count_eq_length {value : List Char} (h : ∀ c ∈ value, c.toNat < 0x10000) :
    utf16Count value = value.length := by
  induction value with
  | nil => rfl
  | cons c value ih =>
    have hrest := ih fun c' hc' => h c' (List.mem_cons_of_mem c hc')
    unfold utf16Count at hrest ⊢
    rw [List.map_cons, List.sum_cons, if_pos (h c List.mem_cons_self), hrest, List.length_cons,
      Nat.add_comm]

/-- A device name has at most seven letters. -/
theorem notReserved_of_length {value : List Char}
    (h : 7 < (value.takeWhile (· ≠ '.')).length) : isReservedWindowsName value = false := by
  have hdevice : ∀ device ∈ ["CON", "PRN", "AUX", "NUL", "CONIN$", "CONOUT$"],
      device.toList.length ≤ 7 := by decide
  have hnumbered : ∀ device : List Char,
      isNumberedDevice ((value.takeWhile (· ≠ '.')).map toUppercase) device = false := by
    intro device
    unfold isNumberedDevice
    split
    · next suffix heq =>
      have hrest := congrArg (fun parts => parts.2.length) heq
      simp only [List.splitAt_eq, List.length_drop, List.length_map, List.length_singleton] at hrest
      omega
    · rfl
  show (_ || isNumberedDevice _ _ || isNumberedDevice _ _) = false
  rw [hnumbered, hnumbered, Bool.or_false, Bool.or_false, Bool.eq_false_iff, ne_eq,
    List.any_eq_true]
  intro ⟨device, hmem, heq⟩
  have hlength := hdevice device hmem
  rw [eq_of_beq heq, List.length_map] at hlength
  omega

/-! ## The replacement -/

/-- A property of listed characters, checked one by one. -/
theorem forall_mem_of_all {xs : List Char} {p : Char → Prop} [DecidablePred p]
    (h : xs.all (fun c => decide (p c)) = true) : ∀ c ∈ xs, p c := fun c hc =>
  of_decide_eq_true (List.all_eq_true.mp h c hc)

/-- The characters of a name made of a hash. -/
def isHashChar (c : Char) : Bool := "recovered-0123456789abcdef".toList.contains c

theorem isHashChar_spec {c : Char} (h : isHashChar c = true) :
    isPlain c = true ∧ c ≠ '.' ∧ c ≠ ' ' ∧ c.toNat < 0x10000 := by
  have hall : ∀ c ∈ "recovered-0123456789abcdef".toList,
      isPlain c = true ∧ c ≠ '.' ∧ c ≠ ' ' ∧ c.toNat < 0x10000 := forall_mem_of_all (by decide)
  exact hall c (List.contains_iff_mem.mp h)

theorem isHashChar_hexDigit (n : Fin 16) : isHashChar (hexDigit (UInt8.ofNat n)) = true := by
  revert n
  decide

theorem isHashChar_hexLower {bytes : Bytes} {c : Char} (h : c ∈ (hexLower bytes).toList) :
    isHashChar c = true := by
  rw [hexLower, String.toList_ofList] at h
  obtain ⟨byte, -, hc⟩ := List.mem_flatMap.mp h
  obtain ⟨high, low, hhigh, hlow, -⟩ := nibbles byte
  rw [hhigh, hlow] at hc
  cases List.mem_cons.mp hc with
  | inl heq => exact heq ▸ isHashChar_hexDigit high
  | inr hmem => exact List.mem_singleton.mp hmem ▸ isHashChar_hexDigit low

/-- A name made of a hash is safe. -/
theorem hashName_safe {digits : List Char} (h : ∀ c ∈ digits, isHashChar c = true)
    (hlength : digits.length ≤ 64) : SafeComponent ("recovered-".toList ++ digits) := by
  have hchars : ∀ c ∈ "recovered-".toList ++ digits, isHashChar c = true := by
    intro c hc
    cases List.mem_append.mp hc with
    | inl hleft =>
      have hall : "recovered-".toList.all isHashChar := by decide
      exact List.all_eq_true.mp hall c hleft
    | inr hright => exact h c hright
  have hcount := utf16Count_eq_length fun c hc => (isHashChar_spec (hchars c hc)).2.2.2
  have hdot : ("recovered-".toList ++ digits).takeWhile (· ≠ '.') = "recovered-".toList ++ digits :=
    List.takeWhile_eq_self_iff.mpr fun c hc => decide_eq_true (isHashChar_spec (hchars c hc)).2.1
  have hten : "recovered-".toList.length = 10 := rfl
  refine ⟨List.append_ne_nil_of_left_ne_nil (by decide) _, fun c hc => (isHashChar_spec
    (hchars c hc)).1, ⟨fun hlast => ?_, fun hlast => ?_⟩, notReserved_of_length ?_, ?_⟩
  · exact (isHashChar_spec (hchars _ (List.mem_of_getLast? hlast))).2.1 rfl
  · exact (isHashChar_spec (hchars _ (List.mem_of_getLast? hlast))).2.2.1 rfl
  · rw [hdot, List.length_append]
    omega
  · rw [hcount, List.length_append, maxSafeComponentUtf16]
    omega

theorem length_hexLower (bytes : Bytes) : (hexLower bytes).toList.length = 2 * bytes.length := by
  rw [hexLower, String.toList_ofList, List.length_flatMap]
  simp [Nat.mul_comm]

/-- The replacement of a name is safe. -/
theorem fallbackComponent_safe (env : PathEnv) (original : String) :
    SafeComponent (fallbackComponent env original).toList := by
  rw [fallbackComponent, String.toList_append]
  refine hashName_safe (fun c => isHashChar_hexLower) ?_
  rw [length_hexLower, Vector.length_toList]

/-! ## Paths -/

/-- The length of a path behind one more component, which a slash separates. -/
def longerPath (current componentLen index : Nat) : Nat :=
  current + (if index ≠ 0 then 1 else 0) + componentLen

/-- The length of a path behind `components`, the first of which has the index `index`. -/
def joinedUtf16 : List String → Nat → Nat → Nat
  | [], _, totalUtf16 => totalUtf16
  | component :: components, index, totalUtf16 =>
    joinedUtf16 components (index + 1) (longerPath totalUtf16 (utf16Count component.toList) index)

theorem le_joinedUtf16 (components : List String) (index totalUtf16 : Nat) :
    totalUtf16 ≤ joinedUtf16 components index totalUtf16 := by
  induction components generalizing index totalUtf16 with
  | nil => exact Nat.le_refl _
  | cons component components ih =>
    rw [joinedUtf16]
    exact Nat.le_trans (Nat.le_trans (Nat.le_add_right _ _) (Nat.le_add_right _ _)) (ih _ _)

theorem joinedUtf16_rest (components : List String) {index : Nat} (hindex : index ≠ 0)
    (totalUtf16 : Nat) : joinedUtf16 components index totalUtf16 =
      totalUtf16 +
        utf16Count ((components.map fun component => '/' :: component.toList).flatten) := by
  induction components generalizing index totalUtf16 with
  | nil => rfl
  | cons component components ih =>
    have hslash : utf16Count ('/' :: component.toList) = 1 + utf16Count component.toList := rfl
    rw [joinedUtf16, longerPath, ih (Nat.succ_ne_zero index), if_pos hindex, List.map_cons,
      List.flatten_cons, utf16Count_append, hslash]
    omega

/-- The checked length is the one of the path with its slashes. -/
theorem joinedUtf16_eq (components : List String) :
    joinedUtf16 components 0 0 = utf16Count ("/".intercalate components).toList := by
  rw [String.toList_intercalate]
  cases components with
  | nil => rfl
  | cons component components =>
    have hslash : ("/" : String).toList = ['/'] := rfl
    rw [joinedUtf16, joinedUtf16_rest _ (Nat.succ_ne_zero 0), hslash, List.map_cons]
    have hjoin : ['/'].intercalate (component.toList :: components.map String.toList) =
        component.toList ++ (components.map fun component => '/' :: component.toList).flatten := by
      induction components generalizing component with
      | nil => simp
      | cons next components ih =>
        rw [List.map_cons, List.intercalate_cons_cons, ih, List.map_cons, List.flatten_cons]
        simp
    rw [hjoin, utf16Count_append, longerPath, if_neg (not_not_intro rfl), Nat.zero_add]

section Length

variable {current componentLen index totalUtf16 : Nat} {components : List String}

/-- The length of a path and one more component does not overflow. -/
theorem checkedPathLength_eq (hcurrent : current ≤ maxSafePathUtf16)
    (hcomponent : componentLen ≤ maxSafeComponentUtf16) :
    checkedPathLength current componentLen index =
      if longerPath current componentLen index > maxSafePathUtf16 then
        .error (.excessivePathLength (longerPath current componentLen index) maxSafePathUtf16)
      else .ok (longerPath current componentLen index) := by
  unfold maxSafePathUtf16 at hcurrent
  unfold maxSafeComponentUtf16 at hcomponent
  have hseparator : (if index ≠ 0 then 1 else 0) ≤ 1 := by
    split <;> omega
  show (okOr ((U64.checkedAdd current (if index ≠ 0 then 1 else 0)).bind _) _ >>= _) = _
  rw [U64.checkedAdd_of_lt (by omega), Option.bind_some, U64.checkedAdd_of_lt (by omega), okOr,
    bind_ok]
  rfl

/-- What `try_from_components` checks behind the depth. -/
theorem checkComponents_eq_ok (htotal : totalUtf16 ≤ maxSafePathUtf16) :
    checkComponents components index totalUtf16 = .ok () ↔
      (∀ component ∈ components, SafeComponent component.toList) ∧
        joinedUtf16 components index totalUtf16 ≤ maxSafePathUtf16 := by
  induction components generalizing index totalUtf16 with
  | nil => simp [checkComponents, joinedUtf16, htotal]
  | cons component components ih =>
    rw [checkComponents, bind_eq_ok, List.forall_mem_cons, joinedUtf16]
    constructor
    · intro ⟨_, hsafe, hrest⟩
      have hsafe := validateComponent_eq_ok.mp hsafe
      rw [checkedPathLength_eq htotal hsafe.short, bind_eq_ok] at hrest
      obtain ⟨total, htotal', hrest⟩ := hrest
      split at htotal'
      · cases htotal'
      · next hle =>
        cases htotal'
        obtain ⟨hall, hjoined⟩ := (ih (Nat.le_of_not_lt hle)).mp hrest
        exact ⟨⟨hsafe, hall⟩, hjoined⟩
    · intro ⟨⟨hsafe, hall⟩, hjoined⟩
      have hle := Nat.le_trans (le_joinedUtf16 _ _ _) hjoined
      refine ⟨(), validateComponent_eq_ok.mpr hsafe, ?_⟩
      rw [checkedPathLength_eq htotal hsafe.short, if_neg (Nat.not_lt_of_le hle), bind_ok]
      exact (ih hle).mpr ⟨hall, hjoined⟩

end Length

/-- A path is built from its components. -/
theorem tryFromComponents_eq_ok {components : List String} {path : SafeRelativePath} :
    SafeRelativePath.tryFromComponents components = .ok path ↔ path.components = components := by
  unfold SafeRelativePath.tryFromComponents
  constructor
  · intro h
    split at h
    · cases h
      rfl
    · cases h
  · intro h
    subst h
    split
    · rfl
    · next e herror =>
      rw [path.safe] at herror
      cases herror

theorem checkPath_eq_ok {components : List String} :
    checkPath components = .ok () ↔ components.length ≠ 0 ∧
      components.length ≤ maxSafePathComponents ∧
      (∀ component ∈ components, SafeComponent component.toList) ∧
      joinedUtf16 components 0 0 ≤ maxSafePathUtf16 := by
  unfold checkPath validateDepth
  simp only [bind_eq_ok, throw_bind, ite_throw_eq_ok, pure_eq_ok,
    checkComponents_eq_ok (Nat.zero_le _), Nat.not_lt, and_true, exists_const, and_assoc]

/-! ## The derived path -/

def isSafe (original : String) : Bool := (validateComponent original.toList 0).isOk

/-- The component a recovered name becomes. -/
def recoveredComponent (env : PathEnv) (original : String) : String :=
  if isSafe original then original else fallbackComponent env original

/-- What the evidence says of the name at `index`. -/
def recordedSubstitution (env : PathEnv) (original : String) (index : Nat) :
    Option PathSubstitution :=
  match validateComponent original.toList index with
  | .ok () => none
  | .error reason =>
    some
      { componentIndex := index, original, replacement := fallbackComponent env original, reason }

def recordedSubstitutions (env : PathEnv) (originals : List String) (index : Nat) :
    List PathSubstitution :=
  (originals.zipIdx index).filterMap fun named => recordedSubstitution env named.1 named.2

/-- The bytes of the names that are replaced. -/
def replacedBytes (originals : List String) : Nat :=
  ((originals.filter fun original => !isSafe original).map String.utf8ByteSize).sum

theorem isSafe_eq_true {original : String} :
    isSafe original = true ↔ SafeComponent original.toList := by
  rw [isSafe, ← @validateComponent_eq_ok _ 0]
  constructor
  · intro h
    obtain ⟨_, hok⟩ := exists_of_isOk h
    exact hok
  · intro h
    rw [h]
    rfl

theorem recoveredComponent_safe (env : PathEnv) (original : String) :
    SafeComponent (recoveredComponent env original).toList := by
  unfold recoveredComponent
  split
  · next hsafe => exact isSafe_eq_true.mp hsafe
  · exact fallbackComponent_safe env original

/-- A bound that the names pass, and the error that says so. -/
inductive BoundExceeded (env : PathEnv) (originals : List String) : PathSafetyError → Prop
  | depth (h : maxSafePathComponents < originals.length) :
    BoundExceeded env originals (.excessiveDepth originals.length maxSafePathComponents)
  | length {actual : Nat} (hactual : maxSafePathUtf16 < actual)
    (h : maxSafePathUtf16 < joinedUtf16 (originals.map (recoveredComponent env)) 0 0) :
    BoundExceeded env originals (.excessivePathLength actual maxSafePathUtf16)
  | evidence {actual : Nat} (hactual : maxPathEvidenceBytesPerItem < actual)
    (h : maxPathEvidenceBytesPerItem < replacedBytes originals ∨ maxPathEvidenceBytesPerItem <
      (env.evidenceToString ⟨1, recordedSubstitutions env originals 0⟩).utf8ByteSize) :
    BoundExceeded env originals (.evidenceBudgetExceeded actual maxPathEvidenceBytesPerItem)

section Derive

variable {env : PathEnv} {original : String} {originals : List String}
  {index totalUtf16 preserved : Nat} {e : PathSafetyError} {r : List String × List PathSubstitution}

/-- A name that is kept. -/
theorem deriveComponents_kept (hsafe : isSafe original = true)
    (htotal : totalUtf16 ≤ maxSafePathUtf16) :
    deriveComponents env (original :: originals) index totalUtf16 preserved =
      if longerPath totalUtf16 (utf16Count original.toList) index > maxSafePathUtf16 then
        .error (.excessivePathLength (longerPath totalUtf16 (utf16Count original.toList) index)
          maxSafePathUtf16)
      else (deriveComponents env originals (index + 1)
        (longerPath totalUtf16 (utf16Count original.toList) index) preserved).map fun r =>
          (original :: r.1, r.2) := by
  have hsafe := isSafe_eq_true.mp hsafe
  rw [deriveComponents, validateComponent_eq_ok.mpr hsafe]
  dsimp only
  rw [checkedPathLength_eq htotal hsafe.short]
  split
  · rfl
  · rw [bind_ok]
    cases deriveComponents env originals (index + 1) _ preserved <;> rfl

/-- A name that is replaced. -/
theorem deriveComponents_replaced {reason : PathSafetyError}
    (hreason : validateComponent original.toList index = .error reason)
    (htotal : totalUtf16 ≤ maxSafePathUtf16)
    (hbytes : preserved + original.utf8ByteSize ≤ maxPathEvidenceBytesPerItem) :
    deriveComponents env (original :: originals) index totalUtf16 preserved =
      let replacement := fallbackComponent env original
      if longerPath totalUtf16 (utf16Count replacement.toList) index > maxSafePathUtf16 then
        .error (.excessivePathLength (longerPath totalUtf16 (utf16Count replacement.toList) index)
          maxSafePathUtf16)
      else (deriveComponents env originals (index + 1)
        (longerPath totalUtf16 (utf16Count replacement.toList) index)
        (preserved + original.utf8ByteSize)).map fun r =>
          (replacement :: r.1,
           { componentIndex := index, original, replacement, reason } :: r.2) := by
  have hword : preserved + original.utf8ByteSize < 2 ^ 64 := by
    unfold maxPathEvidenceBytesPerItem at hbytes
    omega
  rw [deriveComponents, hreason]
  dsimp only
  rw [U64.checkedAdd_of_lt hword, okOr, bind_ok, if_neg (Nat.not_lt_of_le hbytes),
    checkedPathLength_eq htotal (fallbackComponent_safe env original).short]
  show (if _ then _ else _) >>= _ = _
  split
  · rfl
  · rw [bind_ok]
    cases deriveComponents env originals (index + 1) _ _ <;> rfl

/-- A name whose replacement passes the budget of the evidence. -/
theorem deriveComponents_overBudget {reason : PathSafetyError}
    (hreason : validateComponent original.toList index = .error reason)
    (hbytes : maxPathEvidenceBytesPerItem < preserved + original.utf8ByteSize) :
    ∃ actual, maxPathEvidenceBytesPerItem < actual ∧
      deriveComponents env (original :: originals) index totalUtf16 preserved =
        .error (.evidenceBudgetExceeded actual maxPathEvidenceBytesPerItem) := by
  rw [deriveComponents, hreason]
  dsimp only
  cases hword : U64.checkedAdd preserved original.utf8ByteSize with
  | none => exact ⟨2 ^ 64 - 1, by decide, rfl⟩
  | some bytes =>
    obtain ⟨-, rfl⟩ := U64.checkedAdd_eq_some.mp hword
    refine ⟨_, hbytes, ?_⟩
    rw [okOr, bind_ok, if_pos hbytes]
    rfl

theorem isSafe_eq_false {reason : PathSafetyError}
    (h : validateComponent original.toList index = .error reason) : isSafe original = false := by
  apply Bool.eq_false_iff.mpr
  intro hsafe
  rw [validateComponent_eq_ok.mpr (isSafe_eq_true.mp hsafe)] at h
  cases h

theorem replacedBytes_cons_kept (h : isSafe original = true) :
    replacedBytes (original :: originals) = replacedBytes originals := by
  rw [replacedBytes, List.filter_cons_of_neg (by simp [h])]
  rfl

theorem replacedBytes_cons_replaced (h : isSafe original = false) :
    replacedBytes (original :: originals) = original.utf8ByteSize + replacedBytes originals := by
  rw [replacedBytes, List.filter_cons_of_pos (by simp [h]), List.map_cons, List.sum_cons]
  rfl

theorem recordedSubstitutions_cons_kept (h : isSafe original = true) :
    recordedSubstitutions env (original :: originals) index =
      recordedSubstitutions env originals (index + 1) := by
  have hnone : recordedSubstitution env original index = none := by
    rw [recordedSubstitution, validateComponent_eq_ok.mpr (isSafe_eq_true.mp h)]
  rw [recordedSubstitutions, List.zipIdx_cons, List.filterMap_cons, hnone]
  rfl

theorem recordedSubstitutions_cons_replaced {reason : PathSafetyError}
    (h : validateComponent original.toList index = .error reason) :
    recordedSubstitutions env (original :: originals) index =
      { componentIndex := index, original, replacement := fallbackComponent env original,
        reason } ::
        recordedSubstitutions env originals (index + 1) := by
  rw [recordedSubstitutions, List.zipIdx_cons, List.filterMap_cons, recordedSubstitution, h]
  rfl

/-- What the loop derives. -/
theorem deriveComponents_ok (htotal : totalUtf16 ≤ maxSafePathUtf16)
    (h : deriveComponents env originals index totalUtf16 preserved = .ok r) :
    r = (originals.map (recoveredComponent env), recordedSubstitutions env originals index) ∧
      joinedUtf16 (originals.map (recoveredComponent env)) index totalUtf16 ≤ maxSafePathUtf16 := by
  induction originals generalizing index totalUtf16 preserved r with
  | nil =>
    cases h
    exact ⟨rfl, htotal⟩
  | cons original originals ih =>
    rw [List.map_cons, joinedUtf16]
    cases hvalid : validateComponent original.toList index with
    | ok u =>
      have hsafe := isSafe_eq_true.mpr (validateComponent_eq_ok.mp hvalid)
      rw [deriveComponents_kept hsafe htotal] at h
      rw [recoveredComponent, if_pos hsafe, recordedSubstitutions_cons_kept hsafe]
      split at h
      · cases h
      · next hle =>
        obtain ⟨rest, hrest, rfl⟩ := map_eq_ok.mp h
        obtain ⟨rfl, hjoined⟩ := ih (Nat.le_of_not_lt hle) hrest
        exact ⟨rfl, hjoined⟩
    | error reason =>
      have hunsafe := isSafe_eq_false hvalid
      have hbytes : preserved + original.utf8ByteSize ≤ maxPathEvidenceBytesPerItem := by
        apply Nat.le_of_not_lt
        intro hover
        obtain ⟨_, -, herror⟩ := @deriveComponents_overBudget env original originals index
          totalUtf16
          preserved reason hvalid hover
        rw [herror] at h
        cases h
      rw [deriveComponents_replaced hvalid htotal hbytes] at h
      rw [recoveredComponent, hunsafe, if_neg Bool.false_ne_true,
        recordedSubstitutions_cons_replaced hvalid]
      dsimp only at h
      split at h
      · cases h
      · next hle =>
        obtain ⟨rest, hrest, rfl⟩ := map_eq_ok.mp h
        obtain ⟨rfl, hjoined⟩ := ih (Nat.le_of_not_lt hle) hrest
        exact ⟨rfl, hjoined⟩

/-- The loop fails when a bound is passed. -/
theorem deriveComponents_error (htotal : totalUtf16 ≤ maxSafePathUtf16)
    (hpreserved : preserved ≤ maxPathEvidenceBytesPerItem)
    (h : deriveComponents env originals index totalUtf16 preserved = .error e) :
    (∃ actual, e = .excessivePathLength actual maxSafePathUtf16 ∧ maxSafePathUtf16 < actual ∧
        maxSafePathUtf16 < joinedUtf16 (originals.map (recoveredComponent env)) index totalUtf16) ∨
      ∃ actual, e = .evidenceBudgetExceeded actual maxPathEvidenceBytesPerItem ∧
        maxPathEvidenceBytesPerItem < actual ∧
        maxPathEvidenceBytesPerItem < preserved + replacedBytes originals := by
  induction originals generalizing index totalUtf16 preserved with
  | nil => cases h
  | cons original originals ih =>
    rw [List.map_cons, joinedUtf16]
    cases hvalid : validateComponent original.toList index with
    | ok u =>
      have hsafe := isSafe_eq_true.mpr (validateComponent_eq_ok.mp hvalid)
      rw [deriveComponents_kept hsafe htotal] at h
      rw [recoveredComponent, if_pos hsafe, replacedBytes_cons_kept hsafe]
      split at h
      · next hlong =>
        cases h
        exact .inl ⟨_, rfl, hlong, Nat.lt_of_lt_of_le hlong (le_joinedUtf16 _ _ _)⟩
      · next hle => exact ih (Nat.le_of_not_lt hle) hpreserved (map_eq_error.mp h)
    | error reason =>
      have hunsafe := isSafe_eq_false hvalid
      rw [recoveredComponent, hunsafe, if_neg Bool.false_ne_true,
        replacedBytes_cons_replaced hunsafe, ← Nat.add_assoc]
      by_cases hbytes : preserved + original.utf8ByteSize ≤ maxPathEvidenceBytesPerItem
      · rw [deriveComponents_replaced hvalid htotal hbytes] at h
        dsimp only at h
        split at h
        · next hlong =>
          cases h
          exact .inl ⟨_, rfl, hlong, Nat.lt_of_lt_of_le hlong (le_joinedUtf16 _ _ _)⟩
        · next hle => exact ih (Nat.le_of_not_lt hle) hbytes (map_eq_error.mp h)
      · obtain ⟨actual, hactual, herror⟩ := @deriveComponents_overBudget env original originals
          index totalUtf16 preserved reason hvalid (Nat.lt_of_not_le hbytes)
        rw [herror] at h
        cases h
        exact .inr ⟨actual, rfl, hactual, by omega⟩

end Derive

/-- A derived path has a component for each name: a safe name itself, or the replacement that
    the evidence records. Building the path again gives it back. What fails is a bound, and the
    replacement passes the check that the source expects it to pass. -/
theorem deriveForRecovery_spec (env : PathEnv) (recoveredParents : List String)
    (recoveredName : String) :
    let originals := recoveredParents ++ [recoveredName]
    (∀ derived, deriveForRecovery env recoveredParents recoveredName = .ok derived →
      derived.path.components = originals.map (recoveredComponent env) ∧
      (∀ index (component : String), derived.path.components[index]? = some component →
        validateComponent component.toList index = .ok ()) ∧
      derived.path.components.length ≤ maxSafePathComponents ∧
      utf16Count derived.path.toSlashString.toList ≤ maxSafePathUtf16 ∧
      derived.evidenceJson = env.evidenceToString ⟨1, recordedSubstitutions env originals 0⟩ ∧
      SafeRelativePath.tryFromComponents derived.path.components = .ok derived.path) ∧
    (∀ e, deriveForRecovery env recoveredParents recoveredName = .error e →
      BoundExceeded env originals e) ∧
    ∀ original index, validateComponent (fallbackComponent env original).toList index = .ok () := by
  intro originals
  have hnil : originals.length ≠ 0 := by simp [originals]
  have hlength : originals.length = recoveredParents.length + 1 := by simp [originals]
  refine ⟨fun derived h => ?_, fun e h => ?_, fun original index =>
    validateComponent_eq_ok.mpr (fallbackComponent_safe env original)⟩
  · rw [deriveForRecovery, ← hlength] at h
    obtain ⟨_, hdepth, h⟩ := bind_eq_ok.mp h
    obtain ⟨⟨components, substitutions⟩, hloop, h⟩ := bind_eq_ok.mp h
    obtain ⟨heq, hjoined⟩ := deriveComponents_ok (Nat.zero_le _) hloop
    cases heq
    dsimp only at h
    rw [throw_bind, ite_throw_eq_ok] at h
    obtain ⟨-, h⟩ := h
    obtain ⟨path, hpath, h⟩ := bind_eq_ok.mp h
    cases h
    have hcomponents := tryFromComponents_eq_ok.mp hpath
    obtain ⟨-, hdepth, hsafe, hpathLength⟩ := checkPath_eq_ok.mp path.safe
    refine ⟨hcomponents, fun index component hcomponent => ?_, hdepth, ?_, rfl,
      tryFromComponents_eq_ok.mpr rfl⟩
    · exact validateComponent_eq_ok.mpr (hsafe component (List.mem_of_getElem? hcomponent))
    · rw [SafeRelativePath.toSlashString, ← joinedUtf16_eq]
      exact hpathLength
  · rw [deriveForRecovery, ← hlength] at h
    cases bind_eq_error.mp h with
    | inl hdepth =>
      rw [validateDepth, if_neg hnil] at hdepth
      cases ite_throw_eq_error.mp hdepth with
      | inl hdeep => exact hdeep.2 ▸ .depth hdeep.1
      | inr hfine => cases hfine.2
    | inr h =>
      obtain ⟨_, hdepth, h⟩ := h
      cases bind_eq_error.mp h with
      | inl hloop =>
        cases deriveComponents_error (Nat.zero_le _) (Nat.zero_le _) hloop with
        | inl hlong =>
          obtain ⟨actual, rfl, hactual, hlong⟩ := hlong
          exact .length hactual hlong
        | inr hbytes =>
          obtain ⟨actual, rfl, hactual, hbytes⟩ := hbytes
          rw [Nat.zero_add] at hbytes
          exact .evidence hactual (.inl hbytes)
      | inr h =>
        obtain ⟨⟨components, substitutions⟩, hloop, h⟩ := h
        obtain ⟨heq, hjoined⟩ := deriveComponents_ok (Nat.zero_le _) hloop
        cases heq
        dsimp only at h
        rw [throw_bind] at h
        cases ite_throw_eq_error.mp h with
        | inl hjson =>
          obtain ⟨hjson, rfl⟩ := hjson
          exact .evidence hjson (.inr hjson)
        | inr hbuild =>
          -- the path that was derived passes the checks once more
          obtain ⟨hfits, hbuild⟩ := hbuild
          have hsafe : checkPath (originals.map (recoveredComponent env)) = .ok () := by
            refine checkPath_eq_ok.mpr ⟨by rwa [List.length_map], ?_, ?_, hjoined⟩
            · rw [List.length_map]
              rw [validateDepth, if_neg hnil] at hdepth
              exact Nat.le_of_not_lt (ite_throw_eq_ok.mp hdepth).1
            · intro component hcomponent
              obtain ⟨original, -, rfl⟩ := List.mem_map.mp hcomponent
              exact recoveredComponent_safe env original
          rw [(@tryFromComponents_eq_ok _ ⟨_, hsafe⟩).mpr rfl] at hbuild
          cases hbuild

/-- The hash of `CON`, and the evidence of its replacement. -/
def deviceEnv : PathEnv where
  sha256 _ :=
    #v[163, 219, 196, 182, 68, 169, 162, 197, 30, 116, 80, 157, 237, 92, 70, 204, 243, 29, 132,
      198, 92, 164, 23, 254, 1, 38, 175, 21, 85, 198, 108, 235]
  evidenceToString evidence :=
    let substitutions := evidence.substitutions.map fun substitution =>
      "\x7b\"componentIndex\":0,\"original\":\"CON\",\"replacement\":\"" ++
        substitution.replacement ++
        "\",\"reason\":\x7b\"reservedWindowsName\":\x7b\"index\":0\x7d\x7d\x7d"
    "\x7b\"version\":1,\"substitutions\":[" ++ ",".intercalate substitutions ++ "]\x7d"

/-- A file below a directory with the name of a device. -/
theorem deriveForRecovery_spec_device :
    ∃ derived, deriveForRecovery deviceEnv ["CON"] "photo.jpg" = .ok derived ∧
      derived.path.components =
        ["recovered-a3dbc4b644a9a2c51e74509ded5c46ccf31d84c65ca417fe0126af1555c66ceb",
          "photo.jpg"] := by
  obtain ⟨derived, hderived⟩ := exists_of_isOk
    (show (deriveForRecovery deviceEnv ["CON"] "photo.jpg").isOk = true by decide +kernel)
  refine ⟨derived, hderived, ?_⟩
  rw [((deriveForRecovery_spec deviceEnv ["CON"] "photo.jpg").1 derived hderived).1]
  decide +kernel

end Undelete.Restore
