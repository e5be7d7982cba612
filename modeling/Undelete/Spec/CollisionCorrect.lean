import Undelete.ForStd.Decimal
import Undelete.Native.Restore.Transaction
import Undelete.Spec.SafePathCorrect

/-!
# The names behind a collision

When a destination name is taken, the restore tries names with a counter in front of the
extension, and a hash where such a name is too long. All of them are safe, and no two of them
are the same.

## Key results

- `collisionCandidate_safe`: a name with a counter is safe unless it is too long.
- `collisionName_safe_injective`: the names are safe and distinct.
-/

namespace Undelete.Restore

open Except

/-! ## The name with a counter -/

/-- The counter as it stands in a name. -/
def collisionSuffix (collisionIndex : Nat) : List Char :=
  (" (recovered " ++ toString collisionIndex ++ ")").toList

theorem rsplitOnce_eq_some {separator : Char} {text stem extension : List Char}
    (h : rsplitOnce separator text = some (stem, extension)) :
    text = stem ++ separator :: extension := by
  have hsplit : text.reverse.takeWhile (fun c => decide (c ≠ separator)) ++
      text.reverse.dropWhile (fun c => decide (c ≠ separator)) = text.reverse :=
    List.takeWhile_append_dropWhile
  unfold rsplitOnce at h
  dsimp only at h
  split at h
  · cases h
  · next hlength =>
    cases hrest : text.reverse.dropWhile (fun c => decide (c ≠ separator)) with
    | nil =>
      rw [hrest, List.append_nil] at hsplit
      rw [hsplit, List.reverse_reverse] at hlength
      exact absurd rfl hlength
    | cons c rest =>
      have hhead : c = separator := by
        have hnot := List.head?_dropWhile_not (fun c => decide (c ≠ separator)) text.reverse
        rw [hrest] at hnot
        simpa using hnot
      cases h
      rw [hrest, hhead] at hsplit
      generalize text.reverse.takeWhile (fun c => decide (c ≠ separator)) = taken at hsplit ⊢
      have htext : text = rest.reverse ++ separator :: taken.reverse := by
        rw [← List.reverse_reverse text, ← hsplit]
        simp
      have hstop : text.length - taken.reverse.length - 1 = rest.reverse.length := by
        rw [htext, List.length_append, List.length_cons]
        omega
      rw [hstop]
      conv_rhs => rw [htext, List.take_left]
      exact htext

/-- The counter stands at a place that depends on the base only. -/
theorem collisionCandidate_shape (base : String) : ∃ front back, base.toList = front ++ back ∧
    ∀ i, (collisionCandidate base i).toList = front ++ collisionSuffix i ++ back := by
  cases hsplit : rsplitOnce '.' base.toList with
  | none =>
    refine ⟨base.toList, [], (List.append_nil _).symm, fun i => ?_⟩
    rw [collisionCandidate, hsplit, List.append_nil]
    exact String.toList_append
  | some parts =>
    obtain ⟨stem, extension⟩ := parts
    cases hempty : stem.isEmpty with
    | true =>
      refine ⟨base.toList, [], (List.append_nil _).symm, fun i => ?_⟩
      rw [collisionCandidate, hsplit, List.append_nil]
      dsimp only
      rw [if_pos hempty]
      exact String.toList_append
    | false =>
      refine ⟨stem, '.' :: extension, rsplitOnce_eq_some hsplit, fun i => ?_⟩
      rw [collisionCandidate, hsplit]
      dsimp only
      rw [hempty, if_neg Bool.false_ne_true, String.toList_append, String.toList_append,
        String.toList_append, String.toList_ofList, String.toList_ofList, String.toList_ofList,
        List.append_assoc]
      rfl

/-- A character of the counter. -/
def isCounterChar (c : Char) : Bool := " (recovered)0123456789".toList.contains c

theorem isCounterChar_spec {c : Char} (h : isCounterChar c = true) :
    isPlain c = true ∧ c ≠ '.' ∧ c.toNat < 0x10000 := by
  have hall : ∀ c ∈ " (recovered)0123456789".toList,
      isPlain c = true ∧ c ≠ '.' ∧ c.toNat < 0x10000 := forall_mem_of_all (by decide)
  exact hall c (List.contains_iff_mem.mp h)

theorem isCounterChar_digit {c : Char} (h : c.isDigit = true) : isCounterChar c = true := by
  obtain ⟨hlow, hhigh⟩ := Char.isDigit_iff_toNat.mp h
  have hall : ∀ n < 58, 48 ≤ n → isCounterChar (Char.ofNat n) = true := by decide
  rw [← Char.ofNat_toNat c]
  exact hall c.toNat (Nat.lt_succ_of_le hhigh) hlow

theorem toList_collisionSuffix (i : Nat) :
    collisionSuffix i = " (recovered ".toList ++ (toString i).toList ++ ")".toList := by
  rw [collisionSuffix, String.toList_append, String.toList_append]

theorem isCounterChar_suffix {i : Nat} {c : Char} (h : c ∈ collisionSuffix i) :
    isCounterChar c = true := by
  rw [toList_collisionSuffix] at h
  cases List.mem_append.mp h with
  | inl h =>
    cases List.mem_append.mp h with
    | inl hleft =>
      exact List.all_eq_true.mp (show " (recovered ".toList.all isCounterChar by decide) c hleft
    | inr hdigit =>
      exact isCounterChar_digit (List.all_eq_true.mp (Decimal.isDigit_toString i) c hdigit)
  | inr hright => exact List.all_eq_true.mp (show ")".toList.all isCounterChar by decide) c hright

theorem length_collisionSuffix {i : Nat} (h : i < maxCollisionAttempts) :
    14 ≤ (collisionSuffix i).length ∧ (collisionSuffix i).length ≤ 17 := by
  have hleft : " (recovered ".toList.length = 12 := rfl
  have hright : ")".toList.length = 1 := rfl
  have hmany : (toString i).toList.length ≤ 4 := by
    rw [Decimal.toList_toString]
    exact (Nat.length_toDigits_le_iff (by decide) (by decide)).mpr h
  have hsome : 0 < (toString i).toList.length := by
    rw [Decimal.toList_toString]
    exact Nat.length_toDigits_pos
  rw [toList_collisionSuffix, List.length_append, List.length_append]
  omega

theorem collisionSuffix_inj {i j : Nat} (h : collisionSuffix i = collisionSuffix j) : i = j := by
  rw [toList_collisionSuffix, toList_collisionSuffix] at h
  exact Decimal.toString_inj (String.toList_inj.mp (List.append_cancel_left
    (List.append_cancel_right h)))

section Names

variable {base : String} {i j : Nat}

theorem utf16Count_candidate (h : i < maxCollisionAttempts) :
    utf16Count base.toList + 14 ≤ utf16Count (collisionCandidate base i).toList ∧
      utf16Count (collisionCandidate base i).toList ≤ utf16Count base.toList + 17 := by
  obtain ⟨front, back, hbase, hcandidate⟩ := collisionCandidate_shape base
  have hcount := utf16Count_eq_length fun c (hc : c ∈ collisionSuffix i) =>
    (isCounterChar_spec (isCounterChar_suffix hc)).2.2
  have hlength := length_collisionSuffix h
  rw [hcandidate, hbase, utf16Count_append, utf16Count_append, utf16Count_append]
  omega

/-- A name with a counter is safe unless it is too long. -/
theorem collisionCandidate_safe (hbase : SafeComponent base.toList) (hi : i < maxCollisionAttempts)
    (hshort : utf16Count (collisionCandidate base i).toList ≤ maxSafeComponentUtf16) :
    SafeComponent (collisionCandidate base i).toList := by
  have hlength := length_collisionSuffix hi
  obtain ⟨front, back, hsplit, hcandidate⟩ := collisionCandidate_shape base
  rw [hcandidate] at hshort ⊢
  have hsuffix : collisionSuffix i ≠ [] := List.ne_nil_of_length_pos (by omega)
  refine ⟨?_, ?_, ?_, ?_, hshort⟩
  · simp [hsuffix]
  · intro c hc
    cases List.mem_append.mp hc with
    | inl hc =>
      cases List.mem_append.mp hc with
      | inl hfront => exact hbase.plain c (hsplit ▸ List.mem_append_left _ hfront)
      | inr hcounter => exact (isCounterChar_spec (isCounterChar_suffix hcounter)).1
    | inr hback => exact hbase.plain c (hsplit ▸ List.mem_append_right _ hback)
  · cases back with
    | nil =>
      have hlast : (front ++ collisionSuffix i ++ []).getLast? = some ')' := by
        rw [List.append_nil, toList_collisionSuffix, ← List.append_assoc]
        exact List.getLast?_concat
      rw [hlast]
      exact ⟨by decide, by decide⟩
    | cons c back =>
      have hlast : (front ++ collisionSuffix i ++ c :: back).getLast? = base.toList.getLast? := by
        rw [hsplit, List.getLast?_append_of_ne_nil _ (List.cons_ne_nil c back),
          List.getLast?_append_of_ne_nil _ (List.cons_ne_nil c back)]
      rw [hlast]
      exact hbase.last
  · by_cases hdot : '.' ∈ front
    · -- the name of the device would stand in the base
      have hstem : (front ++ collisionSuffix i ++ back).takeWhile (· ≠ '.') =
          base.toList.takeWhile (· ≠ '.') := by
        have hcut : (front.takeWhile (· ≠ '.')).length ≠ front.length := by
          intro hwhole
          have hself := (List.takeWhile_prefix (fun c => decide (c ≠ '.'))).eq_of_length hwhole
          have hall := List.takeWhile_eq_self_iff.mp hself '.' hdot
          simp at hall
        rw [hsplit, List.append_assoc, List.takeWhile_append, if_neg hcut, List.takeWhile_append,
          if_neg hcut]
      have hreserved := hbase.notReserved
      unfold isReservedWindowsName at hreserved ⊢
      rw [hstem]
      exact hreserved
    · apply notReserved_of_length
      have hplain : ∀ c ∈ front ++ collisionSuffix i, decide (c ≠ '.') = true := by
        intro c hc
        apply decide_eq_true
        cases List.mem_append.mp hc with
        | inl hfront => exact fun heq => hdot (heq ▸ hfront)
        | inr hcounter => exact (isCounterChar_spec (isCounterChar_suffix hcounter)).2.1
      rw [List.takeWhile_append_of_pos hplain, List.length_append, List.length_append]
      omega

theorem collisionCandidate_inj (h : collisionCandidate base i = collisionCandidate base j) :
    i = j := by
  obtain ⟨front, back, -, hcandidate⟩ := collisionCandidate_shape base
  have hlist := congrArg String.toList h
  rw [hcandidate, hcandidate] at hlist
  exact collisionSuffix_inj (List.append_cancel_left (List.append_cancel_right hlist))

/-! ## The names -/

theorem checkPath_singleton : checkPath [base] = .ok () ↔ SafeComponent base.toList := by
  rw [checkPath_eq_ok]
  constructor
  · intro h
    exact h.2.2.1 base (List.mem_singleton_self base)
  · intro h
    refine ⟨Nat.one_ne_zero, show 1 ≤ 256 by decide, fun component hcomponent => ?_, ?_⟩
    · rw [List.mem_singleton.mp hcomponent]
      exact h
    · have hshort := h.short
      unfold maxSafeComponentUtf16 at hshort
      rw [joinedUtf16, joinedUtf16, longerPath, maxSafePathUtf16, if_neg (not_not_intro rfl)]
      omega

/-- The part of the hash that makes up a name. -/
def nameHash (sha256 : Bytes → Digest) (candidate : String) : List Char :=
  (hexDigest (sha256 (Bytes.ofString candidate))).toList.take 40

variable (sha256 : Bytes → Digest)

/-- The name of a positive counter: with the counter, or a hash when that is too long. -/
theorem collisionName_cases (hbase : SafeComponent base.toList) (hi : i < maxCollisionAttempts)
    (hpos : i ≠ 0) :
    (SafeComponent (collisionCandidate base i).toList ∧
        collisionName sha256 base i = collisionCandidate base i) ∨
      (maxSafeComponentUtf16 < utf16Count (collisionCandidate base i).toList ∧
        (collisionName sha256 base i).toList =
          "recovered-".toList ++ nameHash sha256 (collisionCandidate base i)) := by
  rw [collisionName, if_neg hpos]
  by_cases hshort : utf16Count (collisionCandidate base i).toList ≤ maxSafeComponentUtf16
  · have hsafe := collisionCandidate_safe hbase hi hshort
    refine .inl ⟨hsafe, ?_⟩
    have hpath := (@tryFromComponents_eq_ok _ ⟨_, checkPath_singleton.mpr hsafe⟩).mpr rfl
    dsimp only at hpath ⊢
    rw [hpath]
  · refine .inr ⟨Nat.lt_of_not_le hshort, ?_⟩
    dsimp only
    split
    · next path hpath =>
      have hsafe := path.safe
      rw [tryFromComponents_eq_ok.mp hpath] at hsafe
      exact absurd (checkPath_singleton.mp hsafe).short hshort
    · rw [String.toList_append, String.toList_ofList, String.toList_ofList]
      rfl

theorem nameHash_safe (candidate : String) :
    SafeComponent ("recovered-".toList ++ nameHash sha256 candidate) := by
  refine hashName_safe (fun c hc => isHashChar_hexLower (List.mem_of_mem_take hc)) ?_
  rw [nameHash, List.length_take]
  omega

theorem utf16Count_nameHash (candidate : String) :
    utf16Count ("recovered-".toList ++ nameHash sha256 candidate) = 50 := by
  have hten : utf16Count "recovered-".toList = 10 := rfl
  have hcount := utf16Count_eq_length fun c (hc : c ∈ nameHash sha256 candidate) =>
    (isHashChar_spec (isHashChar_hexLower (List.mem_of_mem_take hc))).2.2.2
  rw [utf16Count_append, hten, hcount, nameHash, List.length_take, hexDigest, length_hexLower,
    Vector.length_toList]
  rfl

/-- A name behind a collision is another one: it is longer, or much shorter. -/
theorem collisionName_ne_base (hbase : SafeComponent base.toList) (hi : i < maxCollisionAttempts)
    (hpos : i ≠ 0) : collisionName sha256 base i ≠ base := by
  intro heq
  obtain ⟨hlow, hhigh⟩ := @utf16Count_candidate base i hi
  cases collisionName_cases sha256 hbase hi hpos with
  | inl hcandidate =>
    rw [← hcandidate.2, heq] at hlow
    omega
  | inr hhash =>
    obtain ⟨hlong, hname⟩ := hhash
    have hfifty := utf16Count_nameHash sha256 (collisionCandidate base i)
    rw [← hname, heq] at hfifty
    unfold maxSafeComponentUtf16 at hlong
    omega

/-- A name with a counter is not one made of a hash, for another counter. -/
theorem collisionCandidate_ne_hash (hi : i < maxCollisionAttempts) (hj : j < maxCollisionAttempts)
    (hlong : maxSafeComponentUtf16 < utf16Count (collisionCandidate base j).toList)
    (candidate : String) :
    (collisionCandidate base i).toList ≠ "recovered-".toList ++ nameHash sha256 candidate := by
  intro heq
  have hfifty := utf16Count_nameHash sha256 candidate
  rw [← heq] at hfifty
  have hlow := (@utf16Count_candidate base i hi).1
  have hhigh := (@utf16Count_candidate base j hj).2
  unfold maxSafeComponentUtf16 at hlong
  omega

end Names

/-- The names behind a collision are safe single components. Two of them are distinct unless the
    hashes of their long forms collide. -/
theorem collisionName_safe_injective (sha256 : Bytes → Digest) (base : String) (index : Nat)
    (hbase : validateComponent base.toList index = .ok ()) :
    (∀ i < maxCollisionAttempts, checkPath [collisionName sha256 base i] = .ok ()) ∧
    ∀ i < maxCollisionAttempts, ∀ j < maxCollisionAttempts,
      (nameHash sha256 (collisionCandidate base i) = nameHash sha256 (collisionCandidate base j) →
        collisionCandidate base i = collisionCandidate base j) →
      collisionName sha256 base i = collisionName sha256 base j → i = j := by
  have hbase := validateComponent_eq_ok.mp hbase
  have hzero : collisionName sha256 base 0 = base := if_pos rfl
  constructor
  · intro i hi
    rw [checkPath_singleton]
    by_cases hpos : i = 0
    · rw [hpos, hzero]
      exact hbase
    · cases collisionName_cases sha256 hbase hi hpos with
      | inl hcandidate => exact hcandidate.2 ▸ hcandidate.1
      | inr hhash => exact hhash.2 ▸ nameHash_safe sha256 _
  · intro i hi j hj hcollision heq
    by_cases hi0 : i = 0
    · by_cases hj0 : j = 0
      · rw [hi0, hj0]
      · rw [hi0, hzero] at heq
        exact absurd heq.symm (collisionName_ne_base sha256 hbase hj hj0)
    · by_cases hj0 : j = 0
      · rw [hj0, hzero] at heq
        exact absurd heq (collisionName_ne_base sha256 hbase hi hi0)
      · have hlist := congrArg String.toList heq
        cases collisionName_cases sha256 hbase hi hi0 with
        | inl hcandidate =>
          cases collisionName_cases sha256 hbase hj hj0 with
          | inl hcandidate' =>
            rw [hcandidate.2, hcandidate'.2] at heq
            exact collisionCandidate_inj heq
          | inr hhash' =>
            rw [hcandidate.2, hhash'.2] at hlist
            exact absurd hlist (collisionCandidate_ne_hash sha256 hi hj hhash'.1 _)
        | inr hhash =>
          cases collisionName_cases sha256 hbase hj hj0 with
          | inl hcandidate' =>
            rw [hhash.2, hcandidate'.2] at hlist
            exact absurd hlist.symm (collisionCandidate_ne_hash sha256 hj hi hhash.1 _)
          | inr hhash' =>
            rw [hhash.2, hhash'.2] at hlist
            exact collisionCandidate_inj (hcollision (List.append_cancel_left hlist))

/-- A safe name that is too long for a counter. -/
def longName : String := String.ofList (List.replicate 250 'a')

/-- The hashes of the first two long forms of the name. -/
def longNameSha256 (input : Bytes) : Digest :=
  if input = Bytes.ofString (collisionCandidate longName 1) then
    #v[170, 18, 52, 8, 168, 106, 182, 24, 92, 246, 230, 57, 152, 220, 173, 239, 36, 55,
      141, 163, 214, 158, 175, 211, 131, 4, 244, 170, 255, 51, 215, 114]
  else
    #v[12, 17, 253, 112, 169, 209, 125, 242, 2, 11, 4, 18, 60, 99, 122, 172, 241, 203, 6,
      252, 225, 83, 42, 140, 61, 230, 141, 112, 135, 92, 217, 234]

/-- Two attempts on the name try different hashes. -/
theorem collisionName_safe_injective_long :
    collisionName longNameSha256 longName 1 ≠ collisionName longNameSha256 longName 2 := by
  intro heq
  have hbase : validateComponent longName.toList 0 = .ok () := by decide +kernel
  have hdistinct : nameHash longNameSha256 (collisionCandidate longName 1) ≠
      nameHash longNameSha256 (collisionCandidate longName 2) := by decide +kernel
  have hinj := (collisionName_safe_injective longNameSha256 longName 0 hbase).2 1 (by decide) 2
    (by decide) (fun hcollision => absurd hcollision hdistinct) heq
  cases hinj

end Undelete.Restore
