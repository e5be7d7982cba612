import Mathlib.Algebra.GroupWithZero.Nat
import Undelete.ForStd.Decimal
import Undelete.Native.Desktop.Contract
import Undelete.Native.Desktop.Rows
import Undelete.Spec.HashCorrect

/-!
# Texts across the contract

The texts, ids and numbers that the native side writes pass the checks that the window makes of
them: what the sanitizers leave (`validText_sanitizeRequired`, `validText_sanitizeCandidatePath`),
extensions (`isNormalizedExtension_candidate`), decimal words (`validCandidateId_toString`) and
derived ids (`isOpaqueId_hex`).
-/

namespace Undelete.Desktop

open Restore

/-! ## The tables -/

/-- A character that no extension contains. -/
def Reserved (c : Char) : Prop := forbiddenQueryCharacter c = true ∨ c ∈ ['.', '/', '\\']

/-- What the code relies on in the tables of `std`. -/
structure TextLaws (env : RowEnv) : Prop where
  trim_infix : ∀ text, (env.trim text).toList <:+: text.toList
  trimEnd_prefix : ∀ text, (env.trimEnd text).toList <+: text.toList
  lowercase_empty : env.toLowercase "" = ""
  lowercase_idem : ∀ text, env.toLowercase (env.toLowercase text) = env.toLowercase text
  /-- Lower case is no white space. -/
  trim_lowercase : ∀ text,
    env.trim (env.toLowercase (env.trim text)) = env.toLowercase (env.trim text)
  /-- A character that is not a letter is not the lower case of another one. -/
  lowercase_reserved : ∀ text c, Reserved c → c ∈ (env.toLowercase text).toList → c ∈ text.toList

/-- The tables of the two languages agree on texts without a forbidden character. -/
structure TablesAgree (env : RowEnv) (js : TextEnv) : Prop where
  trim : ∀ text, (∀ c ∈ text.toList, forbiddenQueryCharacter c = false) →
    js.trim text = env.trim text
  lowercase : ∀ text, (∀ c ∈ text.toList, forbiddenQueryCharacter c = false) →
    js.toLocaleLowerCase text = env.toLowercase text

variable {env : RowEnv} {js : TextEnv} {value : String}

/-! ## Characters -/

theorem forbiddenQueryCharacter_eq (c : Char) :
    ResultsWorkspace.forbiddenQueryCharacter c = forbiddenQueryCharacter c := by
  rw [Bool.eq_iff_iff]
  simp only [ResultsWorkspace.forbiddenQueryCharacter, forbiddenQueryCharacter, Bool.or_eq_true,
    Bool.and_eq_true, decide_eq_true_eq, List.contains_iff_mem, List.mem_cons, List.not_mem_nil,
    or_false]
  omega

theorem not_forbiddenText_of_query {c : Char} (h : forbiddenQueryCharacter c = false) :
    Contract.forbiddenTextCharacter c = false := by
  rw [Bool.eq_false_iff] at h ⊢
  simp only [Contract.forbiddenTextCharacter, forbiddenQueryCharacter, ne_eq, Bool.or_eq_true,
    Bool.and_eq_true, decide_eq_true_eq, List.contains_iff_mem, List.mem_cons,
    List.not_mem_nil] at h ⊢
  omega

theorem not_forbiddenText_of_plain {c : Char} (h : isPlainText c = true) :
    Contract.forbiddenTextCharacter c = false := by
  rw [Bool.eq_false_iff]
  simp only [isPlainText, isBidirectionalFormattingControl, Contract.forbiddenTextCharacter, ne_eq,
    Bool.or_eq_true, Bool.and_eq_true, Bool.not_eq_true', decide_eq_true_eq, ← Bool.not_eq_true,
    List.contains_iff_mem, List.mem_cons, List.not_mem_nil] at h ⊢
  omega

/-! ## Sanitized texts -/

/-- What `text` checks, besides that the value is a string. -/
theorem validText_iff {allowEmpty : Bool} : Contract.validText allowEmpty value = true ↔
    (allowEmpty = true ∨ value ≠ "") ∧ value.length ≤ Contract.maxTextCodePoints ∧
      ∀ c ∈ value.toList, Contract.forbiddenTextCharacter c = false := by
  simp only [Contract.validText, Bool.and_eq_true, Bool.or_eq_true, Bool.not_eq_true',
    decide_eq_true_eq, List.any_eq_false, Bool.not_eq_true, and_assoc]
  simp

theorem trim_length_le (laws : TextLaws env) (text : String) :
    (env.trim text).length ≤ text.length := by
  rw [← String.length_toList, ← String.length_toList]
  exact (laws.trim_infix text).length_le

theorem validText_redacted : Contract.validText false redactedText = true := by decide

/-- The characters that a filter has kept, and their number. -/
theorem filtered_spec (text : String) (limit : Nat) :
    ((text.toList.filter isPlainText).take limit).length ≤ limit ∧
      ∀ c ∈ (text.toList.filter isPlainText).take limit,
        Contract.forbiddenTextCharacter c = false :=
  ⟨List.length_take_le _ _, fun _ hc =>
    not_forbiddenText_of_plain (List.mem_filter.mp (List.mem_of_mem_take hc)).2⟩

theorem validText_sanitizeRequired (laws : TextLaws env) (text : String) :
    Contract.validText false (sanitizeRequired env text) = true := by
  unfold sanitizeRequired
  dsimp only
  split
  · exact validText_redacted
  · next hkept =>
    obtain ⟨hlength, hchars⟩ := filtered_spec text maxTextScalars
    have hsublist := laws.trim_infix (String.ofList ((text.toList.filter isPlainText).take
      maxTextScalars))
    rw [String.toList_ofList] at hsublist
    refine validText_iff.mpr ⟨.inr ?_, ?_, ?_⟩
    · -- trimming nothing would have left nothing
      intro hempty
      rw [hempty] at hkept
      have hnothing := trim_length_le laws ""
      rw [String.length_empty, Nat.le_zero, String.length_eq_zero_iff] at hnothing
      exact hkept (by rw [hnothing]; rfl)
    · rw [← String.length_toList]
      exact Nat.le_trans hsublist.length_le hlength
    · intro c hc
      exact hchars c (hsublist.subset hc)

/-! ## Ids -/

/-- The characters of an opaque id. -/
def isIdCharacter (c : Char) : Bool := c.isAlphanum || c = '_' || c = '-'

theorem isIdCharacter_iff {c : Char} : isIdCharacter c = true ↔
    (65 ≤ c.toNat ∧ c.toNat ≤ 90 ∨ 97 ≤ c.toNat ∧ c.toNat ≤ 122) ∨
      48 ≤ c.toNat ∧ c.toNat ≤ 57 ∨ c.toNat = 95 ∨ c.toNat = 45 := by
  show (((decide ('A'.val ≤ c.val ∧ c.val ≤ 'Z'.val) ||
    (decide ('a'.val ≤ c.val) && decide (c.val ≤ 'z'.val))) ||
    (decide ('0'.val ≤ c.val) && decide (c.val ≤ '9'.val))) || decide (c = '_') ||
    decide (c = '-')) = true ↔ _
  simp only [UInt32.le_iff_toNat_le, Bool.or_eq_true, Bool.and_eq_true, decide_eq_true_eq,
    ← Char.toNat_inj, Char.toNat, Char.reduceVal, UInt32.reduceToNat]
  omega

theorem not_forbiddenText_of_id {c : Char} (h : isIdCharacter c = true) :
    Contract.forbiddenTextCharacter c = false := by
  have hcode := isIdCharacter_iff.mp h
  rw [Bool.eq_false_iff]
  simp only [Contract.forbiddenTextCharacter, ne_eq, Bool.or_eq_true, Bool.and_eq_true,
    decide_eq_true_eq]
  omega

theorem isIdCharacter_hexDigit (i : Fin 16) : isIdCharacter (hexDigit (UInt8.ofNat i)) = true := by
  revert i
  decide

theorem isIdCharacter_hexLower (bytes : Bytes) :
    ∀ c ∈ (hexLower bytes).toList, isIdCharacter c = true := by
  rw [hexLower, String.toList_ofList]
  intro c hc
  obtain ⟨byte, _, hdigit⟩ := List.mem_flatMap.mp hc
  obtain ⟨high, low, hhigh, hlow, _⟩ := nibbles byte
  rw [hhigh, hlow] at hdigit
  rcases List.mem_cons.mp hdigit with rfl | hdigit
  · exact isIdCharacter_hexDigit high
  · rw [List.mem_singleton.mp hdigit]
    exact isIdCharacter_hexDigit low

theorem length_hexLower (bytes : Bytes) : (hexLower bytes).length = 2 * bytes.length := by
  rw [hexLower, String.length_ofList, List.length_flatMap]
  simp [Nat.mul_comm]

theorem isIdCharacter_hex {tag : String} (digest : Digest)
    (htag : ∀ c ∈ tag.toList, isIdCharacter c = true) :
    ∀ c ∈ (tag ++ "-" ++ hexLower digest.toList).toList, isIdCharacter c = true := by
  intro c hc
  rw [String.toList_append, String.toList_append, List.mem_append, List.mem_append] at hc
  rcases hc with (hc | hc) | hc
  · exact htag c hc
  · rw [List.mem_singleton.mp hc]
    rfl
  · exact isIdCharacter_hexLower _ c hc

theorem isOpaqueId_iff : Contract.isOpaqueId value = true ↔
    1 ≤ value.length ∧ value.length ≤ 128 ∧ ∀ c ∈ value.toList, isIdCharacter c = true := by
  show (_ && _ && value.toList.all isIdCharacter) = true ↔ _
  rw [Bool.and_eq_true, Bool.and_eq_true, decide_eq_true_eq, decide_eq_true_eq, List.all_eq_true,
    and_assoc]

/-- The shape of every id that is derived from a hash. -/
theorem isOpaqueId_hex {tag : String} (digest : Digest) (hlength : tag.length ≤ 63)
    (htag : ∀ c ∈ tag.toList, isIdCharacter c = true) :
    Contract.isOpaqueId (tag ++ "-" ++ hexLower digest.toList) = true := by
  have hsize : (tag ++ "-" ++ hexLower digest.toList).length = tag.length + 65 := by
    rw [String.length_append, String.length_append, length_hexLower, Vector.length_toList]
    rfl
  rw [isOpaqueId_iff, hsize]
  exact ⟨by omega, by omega, isIdCharacter_hex digest htag⟩

/-- The test that `valid_opaque_id` makes of a byte. -/
def isIdByte (byte : UInt8) : Bool := Broker.isAsciiAlphanumeric byte || byte == 45 || byte == 95

theorem isIdByte_iff {byte : UInt8} : isIdByte byte = true ↔
    48 ≤ byte.toNat ∧ byte.toNat ≤ 57 ∨ 65 ≤ byte.toNat ∧ byte.toNat ≤ 90 ∨
      97 ≤ byte.toNat ∧ byte.toNat ≤ 122 ∨ byte.toNat = 45 ∨ byte.toNat = 95 := by
  simp only [isIdByte, Broker.isAsciiAlphanumeric, Bool.or_eq_true, Bool.and_eq_true,
    decide_eq_true_eq, beq_iff_eq, UInt8.le_iff_toNat_le, ← UInt8.toNat_inj]
  simp only [UInt8.reduceToNat]
  omega

/-- A character whose encoding consists of such bytes is one of an id. -/
theorem isIdCharacter_of_bytes {c : Char}
    (h : ∀ byte ∈ String.utf8EncodeChar c, isIdByte byte = true) : isIdCharacter c = true := by
  simp only [String.utf8EncodeChar] at h
  by_cases hascii : c.val.toNat ≤ 0x7f
  · rw [if_pos hascii] at h
    have hbyte := isIdByte_iff.mp (h _ List.mem_cons_self)
    rw [UInt8.toNat_ofNat'] at hbyte
    rw [isIdCharacter_iff, Char.toNat]
    omega
  · -- the first byte of a longer encoding is not ASCII
    exfalso
    rw [if_neg hascii] at h
    split at h
    · have hbyte := isIdByte_iff.mp (h _ List.mem_cons_self)
      rw [UInt8.toNat_ofNat'] at hbyte
      omega
    · split at h
      · have hbyte := isIdByte_iff.mp (h _ List.mem_cons_self)
        rw [UInt8.toNat_ofNat'] at hbyte
        omega
      · have hbyte := isIdByte_iff.mp (h _ List.mem_cons_self)
        rw [UInt8.toNat_ofNat'] at hbyte
        omega

/-- The two languages test the same ids. -/
theorem isOpaqueId_of_valid (h : validOpaqueId value = true) :
    Contract.isOpaqueId value = true := by
  have hbytes : Bytes.ofString value = value.toList.flatMap String.utf8EncodeChar := by
    rw [← Bytes.ofString_ofList, String.ofList_toList]
  rw [validOpaqueId, Bool.and_eq_true, Bool.and_eq_true, decide_eq_true_eq, List.all_eq_true,
    hbytes, Bool.not_eq_true'] at h
  obtain ⟨⟨hsome, hsize⟩, hall⟩ := h
  have hlength : value.length ≤ value.utf8ByteSize := by
    rw [← Bytes.length_ofString, hbytes, List.length_flatMap, ← String.length_toList]
    induction value.toList with
    | nil => exact Nat.le_refl _
    | cons c chars ih =>
      have hpos : 1 ≤ (String.utf8EncodeChar c).length := by
        rw [String.length_utf8EncodeChar]
        exact Char.utf8Size_pos c
      rw [List.map_cons, List.sum_cons, List.length_cons]
      omega
  refine isOpaqueId_iff.mpr ⟨?_, by omega, fun c hc => isIdCharacter_of_bytes fun byte hbyte =>
    hall byte (List.mem_flatMap.mpr ⟨c, hc, hbyte⟩)⟩
  rw [Nat.one_le_iff_ne_zero, ne_eq, String.length_eq_zero_iff]
  intro hempty
  rw [hempty] at hsome
  cases hsome

/-- The part of a text behind its last separator. -/
theorem rsplitOnce_subset {separator : Char} {text stem rest : List Char}
    (h : rsplitOnce separator text = some (stem, rest)) : ∀ c ∈ rest, c ∈ text := by
  unfold rsplitOnce at h
  split at h
  · cases h
  · cases h
    intro c hc
    rw [List.mem_reverse] at hc
    exact List.mem_reverse.mp ((List.takeWhile_subset _) hc)

/-- The fixed parts of a reference. -/
theorem not_forbiddenText_marks :
    ("… [ref ".toList ++ "]".toList).all (!Contract.forbiddenTextCharacter ·) = true := by decide

theorem referenceSuffix_spec {candidateId : String}
    (hid : ∀ c ∈ candidateId.toList, isIdCharacter c = true) :
    (referenceSuffix candidateId).length ≤ 20 ∧
      ∀ c ∈ (referenceSuffix candidateId).toList, Contract.forbiddenTextCharacter c = false := by
  obtain ⟨digest, hdigest⟩ : ∃ digest, digest =
    ((rsplitOnce '-' candidateId.toList).map (·.2)).getD candidateId.toList := ⟨_, rfl⟩
  have hsubset : ∀ c ∈ digest, isIdCharacter c = true := by
    rw [hdigest]
    cases hsplit : rsplitOnce '-' candidateId.toList with
    | none => exact hid
    | some parts =>
      intro c hc
      exact hid c (rsplitOnce_subset hsplit c hc)
  unfold referenceSuffix
  dsimp only
  rw [← hdigest]
  constructor
  · have htake := List.length_take_le referenceScalars digest.reverse
    have hdigits := @String.length_ofList (digest.reverse.take referenceScalars).reverse
    rw [List.length_reverse] at hdigits
    rw [String.length_append, String.length_append, hdigits]
    have hfixed : "… [ref ".length + "]".length = 8 := rfl
    have hscalars : referenceScalars = 12 := rfl
    omega
  · intro c hc
    have hmarks := List.all_eq_true.mp not_forbiddenText_marks
    simp only [Bool.not_eq_true'] at hmarks
    rw [String.toList_append, String.toList_append, List.mem_append, List.mem_append] at hc
    rcases hc with (hc | hc) | hc
    · exact hmarks c (List.mem_append_left _ hc)
    · rw [String.toList_ofList, List.mem_reverse] at hc
      exact not_forbiddenText_of_id (hsubset c (List.mem_reverse.mp (List.mem_of_mem_take hc)))
    · exact hmarks c (List.mem_append_right _ hc)

theorem validText_sanitizeCandidatePath (laws : TextLaws env) {candidateId : String}
    (hid : ∀ c ∈ candidateId.toList, isIdCharacter c = true) (text : String) :
    Contract.validText false (sanitizeCandidatePath env text candidateId) = true := by
  obtain ⟨hsuffix, hplain⟩ := referenceSuffix_spec hid
  unfold sanitizeCandidatePath
  dsimp only
  obtain ⟨hlength, hchars⟩ := filtered_spec text (maxTextScalars + 1)
  split
  · next hfits =>
    split
    · exact validText_redacted
    · next hkept =>
      -- the path is whole
      have hsublist := laws.trim_infix (String.ofList ((text.toList.filter isPlainText).take
        (maxTextScalars + 1)))
      rw [String.toList_ofList] at hsublist
      refine validText_iff.mpr ⟨.inr fun hempty => hkept (by rw [hempty]; rfl), ?_, ?_⟩
      · rw [← String.length_toList]
        exact Nat.le_trans hsublist.length_le hfits
      · intro c hc
        exact hchars c (hsublist.subset hc)
  · -- the path was cut, and ends in a reference
    obtain ⟨kept, hkept⟩ : ∃ kept, kept = env.trimEnd (String.ofList
      (((text.toList.filter isPlainText).take (maxTextScalars + 1)).take
        (maxTextScalars - (referenceSuffix candidateId).length))) := ⟨_, rfl⟩
    have hbegin := laws.trimEnd_prefix (String.ofList
      (((text.toList.filter isPlainText).take (maxTextScalars + 1)).take
        (maxTextScalars - (referenceSuffix candidateId).length)))
    rw [← hkept] at hbegin ⊢
    rw [String.toList_ofList] at hbegin
    have hlong := Nat.le_trans hbegin.length_le (List.length_take_le _ _)
    rw [String.length_toList] at hlong
    have hscalars : maxTextScalars = 512 := rfl
    have hpoints : Contract.maxTextCodePoints = 512 := rfl
    have hredacted : redactedText.length = 19 := rfl
    refine validText_iff.mpr ⟨.inr ?_, ?_, ?_⟩
    · intro hempty
      have hnothing := congrArg String.length hempty
      rw [String.length_append] at hnothing
      have hsome : 8 ≤ (referenceSuffix candidateId).length := by
        unfold referenceSuffix
        dsimp only
        rw [String.length_append, String.length_append]
        have hfixed : "… [ref ".length + "]".length = 8 := rfl
        omega
      rw [String.length_empty] at hnothing
      omega
    · rw [String.length_append]
      split <;> omega
    · intro c hc
      rw [String.toList_append, List.mem_append] at hc
      rcases hc with hc | hc
      · split at hc
        · exact (validText_iff.mp validText_redacted).2.2 c hc
        · exact hchars c (List.mem_of_mem_take (hbegin.subset hc))
      · exact hplain c hc

/-! ## Numbers -/

theorem bigInt_toString (n : Nat) : bigInt (toString n) = n := by
  rw [bigInt, Decimal.toList_toString, Nat.ofDigitChars_ten_toDigits]

/-- The text of a word is a decimal of the contract. -/
theorem validCandidateId_toString {n : Nat} (h : n < 2 ^ 64) :
    validCandidateId (toString n) = true := by
  have hdecimal : isUnsignedDecimal (toString n) = true := by
    unfold isUnsignedDecimal
    rw [Bool.or_eq_true, Bool.and_eq_true, decide_eq_true_eq]
    cases n with
    | zero => exact .inl rfl
    | succ n =>
      exact .inr ⟨Decimal.isDigit_toString _, Decimal.head?_toString (Nat.zero_lt_succ n)⟩
  rw [validCandidateId, hdecimal, bigInt_toString, decide_eq_true (Decimal.length_toString_le h),
    decide_eq_true h]
  rfl

/-! ## Extensions -/

/-- What canonical extensions have in common. -/
structure CanonicalExtension (env : RowEnv) (extension : String) : Prop where
  length : extension.length ≤ maxExtensionScalars
  allowed : ∀ c ∈ extension.toList, ¬Reserved c
  lowercase : env.toLowercase extension = extension
  trim : env.trim extension = extension

/-- The lower case of a trimmed text without reserved characters, unless it is too long. -/
theorem canonicalExtension_lowercase (laws : TextLaws env)
    (hallowed : ∀ c ∈ (env.trim value).toList, ¬Reserved c)
    (hlength : (env.toLowercase (env.trim value)).length ≤ maxExtensionScalars) :
    CanonicalExtension env (env.toLowercase (env.trim value)) where
  length := hlength
  allowed c hc hreserved := hallowed c (laws.lowercase_reserved _ c hreserved hc) hreserved
  lowercase := laws.lowercase_idem _
  trim := laws.trim_lowercase _

theorem canonicalExtension_eq_some {extension : String} (laws : TextLaws env)
    (h : canonicalExtension env.toResultsEnv value = some extension) :
    CanonicalExtension env extension := by
  unfold canonicalExtension at h
  dsimp only at h
  split at h
  · cases h
  · next hallowed =>
    rw [not_or, not_or, not_or] at hallowed
    obtain ⟨_, _, hforbidden, hmarks⟩ := hallowed
    split at h
    · next hlength =>
      obtain rfl := Option.some.inj h
      refine canonicalExtension_lowercase laws (fun c hc hreserved => ?_) hlength
      rcases hreserved with hbad | hmark
      · exact hforbidden (List.any_eq_true.mpr ⟨c, hc, hbad⟩)
      · exact hmarks (List.any_eq_true.mpr ⟨c, hc, List.contains_iff_mem.mpr hmark⟩)
    · cases h

/-- A canonical extension is its own canonical form. -/
theorem CanonicalExtension.canonical {extension : String} (h : CanonicalExtension env extension)
    (hne : extension ≠ "") : canonicalExtension env.toResultsEnv extension = some extension := by
  unfold canonicalExtension
  dsimp only
  rw [h.trim, h.lowercase, if_neg, if_pos h.length]
  rw [not_or, not_or, not_or, String.isEmpty_iff, Nat.not_lt, Bool.not_eq_true, Bool.not_eq_true,
    List.any_eq_false, List.any_eq_false]
  refine ⟨hne, h.length, fun c hc hbad => h.allowed c hc (.inl hbad), fun c hc hmark => ?_⟩
  exact h.allowed c hc (.inr (List.contains_iff_mem.mp hmark))

/-- The canonical form that the window makes is one for the native side as well. -/
theorem canonicalExtension_workspace {extension : String} (laws : TextLaws env)
    (agree : TablesAgree env js)
    (h : ResultsWorkspace.canonicalExtension js value = some extension) :
    extension = "" ∨ CanonicalExtension env extension := by
  unfold ResultsWorkspace.canonicalExtension at h
  split at h
  · cases h
    exact .inl rfl
  · split at h
    · cases h
    · next hforbidden =>
      have hquery : ∀ c ∈ value.toList, forbiddenQueryCharacter c = false := by
        intro c hc
        rw [Bool.eq_false_iff]
        intro hbad
        rw [← forbiddenQueryCharacter_eq] at hbad
        exact hforbidden (List.any_eq_true.mpr ⟨c, hc, hbad⟩)
      have htrimmed : ∀ c ∈ (env.trim value).toList, forbiddenQueryCharacter c = false :=
        fun c hc => hquery c ((laws.trim_infix value).subset hc)
      dsimp only at h
      rw [agree.trim value hquery, agree.lowercase _ htrimmed] at h
      split at h
      · cases h
      · next hmarks =>
        simp only [Bool.or_eq_true, not_or, decide_eq_true_eq, List.contains_iff_mem] at hmarks
        obtain ⟨⟨⟨_, hdot⟩, hslash⟩, hbackslash⟩ := hmarks
        split at h
        · next hlength =>
          obtain rfl := Option.some.inj h
          refine .inr (canonicalExtension_lowercase laws (fun c hc hreserved => ?_) hlength)
          rcases hreserved with hbad | hmark
          · rw [htrimmed c hc] at hbad
            cases hbad
          · rw [List.mem_cons, List.mem_cons, List.mem_singleton] at hmark
            rcases hmark with rfl | rfl | rfl
            · exact hdot hc
            · exact hslash hc
            · exact hbackslash hc
        · cases h

theorem CanonicalExtension.isNormalized {extension : String} (h : CanonicalExtension env extension)
    (agree : TablesAgree env js) : Contract.isNormalizedExtension js extension = true := by
  obtain ⟨hlength, hallowed, hlower, htrim⟩ := h
  have hquery : ∀ c ∈ extension.toList, forbiddenQueryCharacter c = false := by
    intro c hc
    rw [Bool.eq_false_iff]
    exact fun hbad => hallowed c hc (.inl hbad)
  have htext : Contract.validText true extension = true := by
    refine validText_iff.mpr ⟨.inl rfl, Nat.le_trans hlength (by decide), ?_⟩
    exact fun c hc => not_forbiddenText_of_query (hquery c hc)
  have hmarks : extension.toList.any
      (['.', '/', '\\', Char.ofNat 0xFEFF].contains ·) = false := by
    rw [List.any_eq_false]
    intro c hc hmark
    rw [List.contains_iff_mem, List.mem_cons, List.mem_cons, List.mem_cons,
      List.mem_singleton] at hmark
    apply hallowed c hc
    rcases hmark with rfl | rfl | rfl | rfl
    · exact .inr (by decide)
    · exact .inr (by decide)
    · exact .inr (by decide)
    · exact .inl (by decide)
  rw [Contract.isNormalizedExtension, htext, hmarks, agree.lowercase extension hquery,
    agree.trim extension hquery, hlower, htrim, decide_eq_true hlength]
  simp

/-- The extension of every candidate is in the normal form of the contract. -/
theorem isNormalizedExtension_candidate (laws : TextLaws env) (agree : TablesAgree env js)
    (candidate : Candidate) :
    Contract.isNormalizedExtension js (candidateExtension env.toResultsEnv candidate) = true := by
  have hempty : Contract.isNormalizedExtension js "" = true := by
    have htrim : env.trim "" = "" :=
      String.toList_eq_nil_iff.mp (List.infix_nil.mp (laws.trim_infix ""))
    refine CanonicalExtension.isNormalized ⟨by decide, ?_, laws.lowercase_empty, htrim⟩ agree
    intro c hc
    cases hc
  unfold candidateExtension
  split
  · exact hempty
  · next stem extension _ =>
    split
    · exact hempty
    · cases hcanonical : canonicalExtension env.toResultsEnv (String.ofList extension) with
      | none => exact hempty
      | some normalized =>
        exact (canonicalExtension_eq_some laws hcanonical).isNormalized agree

end Undelete.Desktop
