import Undelete.ForStd.U64

/-!
# Decimal texts of machine words

What `str::parse` accepts as a 64-bit word, and that it reads back what `to_string` writes.
-/

namespace Decimal

/-- The value of a text of at least one decimal digit that fits a word. -/
def digitsValue (digits : List Char) : Option Nat :=
  if digits.isEmpty || !digits.all Char.isDigit then none
  else
    let n := Nat.ofDigitChars 10 digits 0
    if n < 2 ^ 64 then some n else none

/-- `str::parse::<u64>`: decimal digits, behind an optional plus sign. -/
def parseU64 (text : String) : Option Nat :=
  match text.toList with
  | '+' :: digits => digitsValue digits
  | digits => digitsValue digits

theorem toList_toString (n : Nat) : (toString n).toList = Nat.toDigits 10 n := by
  rw [Nat.toString_eq_repr, Nat.toList_repr]

theorem isDigit_toString (n : Nat) : (toString n).toList.all Char.isDigit = true := by
  rw [toList_toString, List.all_eq_true]
  intro c hc
  exact Nat.isDigit_of_mem_toDigits (by decide) (by decide) hc

theorem length_toString_le {n : Nat} (h : n < 2 ^ 64) : (toString n).length ≤ 20 := by
  rw [← String.length_toList, toList_toString]
  exact (Nat.length_toDigits_le_iff (by decide) (by decide)).mpr (by omega)

/-- No decimal text but that of zero starts with a zero. -/
theorem head?_toString {n : Nat} (h : 0 < n) : (toString n).toList.head?.any (· ≠ '0') = true := by
  rw [toList_toString]
  induction n using Nat.strongRecOn with
  | ind n ih =>
    by_cases hdigit : n < 10
    · rw [Nat.toDigits_of_lt_base hdigit]
      show decide (n.digitChar ≠ '0') = true
      have hne : ∀ d : Fin 10, 0 < d.val → d.val.digitChar ≠ '0' := by decide
      exact decide_eq_true (hne ⟨n, hdigit⟩ h)
    · rw [Nat.toDigits_of_base_le (by decide) (by omega)]
      have hhead := ih (n / 10) (by omega) (by omega)
      cases hdigits : Nat.toDigits 10 (n / 10) with
      | nil => exact absurd hdigits Nat.toDigits_ne_nil
      | cons c digits =>
        rw [hdigits] at hhead
        exact hhead

theorem toString_inj {n m : Nat} (h : toString n = toString m) : n = m := by
  have hdigits := congrArg String.toList h
  rw [toList_toString, toList_toString] at hdigits
  rw [← Nat.ofDigitChars_ten_toDigits (n := n), hdigits, Nat.ofDigitChars_ten_toDigits]

end Decimal
