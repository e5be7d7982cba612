import Mathlib.Algebra.Group.Int.Defs
import Mathlib.Algebra.Group.Nat.Defs

/-!
# Fixed-width arithmetic on `Nat`

Machine words are natural numbers below `2 ^ 64`. A checked operation returns
`none` on overflow, a saturating one stops at the largest word, and a wrapping
one reduces modulo the word size. Once a bound is known, the wrapping operations
are the ordinary ones.
-/

namespace U64

/-- `a + b`, or `none` when the sum does not fit. -/
def checkedAdd (a b : Nat) : Option Nat :=
  if a + b < 2 ^ 64 then some (a + b) else none

/-- `a * b`, or `none` when the product does not fit. -/
def checkedMul (a b : Nat) : Option Nat :=
  if a * b < 2 ^ 64 then some (a * b) else none

/-- `a + b`, stopping at the largest word. -/
def saturatingAdd (a b : Nat) : Nat := min (a + b) (2 ^ 64 - 1)

/-- `a + b` modulo the word size. -/
def wrappingAdd (a b : Nat) : Nat := (a + b) % 2 ^ 64

/-- `a * b` modulo the word size. -/
def wrappingMul (a b : Nat) : Nat := a * b % 2 ^ 64

theorem checkedAdd_eq_some {a b c : Nat} :
    checkedAdd a b = some c ↔ a + b < 2 ^ 64 ∧ a + b = c := by
  simp [checkedAdd]

theorem checkedMul_eq_some {a b c : Nat} :
    checkedMul a b = some c ↔ a * b < 2 ^ 64 ∧ a * b = c := by
  simp [checkedMul]

theorem checkedAdd_of_lt {a b : Nat} (h : a + b < 2 ^ 64) : checkedAdd a b = some (a + b) :=
  if_pos h

theorem checkedMul_of_lt {a b : Nat} (h : a * b < 2 ^ 64) : checkedMul a b = some (a * b) :=
  if_pos h

theorem saturatingAdd_of_lt {a b : Nat} (h : a + b < 2 ^ 64) : saturatingAdd a b = a + b := by
  simp only [saturatingAdd]; omega

theorem wrappingAdd_of_lt {a b : Nat} (h : a + b < 2 ^ 64) : wrappingAdd a b = a + b :=
  Nat.mod_eq_of_lt h

theorem wrappingMul_of_lt {a b : Nat} (h : a * b < 2 ^ 64) : wrappingMul a b = a * b :=
  Nat.mod_eq_of_lt h

end U64
