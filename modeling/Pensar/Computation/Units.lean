import Mathlib.Tactic

/-!
# Whole units

How many units go into an amount, and the amount that these are.

* `cast_wholeUnits_eq_iff`: the number of units is the amount that they are if the unit is one, or
  not even one unit goes into the amount.
* `wholeUnits_inv`: with a unit that is the inverse of a fraction the number is a quotient of
  integers.
-/

set_option autoImplicit false

namespace Pensar.Computation

section Field

variable {K : Type*} [Field K] [LinearOrder K] [IsStrictOrderedRing K] [FloorRing K]

/-- How many units go into the amount. -/
def wholeUnits (unit amount : K) : ℤ := ⌊amount / unit⌋

variable {unit amount : K}

theorem wholeUnits_nonneg (hunit : 0 < unit) (hamount : 0 ≤ amount) :
    0 ≤ wholeUnits unit amount :=
  Int.floor_nonneg.mpr (div_nonneg hamount hunit.le)

theorem wholeUnits_mul_nonneg (hunit : 0 < unit) (hamount : 0 ≤ amount) :
    0 ≤ (wholeUnits unit amount : K) * unit :=
  mul_nonneg (Int.cast_nonneg (wholeUnits_nonneg hunit hamount)) hunit.le

theorem wholeUnits_eq_zero_iff (hunit : 0 < unit) (hamount : 0 ≤ amount) :
    wholeUnits unit amount = 0 ↔ amount < unit := by
  rw [wholeUnits, Int.floor_eq_zero_iff, Set.mem_Ico, div_lt_one hunit]
  exact and_iff_right (div_nonneg hamount hunit.le)

/-- **A number of units read as a number of ones.** -/
theorem cast_wholeUnits_eq_iff (hunit : 0 < unit) (hamount : 0 ≤ amount) :
    (wholeUnits unit amount : K) = wholeUnits unit amount * unit ↔ unit = 1 ∨ amount < unit := by
  rw [eq_comm, mul_right_eq_self₀, Int.cast_eq_zero, wholeUnits_eq_zero_iff hunit hamount]

end Field

/-- **The number of units as a quotient of integers.** -/
theorem wholeUnits_inv (fraction : ℚ) (amount : ℤ) :
    wholeUnits fraction⁻¹ (amount : ℚ) = amount * fraction.num / fraction.den := by
  have hquotient : (amount : ℚ) / fraction⁻¹ = ((amount * fraction.num : ℤ) : ℚ) /
      (fraction.den : ℚ) := by
    rw [div_inv_eq_mul, Int.cast_mul, mul_div_assoc, Rat.num_div_den]
  rw [wholeUnits, hquotient, Rat.floor_intCast_div_natCast]

end Pensar.Computation
