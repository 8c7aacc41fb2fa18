import Pensar.Analysis.DigitGrouping

/-!
# The text of an integer

The stream writes the sign of a negative number, and `to_string` writes another one in front of
it.  Of a number of a character type the stream writes the character, which is never the
number's decimal numeral.  What is left are the numbers from 0 on of the other types, and for
these both forms of `to_string` are right (`toString_formats_iff`).
-/

set_option autoImplicit false

namespace Pensar.Analysis

open Pensar.Computation
open Pensar.Computation.Decimal
open Pensar.Model

def sign (n : ℤ) : S := if n < 0 then [Wc '-'] else []

variable {T : IntType}

/-- The number's sign and the decimal numeral of its absolute value, the latter grouped in
threes from the right where this is asked for. -/
def FormatsNumber (number : T.Number) : Prop :=
  ∃ digits, IsNumeral digits number.val.natAbs ∧ ∀ g,
    IntType.toString false number g = sign number.val ++ digits ∧
      IntType.toString true number g = sign number.val ++ grouped 3 g digits

theorem length_numeral (number : T.Number) : (numeral number.val.natAbs).length < 2 ^ 32 := by
  have hmax : T.max < 2 ^ 64 := by cases T <;> decide
  have hmin : -2 ^ 64 < T.min := by cases T <;> decide
  have hlt : number.val.natAbs < 10 ^ 20 := by
    have hrange := number.property
    omega
  have hle : (numeral number.val.natAbs).length ≤ 20 := length_numeral_le (by norm_num) hlt
  omega

/-- The sign that `to_string` puts in front of what the stream has written. -/
theorem toString_false (number : T.Number) (g : C) :
    IntType.toString false number g = sign number.val ++ IntType.inserted number := by
  by_cases hneg : number.val < 0
  · simp only [IntType.toString, sign, hneg, if_true, Bool.false_eq_true, if_false,
      List.singleton_append]
  · simp only [IntType.toString, sign, hneg, if_false, Bool.false_eq_true, List.nil_append]

/-- The stream would have to write the digits alone. -/
theorem inserted_of_formats {number : T.Number} (h : FormatsNumber number) :
    IsNumeral (IntType.inserted number) number.val.natAbs := by
  obtain ⟨digits, hnumeral, htext⟩ := h
  obtain ⟨hplain, -⟩ := htext (Wc ',')
  rw [toString_false] at hplain
  rwa [List.append_cancel_left hplain]

theorem not_formats_of_neg {number : T.Number} (hT : T.isCharacter = false)
    (hneg : number.val < 0) : ¬ FormatsNumber number := by
  intro h
  have hnumeral := inserted_of_formats h
  have hinserted : IntType.inserted number = Wc '-' :: numeral number.val.natAbs := by
    simp only [IntType.inserted, integer, hT, hneg, Bool.false_eq_true, if_false, if_true]
    rfl
  have hminus := hnumeral.digits (Wc '-') (hinserted ▸ List.mem_cons_self)
  exact absurd hminus (by decide)

theorem not_formats_of_isCharacter {number : T.Number} (hT : T.isCharacter = true) :
    ¬ FormatsNumber number := by
  intro h
  have hnumeral := inserted_of_formats h
  have hinserted : IntType.inserted number = [UInt8.ofInt number.val] := by
    simp only [IntType.inserted, hT, if_true]
  rw [hinserted] at hnumeral
  have hrange : -128 ≤ number.val ∧ number.val < 256 := by
    have hproperty := number.property
    cases T with
    | int8 => exact ⟨hproperty.1, hproperty.2.trans_lt (by decide)⟩
    | uint8 => exact ⟨le_trans (by decide) hproperty.1, hproperty.2.trans_lt (by decide)⟩
    | _ => cases hT
  have hnat : (UInt8.ofInt number.val).toNat = (number.val % 2 ^ 8).toNat := by
    rw [UInt8.ofInt, UInt8.toNat_ofNat']
    omega
  obtain ⟨hge, hle⟩ := isDecimal_iff.mp (hnumeral.digits _ List.mem_cons_self)
  have hvalue : (UInt8.ofInt number.val).toNat - 48 = number.val.natAbs := by
    rw [← hnumeral.value, value, valueFrom, List.foldl_cons, List.foldl_nil]
    omega
  omega

/-- **Formatting**: right for the numbers from 0 on of a type that is no character type. -/
theorem toString_formats_iff (number : T.Number) :
    FormatsNumber number ↔ T.isCharacter = false ∧ 0 ≤ number.val := by
  constructor
  · intro h
    refine ⟨?_, ?_⟩
    · exact Bool.eq_false_iff.mpr fun hT => not_formats_of_isCharacter hT h
    · by_contra hneg
      cases hT : T.isCharacter with
      | false => exact not_formats_of_neg hT (not_le.mp hneg) h
      | true => exact not_formats_of_isCharacter hT h
  · rintro ⟨hT, hpos⟩
    refine ⟨numeral number.val.natAbs, isNumeral_numeral _, fun g => ?_⟩
    have hsign : ¬ number.val < 0 := not_lt.mpr hpos
    have hinserted : IntType.inserted number = numeral number.val.natAbs := by
      simp only [IntType.inserted, integer, hT, hsign, Bool.false_eq_true, if_false]
    simp only [IntType.toString, hinserted, hsign, sign, Bool.false_eq_true, if_false, if_true,
      List.nil_append, true_and]
    exact insertGroupingChar_eq_grouped _ g (length_numeral number)

theorem toString_minus_five :
    ¬ ∀ (T : IntType) (number : T.Number), FormatsNumber number := by
  intro h
  obtain ⟨digits, hnumeral, htext⟩ := h .int32 ⟨-5, by decide⟩
  obtain ⟨hplain, -⟩ := htext (Wc ',')
  have htwo : IntType.toString false (⟨-5, by decide⟩ : IntType.int32.Number) = W "--5" := by decide
  rw [htwo] at hplain
  have hdigits : digits = W "-5" := (List.cons.inj hplain).2.symm
  have hminus := hnumeral.digits (Wc '-') (by rw [hdigits]; decide)
  exact absurd hminus (by decide)

end Pensar.Analysis
