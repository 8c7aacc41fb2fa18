import Pensar.Analysis.IntegerText
import Pensar.Model.StopWatch

/-!
# Durations as text

`elapsed_formatted` divides off one unit after the other, so that every field is what is left of
the larger units and smaller than the next larger one (`divideOff_eq`).  Padded to their widths
the fields have fixed places from the end of the text, and only the hours can be longer.

Main result: `elapsedFormatted_keepsAll`.
-/

set_option autoImplicit false

namespace Pensar.Analysis

open Pensar.Computation
open Pensar.Computation.Decimal
open Pensar.Model
open Pensar.Model.StopWatch (ElapsedType elapsedType divideOff elapsedFormatted)

/-! ## Padding -/

theorem toString_of_nonneg {number : ElapsedType} (h : 0 ≤ number.val) (g : C) :
    IntType.toString false number g = numeral number.val.natAbs := by
  have hsign : ¬ number.val < 0 := not_lt.mpr h
  rw [toString_false, sign, if_neg hsign, List.nil_append]
  simp only [IntType.inserted, integer, hsign, if_false]
  rfl

/-- A width that is a positive `int`. -/
theorem padLeft0_eq {number : ElapsedType} (h : 0 ≤ number.val) {n : UInt32}
    (hzero : n.toUInt64 ≠ 0) (hint : n.toUInt64.toUInt32.toInt32 > 0) :
    padLeft0 number n = .value (padded n.toNat number.val.natAbs) := by
  have hlen : (UInt64.ofNat (numeral number.val.natAbs).length).toNat =
      (numeral number.val.natAbs).length := by
    have hlt := length_numeral number
    rw [UInt64.toNat_ofNat', Nat.mod_eq_of_lt (by omega)]
  have hwidth : n.toUInt64.toNat = n.toNat := UInt32.toNat_toUInt64 n
  have hleft : ¬ PAD_LEFT = PAD_RIGHT := by decide
  rw [padLeft0, padCopy, pad, if_neg hzero, if_pos hint, toString_of_nonneg h, padded]
  simp only [if_neg hleft, Outcome.value.injEq]
  by_cases hshort : n.toUInt64 > UInt64.ofNat (numeral number.val.natAbs).length
  · have hle : UInt64.ofNat (numeral number.val.natAbs).length ≤ n.toUInt64 := by
      rw [gt_iff_lt, UInt64.lt_iff_toNat_lt] at hshort
      exact UInt64.le_iff_toNat_le.mpr hshort.le
    rw [if_pos hshort, UInt64.toNat_sub_of_le _ _ hle, hlen, hwidth]
    rfl
  · have hwide : n.toNat ≤ (numeral number.val.natAbs).length := by
      rw [gt_iff_lt, UInt64.lt_iff_toNat_lt, hlen, hwidth] at hshort
      exact Nat.not_lt.mp hshort
    rw [if_neg hshort, Nat.sub_eq_zero_of_le hwide, List.replicate_zero, List.nil_append]

/-! ## Dividing off a unit -/

theorem int64_min_le {n : ℤ} (h : 0 ≤ n) : IntType.int64.min ≤ n := by
  have hmin : IntType.int64.min ≤ 0 := by
    norm_num [IntType.min, IntType.signed, IntType.bits]
  exact hmin.trans h

theorem elapsedType_eq (bound : ElapsedType) {n : ℤ} (hn : 0 ≤ n) (hle : n ≤ bound.val) :
    ∃ e, elapsedType n = .value e ∧ e.val = n := by
  rw [elapsedType, dif_pos ⟨int64_min_le hn, hle.trans bound.property.2⟩]
  exact ⟨_, rfl, rfl⟩

/-- One more unit; what is left is not negative either. -/
theorem divideOff_eq {elapsed : ElapsedType} (h : 0 ≤ elapsed.val) (unit : ℤ) (hunit : 0 < unit) :
    ∃ count rest : ElapsedType, divideOff elapsed unit = .value (count, rest) ∧
      (count.val = elapsed.val / unit ∧ rest.val = elapsed.val % unit) ∧
      0 ≤ count.val ∧ 0 ≤ rest.val := by
  have hdiv : 0 ≤ elapsed.val / unit := Int.ediv_nonneg h hunit.le
  have hmod : 0 ≤ elapsed.val % unit := Int.emod_nonneg _ hunit.ne'
  have hsum : elapsed.val / unit * unit + elapsed.val % unit = elapsed.val :=
    Int.ediv_mul_add_emod _ _
  obtain ⟨count, hcount, hcountval⟩ := elapsedType_eq elapsed hdiv
    (Int.ediv_le_self _ h)
  have hnonneg : 0 ≤ elapsed.val / unit * unit := mul_nonneg hdiv hunit.le
  obtain ⟨product, hproduct, hproductval⟩ := elapsedType_eq elapsed hnonneg (by omega)
  obtain ⟨rest, hrest, hrestval⟩ := elapsedType_eq elapsed
    (n := elapsed.val - product.val) (by omega) (by omega)
  refine ⟨count, rest, ?_, ⟨hcountval, by omega⟩, by omega, by omega⟩
  rw [divideOff, Int.tdiv_eq_ediv_of_nonneg h, hcount, Outcome.value_bind, hcountval, hproduct,
    Outcome.value_bind, hrest, Outcome.value_bind, Outcome.pure_eq]

/-! ## The fields -/

/-- The digits of the fields. -/
structure Fields where
  hours : S
  minutes : S
  seconds : S
  milliseconds : S
  microseconds : S
  nanoseconds : S

namespace Fields

def text (f : Fields) : S :=
  f.hours ++ W ":" ++ f.minutes ++ W ":" ++ f.seconds ++ W "." ++ f.milliseconds ++ W "." ++
    f.microseconds ++ W "." ++ f.nanoseconds

/-- `width` digits, with a value below `bound`. -/
def IsField (width bound : ℕ) (digits : S) : Prop :=
  (∀ c ∈ digits, isDecimal c = true) ∧ digits.length = width ∧ value digits < bound

/-- The form `H:M:S.mmm.uuu.nnn`. -/
structure WellFormed (f : Fields) : Prop where
  hours_digits : ∀ c ∈ f.hours, isDecimal c = true
  hours_length : 2 ≤ f.hours.length
  minutes : IsField 2 60 f.minutes
  seconds : IsField 2 60 f.seconds
  milliseconds : IsField 3 1000 f.milliseconds
  microseconds : IsField 3 1000 f.microseconds
  nanoseconds : IsField 3 1000 f.nanoseconds

/-- The duration in nanoseconds. -/
def recombined (f : Fields) : ℕ :=
  ((value f.hours * 60 + value f.minutes) * 60 + value f.seconds) * 10 ^ 9 +
    value f.milliseconds * 10 ^ 6 + value f.microseconds * 10 ^ 3 + value f.nanoseconds

/-- The fields have their places from the end of the text. -/
theorem text_inj {f g : Fields} (hf : f.WellFormed) (hg : g.WellFormed) (h : f.text = g.text) :
    f = g := by
  unfold text at h
  obtain ⟨h, hnanoseconds⟩ := List.append_inj' h
    (hf.nanoseconds.2.1.trans hg.nanoseconds.2.1.symm)
  obtain ⟨h, hmicroseconds⟩ := List.append_inj' (List.append_cancel_right h)
    (hf.microseconds.2.1.trans hg.microseconds.2.1.symm)
  obtain ⟨h, hmilliseconds⟩ := List.append_inj' (List.append_cancel_right h)
    (hf.milliseconds.2.1.trans hg.milliseconds.2.1.symm)
  obtain ⟨h, hseconds⟩ := List.append_inj' (List.append_cancel_right h)
    (hf.seconds.2.1.trans hg.seconds.2.1.symm)
  obtain ⟨h, hminutes⟩ := List.append_inj' (List.append_cancel_right h)
    (hf.minutes.2.1.trans hg.minutes.2.1.symm)
  have hhours := List.append_cancel_right h
  cases f
  cases g
  simp only [mk.injEq]
  exact ⟨hhours, hminutes, hseconds, hmilliseconds, hmicroseconds, hnanoseconds⟩

theorem isField_padded {width bound n : ℕ} (hpos : 0 < width) (hn : n < bound)
    (hbound : bound ≤ 10 ^ width) : IsField width bound (padded width n) := by
  refine ⟨fun c hc => isDecimal_of_mem_padded hc, length_padded hpos (by omega), ?_⟩
  rwa [value_padded]

/-- The fields of a duration. -/
def ofNanoseconds (n : ℕ) : Fields where
  hours := padded 2 (n / 3600000000000)
  minutes := padded 2 (n / 60000000000 % 60)
  seconds := padded 2 (n / 1000000000 % 60)
  milliseconds := padded 3 (n / 1000000 % 1000)
  microseconds := padded 3 (n / 1000 % 1000)
  nanoseconds := padded 3 (n % 1000)

theorem isField_sixty (n : ℕ) : IsField 2 60 (padded 2 (n % 60)) :=
  isField_padded (by norm_num) (Nat.mod_lt n (by norm_num)) (by norm_num)

theorem isField_thousand (n : ℕ) : IsField 3 1000 (padded 3 (n % 1000)) :=
  isField_padded (by norm_num) (Nat.mod_lt n (by norm_num)) (by norm_num)

theorem wellFormed_ofNanoseconds (n : ℕ) : (ofNanoseconds n).WellFormed where
  hours_digits _ hc := isDecimal_of_mem_padded hc
  hours_length := le_length_padded 2 _
  minutes := isField_sixty _
  seconds := isField_sixty _
  milliseconds := isField_thousand _
  microseconds := isField_thousand _
  nanoseconds := isField_thousand _

theorem recombined_ofNanoseconds (n : ℕ) : (ofNanoseconds n).recombined = n := by
  simp only [recombined, ofNanoseconds, value_padded]
  omega

end Fields

/-- **What `elapsed_formatted` writes.** -/
theorem elapsedFormatted_eq {n : ElapsedType} (h : 0 ≤ n.val) :
    elapsedFormatted n = .value ((Fields.ofNanoseconds n.val.natAbs).text, []) := by
  have htwo : ∀ number : ElapsedType, 0 ≤ number.val →
      padLeft0 number 2 = .value (padded 2 number.val.natAbs) :=
    fun _ h => padLeft0_eq h (by decide) (by decide)
  have hthree : ∀ number : ElapsedType, 0 ≤ number.val →
      padLeft0 number 3 = .value (padded 3 number.val.natAbs) :=
    fun _ h => padLeft0_eq h (by decide) (by decide)
  obtain ⟨hours, rest1, hhours, ⟨hours_eq, rest1_eq⟩, hours_nonneg, rest1_nonneg⟩ :=
    divideOff_eq h StopWatch.H (by decide)
  obtain ⟨minutes, rest2, hminutes, ⟨minutes_eq, rest2_eq⟩, minutes_nonneg, rest2_nonneg⟩ :=
    divideOff_eq rest1_nonneg StopWatch.M (by decide)
  obtain ⟨seconds, rest3, hseconds, ⟨seconds_eq, rest3_eq⟩, seconds_nonneg, rest3_nonneg⟩ :=
    divideOff_eq rest2_nonneg StopWatch.S (by decide)
  obtain ⟨milliseconds, rest4, hmilliseconds, ⟨milliseconds_eq, rest4_eq⟩,
    milliseconds_nonneg, rest4_nonneg⟩ := divideOff_eq rest3_nonneg StopWatch.MS (by decide)
  obtain ⟨microseconds, nanoseconds, hmicroseconds, ⟨microseconds_eq, nanoseconds_eq⟩,
    microseconds_nonneg, nanoseconds_nonneg⟩ :=
    divideOff_eq rest4_nonneg StopWatch.MICRO_SECOND (by decide)
  simp only [StopWatch.H, StopWatch.M, StopWatch.S, StopWatch.MS, StopWatch.MICRO_SECOND]
    at hours_eq rest1_eq minutes_eq rest2_eq seconds_eq rest3_eq milliseconds_eq rest4_eq
      microseconds_eq nanoseconds_eq
  have hlog : ¬ milliseconds.val > 1000 := by omega
  have hfields : Fields.ofNanoseconds n.val.natAbs =
      { hours := padded 2 hours.val.natAbs
        minutes := padded 2 minutes.val.natAbs
        seconds := padded 2 seconds.val.natAbs
        milliseconds := padded 3 milliseconds.val.natAbs
        microseconds := padded 3 microseconds.val.natAbs
        nanoseconds := padded 3 nanoseconds.val.natAbs } := by
    rw [Fields.ofNanoseconds]
    congr 2 <;> omega
  rw [hfields, elapsedFormatted]
  simp only [hhours, hminutes, hseconds, hmilliseconds, hmicroseconds, Outcome.value_bind,
    htwo hours hours_nonneg, htwo minutes minutes_nonneg, htwo seconds seconds_nonneg,
    hthree milliseconds milliseconds_nonneg, hthree microseconds microseconds_nonneg,
    hthree nanoseconds nanoseconds_nonneg, if_neg hlog, Outcome.pure_eq, Fields.text]

/-- **The format loses nothing.** -/
theorem elapsedFormatted_keepsAll (n : ElapsedType) (hn : 0 ≤ n.val) :
    (∃ f : Fields, elapsedFormatted n = .value (f.text, []) ∧ f.WellFormed ∧
      (f.recombined : ℤ) = n.val) ∧
    ∀ n' : ElapsedType, 0 ≤ n'.val → elapsedFormatted n' = elapsedFormatted n → n' = n := by
  have hrecombined : ∀ n : ElapsedType, 0 ≤ n.val →
      ((Fields.ofNanoseconds n.val.natAbs).recombined : ℤ) = n.val := by
    intro n hn
    rw [Fields.recombined_ofNanoseconds]
    exact Int.natAbs_of_nonneg hn
  refine ⟨⟨_, elapsedFormatted_eq hn, Fields.wellFormed_ofNanoseconds _, hrecombined n hn⟩, ?_⟩
  intro n' hn' h
  rw [elapsedFormatted_eq hn, elapsedFormatted_eq hn', Outcome.value.injEq, Prod.mk.injEq] at h
  have hfields := Fields.text_inj (Fields.wellFormed_ofNanoseconds _)
    (Fields.wellFormed_ofNanoseconds _) h.1
  apply Subtype.ext
  rw [← hrecombined n' hn', ← hrecombined n hn, hfields]

/-- One hour, one minute and one second. -/
theorem elapsedFormatted_keepsAll_hour :
    ∃ f : Fields, elapsedFormatted ⟨3661000000000, by decide⟩ = .value (f.text, []) ∧
      f.WellFormed ∧ (f.recombined : ℤ) = 3661000000000 :=
  (elapsedFormatted_keepsAll ⟨3661000000000, by decide⟩ (by decide)).1

example : elapsedFormatted ⟨3661001002003, by decide⟩ =
    .value (W "01:01:01.001.002.003", []) := by decide

end Pensar.Analysis
