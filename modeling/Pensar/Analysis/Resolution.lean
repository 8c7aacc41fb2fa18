import Pensar.Analysis.StopWatch
import Pensar.Computation.Units

/-!
# Does the watch show the time that has gone by?

`elapsed` counts units of the resolution, and `elapsed_formatted` takes the count for one of
nanoseconds.  What is shown is the time that has gone by if the unit is a nanosecond, or if not
even one unit has gone by.

Main result: `elapsedFormatted_showsElapsed_iff`.
-/

set_option autoImplicit false

namespace Pensar.Analysis

open Pensar.Computation
open Pensar.Computation.Decimal
open Pensar.Model
open Pensar.Model.StopWatch (ElapsedType elapsedType divideOff elapsedFormatted)

/-! ## The time that has gone by -/

/-- The fields denote a time in nanoseconds. -/
def Shows (shown : Outcome (S × Log)) (nanoseconds : ℚ) : Prop :=
  ∃ (f : Fields) (log : Log), shown = .value (f.text, log) ∧ f.WellFormed ∧
    (f.recombined : ℚ) = nanoseconds

/-- The unit in nanoseconds. -/
def unitOf (r : Resolution) : ℚ := r.period * 10 ^ 9

/-- The interval, truncated to whole units, in nanoseconds. -/
def truncatedTo (r : Resolution) (interval : ℤ) : ℚ :=
  wholeUnits (unitOf r) (interval : ℚ) * unitOf r

/-- The number that the standard library has for an interval. -/
def Counts (r : Resolution) (interval count : ℤ) : Prop :=
  ∃ d c : ElapsedType, d.val = interval ∧ r.durationCast d = .value c ∧ c.val = count

/-- The number of units is counted, and it is the time in nanoseconds. -/
def CountsNanoseconds (r : Resolution) (interval : ℤ) : Prop :=
  Counts r interval (wholeUnits (unitOf r) (interval : ℚ)) ∧
    (unitOf r = 1 ∨ (interval : ℚ) < unitOf r)

/-- The type cannot hold the number of units, and the one that it holds instead is the time in
nanoseconds. -/
def MiscountsNanoseconds (r : Resolution) (interval : ℤ) : Prop :=
  ∃ count, count ≠ wholeUnits (unitOf r) (interval : ℚ) ∧ Counts r interval count ∧
    (count : ℚ) = truncatedTo r interval

/-- What is counted is the time in nanoseconds. -/
def CountIsTime (r : Resolution) (interval : ℤ) : Prop :=
  CountsNanoseconds r interval ∨ MiscountsNanoseconds r interval

/-! ## Numbers below 0 -/

theorem mem_pad {s text : S} {c d : C} {n : UInt64} {where_ : Bool} (hc : c ∈ s)
    (h : pad s d n where_ = .value text) : c ∈ text := by
  unfold pad at h
  dsimp only at h
  split at h
  · cases h
    exact hc
  · split at h
    · split at h <;> cases h <;> split <;> simp [hc]
    · cases h

theorem minus_mem_padLeft0 {number : ElapsedType} (hneg : number.val < 0) {n : UInt32} {text : S}
    (h : padLeft0 number n = .value text) : Wc '-' ∈ text := by
  refine mem_pad ?_ h
  rw [toString_false, sign, if_pos hneg]
  exact List.mem_cons_self

theorem elapsedType_eq_value {n : ℤ} {e : ElapsedType} (h : elapsedType n = .value e) :
    e.val = n := by
  unfold elapsedType at h
  split at h
  · cases h
    rfl
  · cases h

theorem divideOff_eq_value {elapsed count rest : ElapsedType} {unit : ℤ}
    (h : divideOff elapsed unit = .value (count, rest)) :
    elapsed.val = count.val * unit + rest.val := by
  unfold divideOff at h
  obtain ⟨count', hcount, h⟩ := (Outcome.bind_eq_value_iff _ _ _).mp h
  obtain ⟨product, hproduct, h⟩ := (Outcome.bind_eq_value_iff _ _ _).mp h
  obtain ⟨rest', hrest, h⟩ := (Outcome.bind_eq_value_iff _ _ _).mp h
  cases h
  have hproductval := elapsedType_eq_value hproduct
  have hrestval := elapsedType_eq_value hrest
  omega

/-- Some field of a number below 0 has a sign. -/
theorem minus_mem_elapsedFormatted {n : ElapsedType} (hneg : n.val < 0) {text : S} {log : Log}
    (h : elapsedFormatted n = .value (text, log)) : Wc '-' ∈ text := by
  unfold elapsedFormatted at h
  simp only [Outcome.bind_eq_value_iff, Outcome.pure_eq] at h
  obtain ⟨⟨hours, rest1⟩, hhours, ⟨minutes, rest2⟩, hminutes, ⟨seconds, rest3⟩, hseconds,
    ⟨milliseconds, rest4⟩, hmilliseconds, ⟨microseconds, nanoseconds⟩, hmicroseconds,
    text1, htext1, text2, htext2, text3, htext3, text4, htext4, text5, htext5, text6, htext6,
    h⟩ := h
  have hsum1 := divideOff_eq_value hhours
  have hsum2 := divideOff_eq_value hminutes
  have hsum3 := divideOff_eq_value hseconds
  have hsum4 := divideOff_eq_value hmilliseconds
  have hsum5 := divideOff_eq_value hmicroseconds
  simp only [StopWatch.H, StopWatch.M, StopWatch.S, StopWatch.MS, StopWatch.MICRO_SECOND]
    at hsum1 hsum2 hsum3 hsum4 hsum5
  have hfield : hours.val < 0 ∨ minutes.val < 0 ∨ seconds.val < 0 ∨ milliseconds.val < 0 ∨
      microseconds.val < 0 ∨ nanoseconds.val < 0 := by omega
  simp only [Outcome.value.injEq, Prod.mk.injEq] at h
  rw [← h.1]
  simp only [List.mem_append]
  rcases hfield with hneg | hneg | hneg | hneg | hneg | hneg
  · simp only [minus_mem_padLeft0 hneg htext1, true_or]
  · simp only [minus_mem_padLeft0 hneg htext2, true_or, or_true]
  · simp only [minus_mem_padLeft0 hneg htext3, true_or, or_true]
  · simp only [minus_mem_padLeft0 hneg htext4, true_or, or_true]
  · simp only [minus_mem_padLeft0 hneg htext5, true_or, or_true]
  · simp only [minus_mem_padLeft0 hneg htext6, or_true]

theorem Fields.WellFormed.minus_notMem {f : Fields} (hf : f.WellFormed) : Wc '-' ∉ f.text := by
  have hdigit : ∀ {digits : S}, (∀ c ∈ digits, isDecimal c = true) → Wc '-' ∉ digits := by
    intro digits h hminus
    exact absurd (h _ hminus) (by decide)
  have hcolon : Wc '-' ∉ W ":" := by decide
  have hdot : Wc '-' ∉ W "." := by decide
  simp only [Fields.text, List.mem_append, not_or]
  exact ⟨⟨⟨⟨⟨⟨⟨⟨⟨⟨hdigit hf.hours_digits, hcolon⟩, hdigit hf.minutes.1⟩, hcolon⟩,
    hdigit hf.seconds.1⟩, hdot⟩, hdigit hf.milliseconds.1⟩, hdot⟩, hdigit hf.microseconds.1⟩,
    hdot⟩, hdigit hf.nanoseconds.1⟩

/-! ## What is shown -/

/-- The fields denote the number that is formatted. -/
theorem shows_elapsedFormatted_iff (n : ElapsedType) {time : ℚ} (htime : 0 ≤ time) :
    Shows (elapsedFormatted n) time ↔ (n.val : ℚ) = time := by
  rcases lt_or_ge n.val 0 with hneg | hpos
  · constructor
    · rintro ⟨f, log, hshown, hf, -⟩
      exact absurd (minus_mem_elapsedFormatted hneg hshown) hf.minus_notMem
    · intro h
      have : (n.val : ℚ) < 0 := by exact_mod_cast hneg
      linarith
  · have hrecombined : ((Fields.ofNanoseconds n.val.natAbs).recombined : ℚ) = n.val := by
      rw [Fields.recombined_ofNanoseconds, Nat.cast_natAbs, abs_of_nonneg hpos]
    unfold Shows
    rw [elapsedFormatted_eq hpos]
    constructor
    · rintro ⟨f, log, hshown, hf, htime⟩
      rw [Outcome.value.injEq, Prod.mk.injEq] at hshown
      have hfields := Fields.text_inj (Fields.wellFormed_ofNanoseconds _) hf hshown.1
      rw [← hrecombined, hfields, htime]
    · intro h
      exact ⟨_, [], rfl, Fields.wellFormed_ofNanoseconds _, hrecombined.trans h⟩

section Interval

variable (r : Resolution)

theorem unitOf_pos : 0 < unitOf r := mul_pos r.period_pos (by norm_num)

/-- What is shown of an interval. -/
def shown (interval : ℤ) : Outcome (S × Log) := do
  let d ← elapsedType interval
  elapsedFormatted (← r.durationCast d)

variable {r} {interval : ℤ}

theorem truncatedTo_nonneg (h : 0 ≤ interval) : 0 ≤ truncatedTo r interval :=
  wholeUnits_mul_nonneg (unitOf_pos r) (Int.cast_nonneg h)

/-- The count is what is shown as nanoseconds. -/
theorem shows_shown_iff {time : ℚ} (htime : 0 ≤ time) :
    Shows (shown r interval) time ↔ ∃ count : ℤ, Counts r interval count ∧ (count : ℚ) = time := by
  constructor
  · rintro ⟨f, log, hshown, hf⟩
    obtain ⟨d, hd, h⟩ := (Outcome.bind_eq_value_iff _ _ _).mp hshown
    obtain ⟨c, hc, h⟩ := (Outcome.bind_eq_value_iff _ _ _).mp h
    refine ⟨c.val, ⟨d, c, elapsedType_eq_value hd, hc, rfl⟩, ?_⟩
    exact (shows_elapsedFormatted_iff c htime).mp ⟨f, log, h, hf⟩
  · rintro ⟨_, ⟨d, c, rfl, hc, rfl⟩, h⟩
    have hd : elapsedType d.val = .value d := by rw [elapsedType, dif_pos d.property]
    have hshown : shown r d.val = elapsedFormatted c := by
      rw [shown, hd, Outcome.value_bind, hc, Outcome.value_bind]
    rw [hshown]
    exact (shows_elapsedFormatted_iff c htime).mpr h

/-- **The time that has gone by is shown** exactly when the count is the time in nanoseconds. -/
theorem shows_truncatedTo_iff (h : 0 ≤ interval) :
    Shows (shown r interval) (truncatedTo r interval) ↔
      CountIsTime r interval := by
  have hamount : (0 : ℚ) ≤ interval := Int.cast_nonneg h
  have hexact := cast_wholeUnits_eq_iff (unitOf_pos r) hamount
  rw [shows_shown_iff (truncatedTo_nonneg h)]
  constructor
  · rintro ⟨count, hcount, htime⟩
    by_cases hunits : count = wholeUnits (unitOf r) (interval : ℚ)
    · subst hunits
      exact Or.inl ⟨hcount, hexact.mp htime⟩
    · exact Or.inr ⟨count, hunits, hcount, htime⟩
  · rintro (⟨hcount, hunit⟩ | ⟨count, -, hcount, htime⟩)
    · exact ⟨_, hcount, hexact.mpr hunit⟩
    · exact ⟨count, hcount, htime⟩

end Interval

/-! ## Integers that count -/

section Integers

variable {r : Resolution}

theorem cf_pos (r : Resolution) : 0 < r.cf := div_pos (by norm_num) r.period_pos

theorem unitOf_eq_inv (r : Resolution) : unitOf r = r.cf⁻¹ := by
  rw [unitOf, Resolution.cf, inv_div, div_div_eq_mul_div, div_one]

theorem val_cast {n : ℤ} (h : IntType.int64.min ≤ n ∧ n ≤ IntType.int64.max) :
    (IntType.int64.cast n).val = n := by
  change IntType.int64.wrapped n = n
  simp only [IntType.wrapped, IntType.min, IntType.max, IntType.bits, IntType.signed, if_true] at *
  norm_num at *
  split <;> omega

theorem cast_val (n : ElapsedType) : IntType.int64.cast n.val = n :=
  Subtype.ext (val_cast n.property)

theorem arithmetic_eq {n : ℤ} (h : 0 ≤ n) :
    IntType.int64.arithmetic n =
      if n ≤ IntType.int64.max then .value (IntType.int64.cast n) else .undefined := by
  have hmin := int64_min_le h
  have hsigned : IntType.int64.signed = true := rfl
  rw [IntType.arithmetic, if_pos hsigned]
  by_cases hn : n ≤ IntType.int64.max
  · rw [dif_pos ⟨hmin, hn⟩, if_pos hn]
    exact congrArg Outcome.value (Subtype.ext (val_cast ⟨hmin, hn⟩).symm)
  · rw [dif_neg fun h => hn h.2, if_neg hn]

/-- **The calculation of `duration_cast`** in `long long`. -/
theorem scaled_eq (r : Resolution) {d : ElapsedType} (hd : 0 ≤ d.val) :
    (CommonType.integer .int64).scaled r.cf d.val =
      if d.val * r.cf.num ≤ IntType.int64.max then
        .value (IntType.int64.cast (d.val * r.cf.num / r.cf.den))
      else .undefined := by
  have hnum : 0 < r.cf.num := Rat.num_pos.mpr (cf_pos r)
  have hden : (1 : ℤ) ≤ r.cf.den := by exact_mod_cast r.cf.den_pos
  have hcastnum : (IntType.int64.cast r.cf.num).val = r.cf.num :=
    val_cast ⟨int64_min_le hnum.le, r.num_le⟩
  have hcastden : (IntType.int64.cast (r.cf.den : ℤ)).val = r.cf.den :=
    val_cast ⟨int64_min_le (by omega), r.den_le⟩
  have hproduct : 0 ≤ d.val * r.cf.num := mul_nonneg hd hnum.le
  unfold CommonType.scaled CommonType.integer
  simp only [cast_val, hcastnum, hcastden, arithmetic_eq hproduct, Outcome.pure_eq]
  split
  · next hone =>
    rw [hone, Nat.cast_one, Int.ediv_one]
    split
    · next hnumone =>
      rw [hnumone, mul_one, if_pos d.property.2, cast_val]
    · rfl
  · split
    · next hnumone =>
      rw [hnumone, mul_one, if_pos d.property.2, Int.tdiv_eq_ediv_of_nonneg hd]
    · split
      · next hle =>
        rw [Outcome.value_bind, val_cast ⟨int64_min_le hproduct, hle⟩,
          Int.tdiv_eq_ediv_of_nonneg hproduct]
      · rfl

theorem wrapped_eq_iff {T : IntType} {n : ℤ} (h : 0 ≤ n) : T.wrapped n = n ↔ n ≤ T.max := by
  constructor
  · intro hn
    exact hn ▸ (T.wrapped_range n).2
  · intro hn
    have hmax : T.max < 2 ^ T.bits := by cases T <;> decide
    rw [IntType.wrapped, Int.emod_eq_of_lt h (hn.trans_lt hmax), if_pos hn]

variable {T : IntType}

/-- The number that `elapsed` returns. -/
theorem durationCast_eq (hT : T ≠ .uint64) (hrep : r.rep = .integer T) {d : ElapsedType}
    (hd : 0 ≤ d.val) :
    r.durationCast d =
      if d.val * r.cf.num ≤ IntType.int64.max then
        .value (IntType.int64.cast (T.wrapped (d.val * r.cf.num / r.cf.den)))
      else .undefined := by
  have hnum : 0 < r.cf.num := Rat.num_pos.mpr (cf_pos r)
  have hcommon : CommonType.ofInteger T = .int64 := if_neg hT
  unfold Resolution.durationCast
  rw [hrep]
  dsimp only
  rw [hcommon, scaled_eq r hd]
  split
  · next hle =>
    have hproduct : 0 ≤ d.val * r.cf.num := mul_nonneg hd hnum.le
    have hquotient : 0 ≤ d.val * r.cf.num / r.cf.den :=
      Int.ediv_nonneg hproduct (Int.natCast_nonneg _)
    have hself := Int.ediv_le_self (r.cf.den : ℤ) hproduct
    rw [Outcome.value_bind, val_cast ⟨int64_min_le hquotient, hself.trans hle⟩,
      Outcome.pure_eq]
    rfl
  · rfl

/-- **The numbers that are counted.** -/
theorem counts_iff_wrapped (hT : T ≠ .uint64) (hrep : r.rep = .integer T) {interval count : ℤ}
    (h : 0 ≤ interval) :
    Counts r interval count ↔
      interval ≤ IntType.int64.max ∧ interval * r.cf.num ≤ IntType.int64.max ∧
        count = T.wrapped (wholeUnits (unitOf r) (interval : ℚ)) := by
  have hval : ∀ n : ℤ, (IntType.int64.cast (T.wrapped n)).val = T.wrapped n := by
    intro n
    have hrange := T.wrapped_range n
    have hsmaller : IntType.int64.min ≤ T.min ∧ T.max ≤ IntType.int64.max := by
      cases T <;> first | exact absurd rfl hT | decide
    exact val_cast ⟨hsmaller.1.trans hrange.1, hrange.2.trans hsmaller.2⟩
  rw [unitOf_eq_inv, wholeUnits_inv]
  constructor
  · rintro ⟨d, c, rfl, hc, rfl⟩
    rw [durationCast_eq hT hrep h] at hc
    split at hc
    · next hle =>
      cases hc
      exact ⟨d.property.2, hle, hval _⟩
    · cases hc
  · rintro ⟨hinterval, hle, rfl⟩
    refine ⟨⟨interval, int64_min_le h, hinterval⟩, IntType.int64.cast _, rfl, ?_, hval _⟩
    rw [durationCast_eq hT hrep h, if_pos hle]

/-- The condition as one on the interval, the unit and the type. -/
theorem countIsTime_iff (hT : T ≠ .uint64) (hrep : r.rep = .integer T) {interval : ℤ}
    (h : 0 ≤ interval) :
    CountIsTime r interval ↔
      interval ≤ IntType.int64.max ∧ interval * r.cf.num ≤ IntType.int64.max ∧
        (wholeUnits (unitOf r) (interval : ℚ) ≤ T.max ∧
            (unitOf r = 1 ∨ (interval : ℚ) < unitOf r) ∨
          T.max < wholeUnits (unitOf r) (interval : ℚ) ∧
            (T.wrapped (wholeUnits (unitOf r) (interval : ℚ)) : ℚ) = truncatedTo r interval) := by
  have hunits : 0 ≤ wholeUnits (unitOf r) (interval : ℚ) :=
    wholeUnits_nonneg (unitOf_pos r) (Int.cast_nonneg h)
  have hwrapped : T.wrapped (wholeUnits (unitOf r) (interval : ℚ)) =
      wholeUnits (unitOf r) (interval : ℚ) ↔ _ := wrapped_eq_iff hunits
  unfold CountIsTime CountsNanoseconds MiscountsNanoseconds
  simp only [counts_iff_wrapped hT hrep h]
  constructor
  · rintro (⟨⟨hinterval, hproduct, hcount⟩, hunit⟩ |
      ⟨_, hother, ⟨hinterval, hproduct, rfl⟩, htime⟩)
    · exact ⟨hinterval, hproduct, Or.inl ⟨hwrapped.mp hcount.symm, hunit⟩⟩
    · exact ⟨hinterval, hproduct, Or.inr ⟨not_le.mp (mt hwrapped.mpr hother), htime⟩⟩
  · rintro ⟨hinterval, hproduct, ⟨hfits, hunit⟩ | ⟨hlarge, htime⟩⟩
    · exact Or.inl ⟨⟨hinterval, hproduct, (hwrapped.mpr hfits).symm⟩, hunit⟩
    · exact Or.inr ⟨_, mt hwrapped.mp (not_le.mpr hlarge), ⟨hinterval, hproduct, rfl⟩, htime⟩

end Integers

/-! ## The watch -/

/-- Nothing is after the reading, and a watch that stands has been stopped after it was started. -/
structure Measures (w : StopWatch) (reading : ElapsedType) : Prop where
  start : w.mstart.val ≤ reading.val
  mark : w.mmark.val ≤ reading.val
  nonneg : 0 ≤ reading.val
  stopped : w.mrunning = false → w.mstart.val ≤ w.mlast.val

theorem measures_construct (startNow : Bool) {now : ElapsedType} (h : 0 ≤ now.val) :
    Measures (StopWatch.construct startNow now) now := by
  cases startNow with
  | true => exact ⟨le_rfl, h, h, nofun⟩
  | false => exact ⟨h, h, h, fun _ => le_rfl⟩

theorem measures_step {w : StopWatch} {reading now : ElapsedType} (hw : Measures w reading)
    (hle : reading.val ≤ now.val) (call : StopWatch.Call) :
    Measures (StopWatch.machine.step w (call, now)).1 now := by
  have hnonneg := hw.nonneg.trans hle
  have hstart := hw.start.trans hle
  have hmark := hw.mark.trans hle
  cases call with
  | start => exact ⟨le_rfl, hmark, hnonneg, nofun⟩
  | reset => exact ⟨le_rfl, hmark, hnonneg, nofun⟩
  | stop => exact ⟨hstart, hmark, hnonneg, fun _ => hstart⟩
  | mark => exact ⟨hstart, le_rfl, hnonneg, hw.stopped⟩

/-- The calls keep the order of the readings. -/
theorem run_measures {w : StopWatch} {reading : ElapsedType} (hw : Measures w reading)
    (calls : List (StopWatch.Call × ElapsedType)) (now : ElapsedType)
    (hclock : List.IsChain (fun a b : ElapsedType => a.val ≤ b.val)
      (reading :: calls.map Prod.snd ++ [now])) :
    (StopWatch.machine.run w calls).mstart.val ≤
        ((StopWatch.machine.run w calls).last now).val ∧
      ((StopWatch.machine.run w calls).mrunning = true →
        (StopWatch.machine.run w calls).mmark.val ≤
          ((StopWatch.machine.run w calls).last now).val) := by
  induction calls generalizing w reading with
  | nil =>
    have hle : reading.val ≤ now.val := by simpa using hclock
    rw [Machine.run_nil, StopWatch.last]
    split
    · exact ⟨hw.start.trans hle, fun _ => hw.mark.trans hle⟩
    · next hstopped =>
      exact ⟨hw.stopped (by simpa using hstopped), fun hrunning => absurd hrunning hstopped⟩
  | cons call calls ih =>
    obtain ⟨hle, hrest⟩ := List.isChain_cons_cons.mp hclock
    rw [Machine.run_cons]
    exact ih (measures_step hw hle call.1) hrest

/-- **A clock that does not go back** gives readings of which the first is not the later one: from
the start always, and from the mark while the watch is running. -/
theorem construct_measures (startNow : Bool) {first : ElapsedType} (hfirst : 0 ≤ first.val)
    (calls : List (StopWatch.Call × ElapsedType)) (now : ElapsedType)
    (hclock : List.IsChain (fun a b : ElapsedType => a.val ≤ b.val)
      (first :: calls.map Prod.snd ++ [now])) :
    let w := StopWatch.machine.run (StopWatch.construct startNow first) calls
    w.mstart.val ≤ (w.last now).val ∧
      (w.mrunning = true → w.mmark.val ≤ (w.last now).val) :=
  run_measures (measures_construct startNow hfirst) calls now hclock

/-- **When the watch shows the time that has gone by**, for each resolution and any two readings
of which the first is not the later one. -/
theorem elapsedFormatted_showsElapsed_iff (r : Resolution) (w : StopWatch) (now : ElapsedType) :
    (w.mstart.val ≤ (w.last now).val →
      (Shows (StopWatch.elapsedFormattedNow r w now)
          (truncatedTo r ((w.last now).val - w.mstart.val)) ↔
        CountIsTime r ((w.last now).val - w.mstart.val))) ∧
    (w.mmark.val ≤ (w.last now).val →
      (Shows (StopWatch.elapsedSinceMarkFormatted r w now)
          (truncatedTo r ((w.last now).val - w.mmark.val)) ↔
        CountIsTime r ((w.last now).val - w.mmark.val))) ∧
    ∀ T : IntType, T ≠ .uint64 → r.rep = .integer T → ∀ interval : ℤ, 0 ≤ interval →
      (CountIsTime r interval ↔
        interval ≤ IntType.int64.max ∧ interval * r.cf.num ≤ IntType.int64.max ∧
          (wholeUnits (unitOf r) (interval : ℚ) ≤ T.max ∧
              (unitOf r = 1 ∨ (interval : ℚ) < unitOf r) ∨
            T.max < wholeUnits (unitOf r) (interval : ℚ) ∧
              (T.wrapped (wholeUnits (unitOf r) (interval : ℚ)) : ℚ) =
                truncatedTo r interval)) := by
  refine ⟨?_, ?_, ?_⟩
  · intro h
    have hshown : StopWatch.elapsedFormattedNow r w now =
        shown r ((w.last now).val - w.mstart.val) := by
      rw [StopWatch.elapsedFormattedNow, StopWatch.elapsed, shown, bind_assoc]
    rw [hshown]
    exact shows_truncatedTo_iff (sub_nonneg.mpr h)
  · intro h
    have hshown : StopWatch.elapsedSinceMarkFormatted r w now =
        shown r ((w.last now).val - w.mmark.val) := by
      rw [StopWatch.elapsedSinceMarkFormatted, StopWatch.elapsedSinceMark, shown, bind_assoc]
    rw [hshown]
    exact shows_truncatedTo_iff (sub_nonneg.mpr h)
  · intro T hT hrep interval h
    exact countIsTime_iff hT hrep h

/-- `std::chrono::milliseconds` -/
def milliseconds : Resolution where
  rep := .integer .int64
  period := 1 / 1000
  period_pos := by norm_num
  num_le := by norm_num [IntType.max, IntType.signed, IntType.bits]
  den_le := by norm_num [IntType.max, IntType.signed, IntType.bits]

/-- A watch that is started at 0. -/
def startedAtZero : StopWatch := StopWatch.construct true StopWatch.ZERO

theorem unitOf_milliseconds : unitOf milliseconds = 1000000 := by
  norm_num [unitOf, milliseconds]

/-- Of half a millisecond nothing is counted, and nothing is shown. -/
theorem elapsedFormatted_showsElapsed_half :
    Shows (StopWatch.elapsedFormattedNow milliseconds startedAtZero ⟨500000, by decide⟩)
        (truncatedTo milliseconds 500000) ∧
      Shows (StopWatch.elapsedSinceMarkFormatted milliseconds startedAtZero ⟨500000, by decide⟩)
        (truncatedTo milliseconds 500000) := by
  have h := elapsedFormatted_showsElapsed_iff milliseconds startedAtZero ⟨500000, by decide⟩
  have hcount : CountIsTime milliseconds 500000 := by
    rw [h.2.2 .int64 (by decide) rfl 500000 (by norm_num)]
    have hunits : wholeUnits (unitOf milliseconds) ((500000 : ℤ) : ℚ) = 0 := by
      norm_num [unitOf_milliseconds, wholeUnits]
    have hnum : milliseconds.cf.num = 1 := by norm_num [Resolution.cf, milliseconds]
    rw [hunits, hnum, unitOf_milliseconds]
    exact ⟨by decide, by decide, Or.inl ⟨by decide, Or.inr (by norm_num)⟩⟩
  exact ⟨(h.1 (by decide)).mpr hcount, (h.2.1 (by decide)).mpr hcount⟩

/-- Five milliseconds are shown as five nanoseconds. -/
theorem not_showsElapsed_milliseconds :
    ¬ ∀ (r : Resolution) (w : StopWatch) (now : ElapsedType),
      (w.mstart.val ≤ (w.last now).val → Shows (StopWatch.elapsedFormattedNow r w now)
        (truncatedTo r ((w.last now).val - w.mstart.val))) ∧
      (w.mmark.val ≤ (w.last now).val → Shows (StopWatch.elapsedSinceMarkFormatted r w now)
        (truncatedTo r ((w.last now).val - w.mmark.val))) := by
  intro h
  have hshows : Shows (shown milliseconds 5000000) (truncatedTo milliseconds 5000000) :=
    (h milliseconds startedAtZero ⟨5000000, by decide⟩).1 (by decide)
  rw [shows_truncatedTo_iff (by norm_num),
    countIsTime_iff (T := .int64) (by decide) rfl (by norm_num), unitOf_milliseconds] at hshows
  have hunits : wholeUnits (1000000 : ℚ) ((5000000 : ℤ) : ℚ) = 5 := by norm_num [wholeUnits]
  rw [hunits] at hshows
  obtain ⟨-, -, ⟨-, hunit | hless⟩ | ⟨hlarge, -⟩⟩ := hshows
  · norm_num at hunit
  · norm_num at hless
  · exact absurd hlarge (by decide)

end Pensar.Analysis
