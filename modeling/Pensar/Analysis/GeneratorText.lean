import Mathlib.Data.FinEnum
import Pensar.Model.GeneratorText

/-!
# Generators through a text stream

Between the id, the initial value and the step there is no space, so they can only be told apart
where a sign stands between them.  If both numbers are negative in every generator, each extraction
takes exactly the number that was written (`readSequence_text`).  Otherwise the text has fewer
places at which a number can start than there are numbers to read (`starts_text`), and since every
extraction that stores something uses one up, the last one stores nothing
(`extractAll_untouched`).

Main result: `text_roundTrips_iff`.
-/

set_option autoImplicit false

namespace Pensar.Analysis.GeneratorText

open Pensar.Computation
open Pensar.Computation.Decimal
open Pensar.Model

/-- A character that ends a number. -/
def EndsNumber (text : S) : Prop := ∀ c, text.head? = some c → isDecimal c = false

/-- The text of one generator. -/
def text (g : Generator) : S :=
  integer g.object.mid.toInt ++ integer g.mdata.minitialValue.toInt ++
    integer g.mdata.mstep.toInt ++ W " " ++ integer g.mdata.mvalue.toInt

/-- The text of the generators after the first one. -/
def textBehind (gs : List Generator) : S := gs.flatMap fun g => W " " ++ text g

theorem writeText_eq (g : Generator) (os : S) : g.writeText os = os ++ text g := by
  simp only [Generator.writeText, Object.writeText, Object.id, insertId, text, List.append_assoc]

theorem writeSequence_cons (g : Generator) (gs : List Generator) :
    Generator.writeSequence [] (g :: gs) = text g ++ textBehind gs := by
  have hfold (os : S) : gs.foldl (fun os g => g.writeText (os ++ W " ")) os =
      os ++ textBehind gs := by
    induction gs generalizing os with
    | nil => exact (List.append_nil os).symm
    | cons g gs ih =>
      rw [List.foldl_cons, ih, writeText_eq, textBehind, textBehind, List.flatMap_cons,
        List.append_assoc, List.append_assoc, List.append_assoc]
  rw [Generator.writeSequence, hfold, writeText_eq, List.nil_append]

/-! ## Numbers that can be told apart -/

theorem isDecimal_not_space {c : C} (h : isDecimal c = true) :
    isspace c = false ∧ c ≠ Wc '-' ∧ c ≠ Wc '+' := by
  revert c
  decide +kernel

theorem integer_cons (n : ℤ) : ∃ c cs, integer n = c :: cs ∧ isspace c = false := by
  rw [integer]
  split
  · exact ⟨_, _, rfl, by decide⟩
  · obtain ⟨c, cs, hcons⟩ := List.exists_cons_of_ne_nil (numeral_ne_nil (n := n.natAbs))
    refine ⟨c, cs, hcons, ?_⟩
    exact (isDecimal_not_space (isDecimal_of_mem_numeral (hcons ▸ List.mem_cons_self))).1

/-- A number is read up to something that ends it. -/
theorem extractId_integer {is : InStream} {v : Id} {rest : S} (hgood : is.good = true)
    (hahead : is.remaining.dropWhile isspace = integer v.toInt ++ rest) (hrest : EndsNumber rest)
    (id : Id) :
    is.extractId id = (v, { is with remaining := rest, good := !rest.isEmpty }) := by
  obtain ⟨htake, hdrop⟩ := takeWhile_numeral v.toInt.natAbs hrest
  have hmin : -2 ^ 63 ≤ v.toInt := BitVec.le_toInt v
  have hmax : v.toInt < 2 ^ 63 := BitVec.toInt_lt
  have hfits : max (-2 ^ 63) (min v.toInt (2 ^ 63 - 1)) = v.toInt := by omega
  rw [InStream.extractId, if_pos hgood, hahead, integer]
  by_cases hneg : v.toInt < 0
  · have habs : -(v.toInt.natAbs : ℤ) = v.toInt := by omega
    have hminus : (45 : C) = Wc '-' := by decide
    simp only [hneg, if_true, List.cons_append, hminus, decide_true, Bool.true_or, htake, hdrop,
      numeral_ne_nil, if_false, value_numeral, habs, hfits, Bool.and_true, BitVec.ofInt_toInt]
  · have habs : (v.toInt.natAbs : ℤ) = v.toInt := by omega
    obtain ⟨c, cs, hcons⟩ := List.exists_cons_of_ne_nil (numeral_ne_nil (n := v.toInt.natAbs))
    obtain ⟨-, hminus, hplus⟩ :=
      isDecimal_not_space (isDecimal_of_mem_numeral (hcons ▸ List.mem_cons_self : c ∈ _))
    have hvalue : (value (c :: cs) : ℤ) = v.toInt := by rw [← hcons, value_numeral, habs]
    rw [hcons, List.cons_append] at htake hdrop
    simp only [hneg, if_false, hcons, List.cons_append, hminus, hplus, decide_false, Bool.or_self,
      Bool.false_eq_true, htake, hdrop, reduceCtorEq, hvalue, hfits, decide_true, Bool.and_true,
      BitVec.ofInt_toInt]

theorem integer_not_empty (n : ℤ) (rest : S) : (integer n ++ rest).isEmpty = false := by
  obtain ⟨c, cs, hcons, -⟩ := integer_cons n
  rw [hcons]
  rfl

theorem integer_ahead (n : ℤ) (rest : S) :
    (integer n ++ rest).dropWhile isspace = integer n ++ rest := by
  obtain ⟨c, cs, hcons, hspace⟩ := integer_cons n
  rw [hcons, List.cons_append, List.dropWhile_cons_of_neg (by rw [hspace]; decide)]

theorem extractId_ahead (v : Id) {rest : S} (hrest : EndsNumber rest) (width : ℕ) (id : Id) :
    InStream.extractId ⟨integer v.toInt ++ rest, true, width⟩ id =
      (v, ⟨rest, !rest.isEmpty, width⟩) :=
  extractId_integer rfl (integer_ahead v.toInt rest) hrest id

theorem endsNumber_space (rest : S) : EndsNumber (W " " ++ rest) := by
  intro c hc
  obtain rfl : Wc ' ' = c := Option.some.inj hc
  decide

theorem endsNumber_negative {n : ℤ} (h : n < 0) (rest : S) : EndsNumber (integer n ++ rest) := by
  intro c hc
  rw [integer, if_pos h] at hc
  obtain rfl : 45 = c := Option.some.inj hc
  decide

/-- The initial value and the step are negative. -/
def Separated (g : Generator) : Prop := g.mdata.minitialValue.toInt < 0 ∧ g.mdata.mstep.toInt < 0

instance (g : Generator) : Decidable (Separated g) := inferInstanceAs (Decidable (_ ∧ _))

theorem readText_text {g : Generator} (hsep : Separated g) {is : InStream} {rest : S}
    (hgood : is.good = true) (hahead : is.remaining.dropWhile isspace = text g ++ rest)
    (hrest : EndsNumber rest) (target : Generator) :
    target.readText is = (g, { is with remaining := rest, good := !rest.isEmpty }) := by
  obtain ⟨hinitial, hstep⟩ := hsep
  simp only [text, List.append_assoc] at hahead
  have hspace : (W " " ++ (integer g.mdata.mvalue.toInt ++ rest)).dropWhile isspace =
      integer g.mdata.mvalue.toInt ++ rest := integer_ahead _ _
  rw [Generator.readText, Object.readText,
    extractId_integer hgood hahead (endsNumber_negative hinitial _)]
  simp only [integer_not_empty, Bool.not_false]
  rw [extractId_ahead _ (endsNumber_negative hstep _)]
  simp only [integer_not_empty, Bool.not_false]
  rw [extractId_ahead _ (endsNumber_space _)]
  simp only
  rw [extractId_integer rfl hspace hrest]

theorem endsNumber_textBehind (gs : List Generator) : EndsNumber (textBehind gs) := by
  cases gs with
  | nil => exact fun c hc => nomatch hc
  | cons g gs =>
    rw [textBehind, List.flatMap_cons, List.append_assoc]
    exact endsNumber_space _

theorem text_ahead (g : Generator) (rest : S) :
    (text g ++ rest).dropWhile isspace = text g ++ rest := by
  simp only [text, List.append_assoc, integer_ahead]

/-- **Reading a sequence back.** -/
theorem readSequence_text {gs targets : List Generator} (hsep : ∀ g ∈ gs, Separated g)
    (hlen : targets.length = gs.length) {is : InStream} (hgood : is.good = !(textBehind gs).isEmpty)
    (hremaining : is.remaining = textBehind gs) :
    (Generator.readSequence targets is).1 = gs := by
  induction gs generalizing targets is with
  | nil =>
    rw [List.length_eq_zero_iff.mp hlen]
    rfl
  | cons g gs ih =>
    obtain ⟨target, targets, rfl⟩ := List.exists_cons_of_length_eq_add_one hlen
    have hbehind : textBehind (g :: gs) = W " " ++ (text g ++ textBehind gs) := by
      rw [textBehind, List.flatMap_cons, List.append_assoc]
      rfl
    rw [hbehind] at hgood hremaining
    have hahead : is.remaining.dropWhile isspace = text g ++ textBehind gs := by
      rw [hremaining]
      exact text_ahead g (textBehind gs)
    have hread := readText_text (hsep g List.mem_cons_self) hgood hahead
      (endsNumber_textBehind gs) target
    rw [Generator.readSequence, hread]
    have hrest : (Generator.readSequence targets
        { is with remaining := textBehind gs, good := !(textBehind gs).isEmpty }).1 = gs :=
      ih (fun g' hg' => hsep g' (List.mem_cons_of_mem _ hg')) (Nat.succ.inj hlen) rfl rfl
    simp only [hrest]

/-! ## Places at which a number can start -/

/-- The places in a text at which a number can start, `gap` saying whether a digit in front can:
not behind another character of a number. -/
def starts : (gap : Bool) → S → ℕ
  | _, [] => 0
  | gap, c :: cs =>
    if isspace c then starts true cs
    else if isDecimal c then (if gap then 1 else 0) + starts false cs
    else 1 + starts false cs

variable {gap : Bool}

theorem starts_space {c : C} {cs : S} (h : isspace c = true) :
    starts gap (c :: cs) = starts true cs := by
  rw [starts, if_pos h]

theorem starts_digits (gap : Bool) {ds : S} (hne : ds ≠ [])
    (hdigits : ∀ c ∈ ds, isDecimal c = true) (rest : S) :
    starts gap (ds ++ rest) = (if gap then 1 else 0) + starts false rest := by
  induction ds generalizing gap with
  | nil => exact absurd rfl hne
  | cons c ds ih =>
    have hc := hdigits c List.mem_cons_self
    have hspace : ¬ isspace c = true := by rw [(isDecimal_not_space hc).1]; decide
    rw [List.cons_append, starts, if_neg hspace, if_pos hc]
    by_cases hds : ds = []
    · rw [hds, List.nil_append]
    · rw [ih false hds fun c hc => hdigits c (List.mem_cons_of_mem _ hc)]
      simp

theorem starts_integer (n : ℤ) (rest : S) :
    starts gap (integer n ++ rest) =
      (if gap ∨ n < 0 then 1 else 0) + starts false rest := by
  have hnumeral (gap : Bool) : starts gap (numeral n.natAbs ++ rest) =
      (if gap then 1 else 0) + starts false rest :=
    starts_digits gap numeral_ne_nil (fun _ => isDecimal_of_mem_numeral) rest
  by_cases hneg : n < 0
  · have hspace : ¬ isspace (45 : C) = true := by decide
    have hdigit : ¬ isDecimal (45 : C) = true := by decide
    rw [integer, if_pos hneg, List.cons_append, starts, if_neg hspace, if_neg hdigit, hnumeral]
    simp [hneg]
  · rw [integer, if_neg hneg, hnumeral]
    simp [hneg]

/-- The places in the text of one generator. -/
def weight (g : Generator) : ℕ :=
  2 + (if g.mdata.minitialValue.toInt < 0 then 1 else 0) +
    (if g.mdata.mstep.toInt < 0 then 1 else 0)

theorem starts_text (g : Generator) (rest : S) :
    starts true (text g ++ rest) = weight g + starts false rest := by
  have hspace (rest : S) : starts false (W " " ++ rest) = starts true rest :=
    starts_space (by decide)
  simp only [text, List.append_assoc, starts_integer, hspace, weight, Bool.false_eq_true, true_or,
    false_or, if_true]
  omega

theorem starts_textBehind (gs : List Generator) :
    starts false (textBehind gs) = (gs.map weight).sum := by
  induction gs with
  | nil => rfl
  | cons g gs ih =>
    have hspace : starts false (textBehind (g :: gs)) = starts true (text g ++ textBehind gs) :=
      starts_space (by decide)
    rw [hspace, starts_text, ih, List.map_cons, List.sum_cons]

theorem starts_writeSequence (gs : List Generator) :
    starts true (Generator.writeSequence [] gs) = (gs.map weight).sum := by
  cases gs with
  | nil => rfl
  | cons g gs =>
    rw [writeSequence_cons, starts_text, starts_textBehind, List.map_cons, List.sum_cons]

theorem weight_le (g : Generator) : weight g ≤ 4 := by
  rw [weight]
  split <;> split <;> omega

theorem weight_lt {g : Generator} (h : ¬ Separated g) : weight g < 4 := by
  rw [weight]
  by_cases hinitial : g.mdata.minitialValue.toInt < 0
  · have hstep : ¬ g.mdata.mstep.toInt < 0 := fun hstep => h ⟨hinitial, hstep⟩
    rw [if_pos hinitial, if_neg hstep]
    decide
  · rw [if_neg hinitial]
    split <;> decide

theorem sum_weight_lt {gs : List Generator} (h : ¬ ∀ g ∈ gs, Separated g) :
    (gs.map weight).sum < 4 * gs.length := by
  induction gs with
  | nil => exact absurd (fun g hg => absurd hg List.not_mem_nil) h
  | cons g gs ih =>
    rw [List.map_cons, List.sum_cons, List.length_cons]
    by_cases hg : Separated g
    · have hrest := ih fun hall => h (List.forall_mem_cons.mpr ⟨hg, hall⟩)
      have hle := weight_le g
      omega
    · have hlt := weight_lt hg
      have hle : (gs.map weight).sum ≤ 4 * gs.length := by
        have hsum := List.sum_le_card_nsmul (gs.map weight) 4 fun w hw => by
          obtain ⟨g, -, rfl⟩ := List.mem_map.mp hw
          exact weight_le g
        rw [List.length_map, smul_eq_mul] at hsum
        omega
      omega

/-! ## What extractions use up -/

/-- The places that are left in front of a stream. -/
def startsLeft (gap : Bool) (is : InStream) : ℕ := if is.good then starts gap is.remaining else 0

theorem startsLeft_le (gap : Bool) (is : InStream) :
    startsLeft gap is ≤ starts gap is.remaining := by
  rw [startsLeft]
  split
  · exact le_rfl
  · exact Nat.zero_le _

theorem startsLeft_of_bad {is : InStream} (h : is.good = false) : startsLeft gap is = 0 := by
  rw [startsLeft, h]
  rfl

/-- A number does not go on at the front of the text. -/
def Fresh (gap : Bool) (text : S) : Prop := gap = true ∨ EndsNumber text

theorem starts_ahead {text cs : S} {c : C} (hfresh : Fresh gap text)
    (h : text.dropWhile isspace = c :: cs) : starts gap text = 1 + starts false cs := by
  induction text generalizing gap with
  | nil => cases h
  | cons d ds ih =>
    by_cases hspace : isspace d = true
    · rw [List.dropWhile_cons_of_pos hspace] at h
      rw [starts_space hspace]
      exact ih (Or.inl rfl) h
    · rw [List.dropWhile_cons_of_neg hspace] at h
      obtain ⟨rfl, rfl⟩ := List.cons.inj h
      rw [starts, if_neg hspace]
      by_cases hdigit : isDecimal d = true
      · have hgap : gap = true := by
          rcases hfresh with hgap | hends
          · exact hgap
          · rw [hends d rfl] at hdigit
            cases hdigit
        rw [if_pos hdigit, hgap]
        rfl
      · rw [if_neg hdigit]

theorem starts_dropWhile (text : S) :
    starts false (text.dropWhile isDecimal) = starts false text := by
  have hsplit := List.takeWhile_append_dropWhile (p := isDecimal) (l := text)
  by_cases hnil : text.takeWhile isDecimal = []
  · rw [hnil, List.nil_append] at hsplit
    rw [hsplit]
  · have hstarts := starts_digits false hnil (fun c hc => List.mem_takeWhile_imp hc)
      (text.dropWhile isDecimal)
    rw [hsplit] at hstarts
    simpa using hstarts.symm

theorem endsNumber_dropWhile (text : S) : EndsNumber (text.dropWhile isDecimal) := by
  intro c hc
  have hnot := List.head?_dropWhile_not isDecimal text
  rw [hc] at hnot
  simpa using hnot

/-- **One extraction**: it uses up a place, or it leaves the variable alone and the stream is not
good behind it. -/
theorem extractId_uses {is : InStream} (hfresh : is.good = true → Fresh gap is.remaining)
    (id : Id) :
    ((is.extractId id).1 = id ∧ (is.extractId id).2.good = false ∨
        startsLeft false (is.extractId id).2 + 1 ≤ startsLeft gap is) ∧
      ((is.extractId id).2.good = true → Fresh false (is.extractId id).2.remaining) := by
  by_cases hgood : is.good = true
  · rw [InStream.extractId, if_pos hgood]
    cases hahead : is.remaining.dropWhile isspace with
    | nil => exact ⟨Or.inl ⟨rfl, rfl⟩, fun h => nomatch h⟩
    | cons c cs =>
      have hleft : startsLeft gap is = 1 + starts false cs := by
        rw [startsLeft, if_pos hgood, starts_ahead (hfresh hgood) hahead]
      simp only
      generalize hunsigned : (if c = Wc '-' || c = Wc '+' then cs else c :: cs) = unsigned
      by_cases hnil : unsigned.takeWhile isDecimal = []
      · rw [if_pos hnil]
        refine ⟨Or.inr ?_, fun h => nomatch h⟩
        rw [hleft, startsLeft_of_bad rfl]
        omega
      · rw [if_neg hnil]
        have hrest : starts false (unsigned.dropWhile isDecimal) = starts false cs := by
          rw [starts_dropWhile, ← hunsigned]
          split
          · rfl
          · next hsign =>
            rw [if_neg hsign] at hunsigned
            have hdigit : isDecimal c = true := by
              by_contra hc
              rw [← hunsigned, List.takeWhile_cons_of_neg hc] at hnil
              exact hnil rfl
            have hone : starts false ([c] ++ cs) = 0 + starts false cs :=
              starts_digits false (List.cons_ne_nil _ _) (by simpa using hdigit) cs
            simpa using hone
        refine ⟨Or.inr ?_, fun _ => Or.inr (endsNumber_dropWhile unsigned)⟩
        rw [hleft, ← hrest, Nat.add_comm 1]
        exact Nat.succ_le_succ (startsLeft_le false _)
  · have hbad : is.good = false := Bool.eq_false_iff.mpr hgood
    rw [InStream.extractId, if_neg hgood]
    exact ⟨Or.inl ⟨rfl, hbad⟩, fun h => absurd h hgood⟩

/-- One extraction after another. -/
def extractAll : List Id → InStream → List Id × InStream
  | [], is => ([], is)
  | id :: ids, is =>
    let (id, is) := is.extractId id
    let (ids, is) := extractAll ids is
    (id :: ids, is)

theorem extractAll_append (ids ids' : List Id) (is : InStream) :
    extractAll (ids ++ ids') is =
      ((extractAll ids is).1 ++ (extractAll ids' (extractAll ids is).2).1,
        (extractAll ids' (extractAll ids is).2).2) := by
  induction ids generalizing is with
  | nil => rfl
  | cons id ids ih => simp only [List.cons_append, extractAll, ih]

/-- **Too few places**: the last variable keeps its value. -/
theorem extractAll_untouched {is : InStream} (hfresh : is.good = true → Fresh gap is.remaining)
    (ids : List Id) (last : Id) (hfew : startsLeft gap is < ids.length + 1) :
    ∃ before, (extractAll (ids ++ [last]) is).1 = before ++ [last] := by
  induction ids generalizing gap is with
  | nil =>
    obtain ⟨huses, -⟩ := extractId_uses hfresh last
    refine ⟨[], ?_⟩
    rcases huses with ⟨hkept, -⟩ | hless
    · simp only [List.nil_append, extractAll, hkept]
    · rw [List.length_nil] at hfew
      omega
  | cons id ids ih =>
    obtain ⟨huses, hnext⟩ := extractId_uses hfresh id
    rw [List.length_cons] at hfew
    have hfew' : startsLeft false (is.extractId id).2 < ids.length + 1 := by
      rcases huses with ⟨-, hbad⟩ | hless
      · rw [startsLeft_of_bad hbad]
        omega
      · omega
    obtain ⟨before, hbefore⟩ := ih hnext hfew'
    refine ⟨(is.extractId id).1 :: before, ?_⟩
    simp only [List.cons_append, extractAll, hbefore]

/-! ## Main result -/

/-- The four variables in the order in which they are read. -/
def numbers (g : Generator) : List Id :=
  [g.object.mid, g.mdata.minitialValue, g.mdata.mstep, g.mdata.mvalue]

theorem readText_numbers (g : Generator) (is : InStream) :
    extractAll (numbers g) is = (numbers (g.readText is).1, (g.readText is).2) := rfl

theorem readSequence_numbers (gs : List Generator) (is : InStream) :
    (extractAll (gs.flatMap numbers) is).1 =
      (Generator.readSequence gs is).1.flatMap numbers := by
  induction gs generalizing is with
  | nil => rfl
  | cons g gs ih =>
    rw [List.flatMap_cons, extractAll_append, readText_numbers, Generator.readSequence]
    simp only [ih, List.flatMap_cons]

/-- Whatever the generators are that the text is read into, they are then those that were
written. -/
def RoundTrips (gs : List Generator) : Prop :=
  ∀ targets : List Generator, targets.length = gs.length →
    (Generator.readSequence targets { remaining := Generator.writeSequence [] gs }).1 = gs

theorem roundTrips_of_separated {gs : List Generator} (hsep : ∀ g ∈ gs, Separated g) :
    RoundTrips gs := by
  intro targets hlen
  cases gs with
  | nil =>
    rw [List.length_eq_zero_iff.mp hlen]
    rfl
  | cons g gs =>
    obtain ⟨target, targets, rfl⟩ := List.exists_cons_of_length_eq_add_one hlen
    rw [writeSequence_cons, Generator.readSequence,
      readText_text (hsep g List.mem_cons_self) rfl (text_ahead g _) (endsNumber_textBehind gs)]
    simp only
    rw [readSequence_text (fun g' hg' => hsep g' (List.mem_cons_of_mem _ hg')) (Nat.succ.inj hlen)
      rfl rfl]

theorem separated_of_roundTrips {gs : List Generator} (h : RoundTrips gs) :
    ∀ g ∈ gs, Separated g := by
  by_contra hsep
  have hlt := sum_weight_lt hsep
  obtain ⟨front, last, rfl⟩ : ∃ front last, gs = front ++ [last] := by
    rcases List.eq_nil_or_concat gs with rfl | ⟨front, last, rfl⟩
    · exact absurd (fun g hg => absurd hg List.not_mem_nil) hsep
    · exact ⟨front, last, List.concat_eq_append⟩
  -- the last target has another value than the last generator
  let other : Generator :=
    { last with mdata := { last.mdata with mvalue := last.mdata.mvalue + 1 } }
  let ids := front.flatMap numbers ++
    [last.object.mid, last.mdata.minitialValue, last.mdata.mstep]
  let is : InStream := { remaining := Generator.writeSequence [] (front ++ [last]) }
  have hids : (front ++ [other]).flatMap numbers = ids ++ [last.mdata.mvalue + 1] := by
    rw [List.flatMap_append, List.append_assoc]
    rfl
  have hwritten : (front ++ [last]).flatMap numbers = ids ++ [last.mdata.mvalue] := by
    rw [List.flatMap_append, List.append_assoc]
    rfl
  have hlength : ids.length = 4 * front.length + 3 := by
    have hfour : ∀ g ∈ front, (numbers g).length = 4 := fun _ _ => rfl
    rw [List.length_append, List.length_flatMap, List.map_congr_left hfour, List.map_const',
      List.sum_replicate, smul_eq_mul, Nat.mul_comm]
    rfl
  have hfew : startsLeft true is < ids.length + 1 := by
    rw [startsLeft, if_pos rfl, starts_writeSequence, hlength]
    rw [List.length_append, List.length_singleton] at hlt
    omega
  obtain ⟨before, hbefore⟩ :=
    extractAll_untouched (fun _ => Or.inl rfl) ids (last.mdata.mvalue + 1) hfew
  have hread : (Generator.readSequence (front ++ [other]) is).1 = front ++ [last] :=
    h (front ++ [other]) (by rw [List.length_append, List.length_append]; rfl)
  rw [← hids, readSequence_numbers, hread, hwritten] at hbefore
  have hvalue := (List.append_inj' hbefore rfl).2
  have hsame : last.mdata.mvalue + 1 = last.mdata.mvalue := (List.cons.inj hvalue).1.symm
  exact absurd (BitVec.add_right_eq_self.mp hsame) (by decide)

/-- **The text of generators**: it can be read back exactly when the initial value and the step of
each are negative. -/
theorem text_roundTrips_iff (gs : List Generator) :
    RoundTrips gs ↔ ∀ g ∈ gs, Separated g :=
  ⟨separated_of_roundTrips, roundTrips_of_separated⟩

/-- The generator with the id 5 that starts at 0: its text is `501 0`. -/
theorem not_roundTrips_five : ¬ ∀ gs : List Generator, RoundTrips gs := by
  intro h
  have hread := h [Generator.new 5 0 1] [Generator.new] rfl
  exact absurd hread (by decide)

end Pensar.Analysis.GeneratorText
