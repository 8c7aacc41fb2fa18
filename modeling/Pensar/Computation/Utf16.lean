import Mathlib.Data.List.Basic
import Mathlib.Data.List.Flatten
import Mathlib.Tactic

/-!
# Text in UTF-8 and in UTF-16

A code point is a `Char`, which leaves the surrogates out.  Code units of UTF-16 and the
values of code points are natural numbers.  A code point from 0x10000 on takes two units, a
lead and a trail surrogate.

`char32At` gives the code point to which the unit at an offset belongs, so it gives a code
point of two units at both of its offsets (`char32At_boundary`, `char32At_trail`).  In units
with lone surrogates among them it splits off one code point after the other all the same
(`take_char32At`).
-/

set_option autoImplicit false

namespace Pensar.Computation

/-- The UTF-8 of a text. -/
def utf8 (text : List Char) : List UInt8 := text.flatMap String.utf8EncodeChar

theorem toByteArray_utf8 (text : List Char) : (utf8 text).toByteArray = text.utf8Encode := rfl

theorem utf8_injective : Function.Injective utf8 := by
  intro p q h
  have hbytes : p.utf8Encode = q.utf8Encode := by
    rw [← toByteArray_utf8, ← toByteArray_utf8, h]
  have hdecoded := congrArg ByteArray.utf8Decode? hbytes
  rw [List.utf8Decode?_utf8Encode, List.utf8Decode?_utf8Encode] at hdecoded
  simpa using hdecoded

/-- The text of a byte string; U+FFFD stands for every byte above 0x7F of a string that is
not UTF-8. -/
def decodeUtf8 (bytes : List UInt8) : List Char :=
  match bytes.toByteArray.utf8Decode? with
  | some text => text.toList
  | none => bytes.map fun b => if b < 0x80 then Char.ofNat b.toNat else '\uFFFD'

theorem decodeUtf8_utf8 (text : List Char) : decodeUtf8 (utf8 text) = text := by
  rw [decodeUtf8, toByteArray_utf8, List.utf8Decode?_utf8Encode]

namespace Utf16

def IsLead (u : ℕ) : Prop := 0xD800 ≤ u ∧ u < 0xDC00

def IsTrail (u : ℕ) : Prop := 0xDC00 ≤ u ∧ u < 0xE000

instance (u : ℕ) : Decidable (IsLead u) := inferInstanceAs (Decidable (_ ∧ _))

instance (u : ℕ) : Decidable (IsTrail u) := inferInstanceAs (Decidable (_ ∧ _))

/-- The value of a lead and a trail surrogate together. -/
def supplementary (lead trail : ℕ) : ℕ := (lead - 0xD800) * 0x400 + (trail - 0xDC00) + 0x10000

/-- How many units a code point takes. -/
def unitCount (c : ℕ) : ℕ := if c ≤ 0xFFFF then 1 else 2

/-- The units of a code point. -/
def units (c : ℕ) : List ℕ :=
  if c ≤ 0xFFFF then [c]
  else [0xD800 + (c - 0x10000) / 0x400, 0xDC00 + (c - 0x10000) % 0x400]

def encode (text : List Char) : List ℕ := text.flatMap fun c => units c.toNat

/-- The code point to which the unit at `offset` belongs; a surrogate without its other half
is given as it is, and 0xFFFF where there is no unit. -/
def char32At (us : List ℕ) (offset : ℕ) : ℕ :=
  match us[offset]? with
  | none => 0xFFFF
  | some u =>
    if IsLead u then
      match us[offset + 1]? with
      | some v => if IsTrail v then supplementary u v else u
      | none => u
    else if IsTrail u ∧ 0 < offset then
      match us[offset - 1]? with
      | some v => if IsLead v then supplementary v u else u
      | none => u
    else
      u

/-- The code points one after the other, from the front. -/
def codePoints : List ℕ → List ℕ
  | [] => []
  | [u] => [u]
  | u :: v :: rest =>
    if IsLead u ∧ IsTrail v then supplementary u v :: codePoints rest
    else u :: codePoints (v :: rest)

/-- The code point of this value; U+FFFD stands for a surrogate. -/
def charOf (c : ℕ) : Char := if c.isValidChar then Char.ofNat c else '\uFFFD'

def decode (us : List ℕ) : List Char := (codePoints us).map charOf

/-! ## Units of a code point -/

theorem length_units (c : ℕ) : (units c).length = unitCount c := by
  unfold units unitCount
  split <;> rfl

theorem unitCount_pos (c : ℕ) : 0 < unitCount c := by
  unfold unitCount
  split <;> omega

theorem encode_nil : encode [] = [] := rfl

theorem encode_cons (c : Char) (text : List Char) :
    encode (c :: text) = units c.toNat ++ encode text := rfl

theorem encode_append (p q : List Char) : encode (p ++ q) = encode p ++ encode q :=
  List.flatMap_append

theorem encode_snoc (text : List Char) (c : Char) :
    encode (text ++ [c]) = encode text ++ units c.toNat := by
  rw [encode_append, encode_cons, encode_nil, List.append_nil]

/-- A code point is no surrogate. -/
theorem toNat_cases (c : Char) :
    c.toNat < 0xD800 ∨ (0xE000 ≤ c.toNat ∧ c.toNat ≤ 0xFFFF) ∨
      (0x10000 ≤ c.toNat ∧ c.toNat < 0x110000) := by
  have hvalid : c.toNat < 0xD800 ∨ 0xDFFF < c.toNat ∧ c.toNat < 0x110000 := c.valid
  omega

/-- The two kinds of code points. -/
theorem units_cases (c : Char) :
    (units c.toNat = [c.toNat] ∧ ¬ IsLead c.toNat ∧ ¬ IsTrail c.toNat) ∨
    ∃ u v, units c.toNat = [u, v] ∧ IsLead u ∧ IsTrail v ∧ supplementary u v = c.toNat := by
  by_cases hc : c.toNat ≤ 0xFFFF
  · left
    have hcases := toNat_cases c
    refine ⟨if_pos hc, ?_, ?_⟩
    · unfold IsLead
      omega
    · unfold IsTrail
      omega
  · right
    have hcases := toNat_cases c
    refine ⟨_, _, if_neg hc, ?_, ?_, ?_⟩
    · unfold IsLead
      omega
    · unfold IsTrail
      omega
    · unfold supplementary
      omega

theorem codePoints_units_append (c : Char) (rest : List ℕ) :
    codePoints (units c.toNat ++ rest) = c.toNat :: codePoints rest := by
  rcases units_cases c with ⟨hunits, hlead, -⟩ | ⟨u, v, hunits, hlead, htrail, hval⟩
  · rw [hunits]
    cases rest with
    | nil => rfl
    | cons v rest =>
      simp only [List.cons_append, List.nil_append, codePoints]
      rw [if_neg (fun h => hlead h.1)]
  · rw [hunits]
    simp only [List.cons_append, List.nil_append, codePoints]
    rw [if_pos ⟨hlead, htrail⟩, hval]

theorem codePoints_encode (text : List Char) : codePoints (encode text) = text.map Char.toNat := by
  induction text with
  | nil => rfl
  | cons c text ih => rw [encode_cons, codePoints_units_append, ih, List.map_cons]

theorem charOf_toNat (c : Char) : charOf c.toNat = c := by
  have hvalid : c.toNat.isValidChar := c.valid
  rw [charOf, if_pos hvalid, Char.ofNat_toNat]

/-- Decoding undoes encoding. -/
@[simp] theorem decode_encode (text : List Char) : decode (encode text) = text := by
  rw [decode, codePoints_encode, List.map_map]
  conv_rhs => rw [← List.map_id text]
  apply List.map_congr_left
  intro c _
  exact charOf_toNat c

/-! ## The code point at an offset -/

theorem char32At_boundary (p q : List Char) (c : Char) :
    char32At (encode p ++ encode (c :: q)) (encode p).length = c.toNat := by
  unfold char32At
  rw [List.getElem?_append_right (Nat.le_refl _), Nat.sub_self,
    List.getElem?_append_right (Nat.le_add_right _ 1), Nat.add_sub_cancel_left, encode_cons]
  rcases units_cases c with ⟨hunits, hlead, htrail⟩ | ⟨u, v, hunits, hlead, htrail, hval⟩
  · rw [hunits]
    simp only [List.cons_append, List.nil_append, List.getElem?_cons_zero]
    rw [if_neg hlead, if_neg (fun h => htrail h.1)]
  · rw [hunits]
    simp only [List.cons_append, List.nil_append, List.getElem?_cons_zero,
      List.getElem?_cons_succ]
    rw [if_pos hlead, if_pos htrail, hval]

/-- In the middle of a code point of two units. -/
theorem char32At_trail (p q : List Char) {c : Char} (hc : 0xFFFF < c.toNat) :
    char32At (encode p ++ encode (c :: q)) ((encode p).length + 1) = c.toNat := by
  unfold char32At
  rw [List.getElem?_append_right (Nat.le_add_right _ 1), Nat.add_sub_cancel_left,
    Nat.add_sub_cancel, List.getElem?_append_right (Nat.le_refl _), Nat.sub_self, encode_cons]
  rcases units_cases c with ⟨hunits, -, -⟩ | ⟨u, v, hunits, hlead, htrail, hval⟩
  · have hlen := length_units c.toNat
    rw [hunits, unitCount, if_neg (Nat.not_le.mpr hc)] at hlen
    simp at hlen
  · have hnot : ¬ IsLead v := by
      unfold IsLead IsTrail at *
      omega
    rw [hunits]
    simp only [List.cons_append, List.nil_append, List.getElem?_cons_zero,
      List.getElem?_cons_succ]
    rw [if_neg hnot, if_pos ⟨htrail, Nat.succ_pos _⟩, if_pos hlead, hval]

/-! ## Any units

Surrogates need not come in pairs.  What `char32At` gives at an offset that is not inside a
pair are the units from there on, one or two of them, and the offset behind them is not inside
a pair either. -/

/-- The offset is between the lead and the trail surrogate of a pair. -/
def InsidePair (us : List ℕ) (offset : ℕ) : Prop :=
  ∃ u v, 0 < offset ∧ us[offset - 1]? = some u ∧ us[offset]? = some v ∧ IsLead u ∧ IsTrail v

theorem not_insidePair_zero (us : List ℕ) : ¬ InsidePair us 0 := by
  rintro ⟨-, -, hpos, -⟩
  exact Nat.lt_irrefl 0 hpos

/-- A pair is the units of its value. -/
theorem units_supplementary {u v : ℕ} (hu : IsLead u) (hv : IsTrail v) :
    units (supplementary u v) = [u, v] := by
  unfold IsLead at hu
  unfold IsTrail at hv
  have hge : ¬ supplementary u v ≤ 0xFFFF := by
    unfold supplementary
    omega
  have hlead : 0xD800 + (supplementary u v - 0x10000) / 0x400 = u := by
    unfold supplementary
    omega
  have htrail : 0xDC00 + (supplementary u v - 0x10000) % 0x400 = v := by
    unfold supplementary
    omega
  rw [units, if_neg hge, hlead, htrail]

/-- At a pair. -/
theorem char32At_pair {us : List ℕ} {i u v : ℕ} (hi : us[i]? = some u)
    (hnext : us[i + 1]? = some v) (hu : IsLead u) (hv : IsTrail v) :
    char32At us i = supplementary u v := by
  simp only [char32At, hi, hnext]
  rw [if_pos hu, if_pos hv]

/-- At a unit that is neither the first nor the second of a pair. -/
theorem char32At_single {us : List ℕ} {i u : ℕ} (hi : us[i]? = some u)
    (hinside : ¬ InsidePair us i) (hpair : ¬ InsidePair us (i + 1)) : char32At us i = u := by
  simp only [char32At, hi]
  by_cases hlead : IsLead u
  · rw [if_pos hlead]
    cases hnext : us[i + 1]? with
    | none => rfl
    | some v =>
      have htrail : ¬ IsTrail v := by
        intro hv
        exact hpair ⟨u, v, Nat.succ_pos i, hi, hnext, hlead, hv⟩
      simp only [htrail, if_false]
  · rw [if_neg hlead]
    split
    case isFalse => rfl
    case isTrue htrail =>
      cases hprev : us[i - 1]? with
      | none => rfl
      | some v =>
        have hv : ¬ IsLead v := by
          intro hv
          exact hinside ⟨v, u, htrail.2, hprev, hi, hv, htrail.1⟩
        simp only [hv, if_false]

/-- **The code point at an offset that is not inside a pair**: its units are those from the
offset on, and the next offset is not inside a pair. -/
theorem take_char32At {us : List ℕ} {i : ℕ} (hus : ∀ u ∈ us, u ≤ 0xFFFF) (hi : i < us.length)
    (hinside : ¬ InsidePair us i) :
    us.take (i + unitCount (char32At us i)) = us.take i ++ units (char32At us i) ∧
      i + unitCount (char32At us i) ≤ us.length ∧
      ¬ InsidePair us (i + unitCount (char32At us i)) := by
  have hunit : us[i]? = some us[i] := List.getElem?_eq_getElem hi
  by_cases hpair : InsidePair us (i + 1)
  · obtain ⟨u, v, -, hu, hv, hlead, htrail⟩ := hpair
    rw [Nat.add_sub_cancel] at hu
    have hunits := units_supplementary hlead htrail
    have hcount : unitCount (supplementary u v) = 2 := by
      rw [← length_units, hunits]
      rfl
    rw [char32At_pair hu hv hlead htrail, hunits, hcount]
    have hlen : i + 1 < us.length := (List.getElem?_eq_some_iff.mp hv).1
    refine ⟨?_, hlen, ?_⟩
    · rw [List.take_add_one, List.take_add_one, hu, hv, List.append_assoc]
      rfl
    · rintro ⟨v', w, -, hv', -, hlead', -⟩
      have hsame : v' = v := Option.some.inj (hv'.symm.trans hv)
      unfold IsLead at hlead'
      unfold IsTrail at htrail
      omega
  · have hle : us[i] ≤ 0xFFFF := hus _ (List.getElem_mem hi)
    have hcount : unitCount us[i] = 1 := if_pos hle
    rw [char32At_single hunit hinside hpair, hcount, units, if_pos hle]
    refine ⟨?_, hi, hpair⟩
    rw [List.take_add_one, hunit]
    rfl

end Utf16

end Pensar.Computation
