import Pensar.Analysis.IcuDistance

/-!
# Removing accents

`remove_accents` decomposes the text and keeps the code points that are no non-spacing marks.
Its loop goes from unit to unit, so it comes to a code point of two units twice and keeps it
twice (`removeAccents_utf8`); `to_codepoints` goes on by the number of units.

Main result: `removeAccents_eq_bases_iff`.
-/

set_option autoImplicit false

namespace Pensar.Analysis

open Pensar.Computation
open Pensar.Computation.Utf16
open Pensar.Model

variable (icu : Icu)

/-- The base characters of a text. -/
def bases (text : List Char) : List Char :=
  (icu.nfd text).filter fun c => !icu.isNonSpacingMark c.toNat

/-- Every code point once for each of its units. -/
def perUnit (text : List Char) : List Char :=
  text.flatMap fun c => List.replicate (unitCount c.toNat) c

theorem perUnit_injective : Function.Injective perUnit := by
  have hcons : ∀ (c : Char) (text : List Char), ∃ rest, perUnit (c :: text) = c :: rest := by
    intro c text
    unfold perUnit unitCount
    rw [List.flatMap_cons]
    split
    · exact ⟨_, rfl⟩
    · exact ⟨_, rfl⟩
  intro p q h
  induction p generalizing q with
  | nil =>
    cases q with
    | nil => rfl
    | cons d q =>
      obtain ⟨rest, hrest⟩ := hcons d q
      rw [hrest] at h
      cases h
  | cons c p ih =>
    cases q with
    | nil =>
      obtain ⟨rest, hrest⟩ := hcons c p
      rw [hrest] at h
      cases h
    | cons d q =>
      have hcd : c = d := by
        obtain ⟨r, hr⟩ := hcons c p
        obtain ⟨r', hr'⟩ := hcons d q
        rw [hr, hr'] at h
        exact (List.cons.inj h).1
      subst hcd
      rw [ih (List.append_cancel_left h)]

/-- The offsets of one code point. -/
theorem keepBase_units (p q text : List Char) (c : Char) :
    (List.range' (encode p).length (unitCount c.toNat)).foldl
        (keepBase icu (encode p ++ encode (c :: q))) (encode text) =
      encode (text ++ if icu.isNonSpacingMark c.toNat then []
        else List.replicate (unitCount c.toNat) c) := by
  by_cases hc : c.toNat ≤ 0xFFFF
  · have hcount : unitCount c.toNat = 1 := if_pos hc
    rw [hcount, List.range'_one, List.foldl_cons, List.foldl_nil, keepBase]
    simp only [char32At_boundary]
    split
    · rw [List.append_nil]
    · rw [List.replicate_one, encode_snoc]
  · have hcount : unitCount c.toNat = 2 := if_neg hc
    have hrange : List.range' (encode p).length 2 =
        [(encode p).length, (encode p).length + 1] := rfl
    rw [hcount, hrange, List.foldl_cons, List.foldl_cons, List.foldl_nil, keepBase, keepBase]
    simp only [char32At_boundary, char32At_trail p q (Nat.not_le.mp hc)]
    split
    · rw [List.append_nil]
    · have htwo : text ++ List.replicate 2 c = text ++ [c] ++ [c] := by
        rw [List.append_assoc]
        rfl
      rw [htwo, encode_snoc, encode_snoc]

/-- The loop from a boundary between two code points on. -/
theorem keepBase_encode (p q text : List Char) :
    (List.range' (encode p).length (encode q).length).foldl
        (keepBase icu (encode p ++ encode q)) (encode text) =
      encode (text ++ perUnit (q.filter fun c => !icu.isNonSpacingMark c.toNat)) := by
  induction q generalizing p text with
  | nil =>
    rw [encode_nil, List.length_nil, List.range'_zero, List.foldl_nil, List.filter_nil]
    exact congrArg encode (List.append_nil text).symm
  | cons c q ih =>
    have hsplit : encode p ++ encode (c :: q) = encode (p ++ [c]) ++ encode q := by
      rw [encode_snoc, encode_cons, List.append_assoc]
    have hnext : (encode p).length + unitCount c.toNat = (encode (p ++ [c])).length := by
      rw [encode_snoc, List.length_append, length_units]
    have hlen : (encode (c :: q)).length = unitCount c.toNat + (encode q).length := by
      rw [encode_cons, List.length_append, length_units]
    rw [hlen, ← List.range'_append_1, List.foldl_append, keepBase_units, hnext, hsplit, ih,
      List.append_assoc]
    congr 2
    cases hmark : icu.isNonSpacingMark c.toNat with
    | true => rw [List.filter_cons_of_neg (by simp [hmark])]; rfl
    | false => rw [List.filter_cons_of_pos (by simp [hmark])]; rfl

theorem removeAccents_utf8 {text : List Char} (h : (utf8 text).length ≤ MAX_INT32_T) :
    removeAccents icu (utf8 text) = .ok (utf8 (perUnit (bases icu text))) := by
  have hnormal : icu.normalize (toUnicodeString icu (utf8 text)) = encode (icu.nfd text) := by
    rw [Icu.normalize, toUnicodeString, decode_encode, icu.points_utf8]
  have hloop := keepBase_encode icu [] (icu.nfd text) []
  rw [encode_nil, List.nil_append, List.nil_append, List.length_nil] at hloop
  unfold removeAccents
  rw [if_neg (Nat.not_lt.mpr h), hnormal]
  simp only
  rw [List.range_eq_range', hloop, toUTF8String, decode_encode, bases]

/-! ## Code points of one unit -/

theorem length_le_perUnit (text : List Char) : text.length ≤ (perUnit text).length := by
  induction text with
  | nil => exact Nat.le_refl 0
  | cons c text ih =>
    have hpos := unitCount_pos c.toNat
    rw [perUnit, List.flatMap_cons, List.length_append, List.length_replicate, List.length_cons]
    rw [perUnit] at ih
    omega

theorem perUnit_eq_self_iff (text : List Char) :
    perUnit text = text ↔ ∀ c ∈ text, c.toNat ≤ 0xFFFF := by
  induction text with
  | nil => exact iff_of_true rfl fun c hc => absurd hc List.not_mem_nil
  | cons c text ih =>
    have hcons : perUnit (c :: text) = List.replicate (unitCount c.toNat) c ++ perUnit text := rfl
    rw [List.forall_mem_cons, ← ih, hcons]
    by_cases hc : c.toNat ≤ 0xFFFF
    · have hcount : unitCount c.toNat = 1 := if_pos hc
      rw [hcount, List.replicate_one, List.singleton_append, List.cons.injEq]
      simp only [hc, true_and]
    · have hcount : unitCount c.toNat = 2 := if_neg hc
      apply iff_of_false
      · intro h
        have hlen := congrArg List.length h
        have hle := length_le_perUnit text
        rw [hcount, List.length_append, List.length_replicate, List.length_cons] at hlen
        omega
      · exact fun h => hc h.1

/-- **Accent stripping**: right for a text that is not too long and has no base character of
two units. -/
theorem removeAccents_eq_bases_iff (text : List Char) :
    removeAccents icu (utf8 text) = .ok (utf8 (bases icu text)) ↔
      (utf8 text).length ≤ MAX_INT32_T ∧ ∀ c ∈ bases icu text, c.toNat ≤ 0xFFFF := by
  by_cases hlen : (utf8 text).length ≤ MAX_INT32_T
  · rw [removeAccents_utf8 icu hlen, Except.ok.injEq, utf8_injective.eq_iff, perUnit_eq_self_iff]
    exact (and_iff_right hlen).symm
  · apply iff_of_false
    · intro h
      rw [removeAccents, if_pos (Nat.not_le.mp hlen)] at h
      cases h
    · exact fun h => hlen h.1

/-- An emoji takes two units. -/
theorem not_removeAccents_emoji :
    ¬ ∀ text : List Char,
      removeAccents acuteIcu (utf8 text) = .ok (utf8 (bases acuteIcu text)) := by
  intro h
  have hemoji := h ['😀']
  rw [removeAccents_utf8 acuteIcu (by decide), Except.ok.injEq, utf8_injective.eq_iff] at hemoji
  exact absurd hemoji (by decide)

end Pensar.Analysis
