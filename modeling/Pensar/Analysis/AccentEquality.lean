import Pensar.Analysis.FixedStringText
import Pensar.Analysis.AccentRemoval

/-!
# Accent-insensitive equality

Whether two texts are the same without their accents is decided by their base characters
(`removeAccents_same_iff`).  `operator==` removes accents byte by byte, and where `char` is
signed the test for ASCII lets every byte pass, so it compares the texts as they are.

Main result: `accentEquality_iff`.
-/

set_option autoImplicit false

namespace Pensar.Analysis

open Pensar.Computation
open Pensar.Computation.Utf16
open Pensar.Model

variable (icu : Icu)

/-! ## Texts without their accents -/

/-- The base characters decide whether two texts are the same without their accents. -/
theorem removeAccents_same_iff (p q : List Char) :
    (∃ r, removeAccents icu (utf8 p) = .ok r ∧ removeAccents icu (utf8 q) = .ok r) ↔
      (utf8 p).length ≤ MAX_INT32_T ∧ (utf8 q).length ≤ MAX_INT32_T ∧
        bases icu p = bases icu q := by
  have hlong : ∀ text : List Char, ¬ (utf8 text).length ≤ MAX_INT32_T →
      ∀ r, removeAccents icu (utf8 text) ≠ .ok r := by
    intro text h r hr
    rw [removeAccents, if_pos (Nat.not_le.mp h)] at hr
    cases hr
  constructor
  · rintro ⟨r, hp, hq⟩
    have hpshort : (utf8 p).length ≤ MAX_INT32_T := by
      by_contra h
      exact hlong p h r hp
    have hqshort : (utf8 q).length ≤ MAX_INT32_T := by
      by_contra h
      exact hlong q h r hq
    refine ⟨hpshort, hqshort, ?_⟩
    rw [removeAccents_utf8 icu hpshort] at hp
    rw [removeAccents_utf8 icu hqshort] at hq
    have hbytes := Except.ok.inj (hp.trans hq.symm)
    exact perUnit_injective (utf8_injective hbytes)
  · rintro ⟨hpshort, hqshort, hbases⟩
    exact ⟨_, removeAccents_utf8 icu hpshort, by rw [hbases, removeAccents_utf8 icu hqshort]⟩

/-! ## `operator==` -/

theorem charValue_lt (c : C) : charValue c < 128 := Int8.toInt_lt c.toInt8

/-- Every character takes the fast path. -/
theorem removeAccentCharSigned_eq (nfdBase : C → C) (c : C) :
    removeAccentCharSigned nfdBase c = c := if_pos (charValue_lt c)

theorem equal_signed (nfdBase : C → C) (c c2 : C) :
    equal (removeAccentCharSigned nfdBase) c c2 true false = decide (c = c2) := by
  have hid : ∀ c, removeAccentChar (removeAccentCharSigned nfdBase) c = c := by
    intro c
    unfold removeAccentChar
    split
    · rfl
    · exact removeAccentCharSigned_eq nfdBase c
  rw [equal, hid, hid]

theorem eq_signed_iff (nfdBase : C → C) {MIN MAX : ℕ} {a b : CS MIN MAX true false} {s t : S}
    (ha : a.toString? = some s) (hb : b.toString? = some t) :
    a.eq? (removeAccentCharSigned nfdBase) b = some true ↔ s = t := by
  rw [eq_of_toString _ ha hb, Option.some.injEq, Bool.and_eq_true, decide_eq_true_iff,
    List.all_eq_true]
  simp only [equal_signed, decide_eq_true_iff]
  rw [← List.forall₂_eq_eq_eq, List.forall₂_iff_zip]
  refine and_congr_right fun _ => ?_
  constructor
  · intro h x y hxy
    exact h (x, y) hxy
  · rintro h ⟨x, y⟩ hxy
    exact h hxy

/-- The condition: the same text, not too long for ICU, or texts with different base
characters. -/
def AccentsAside (p q : List Char) : Prop :=
  if p = q then (utf8 p).length ≤ MAX_INT32_T
  else (utf8 p).length ≤ MAX_INT32_T → (utf8 q).length ≤ MAX_INT32_T → bases icu p ≠ bases icu q

instance (p q : List Char) : Decidable (AccentsAside icu p q) :=
  inferInstanceAs (Decidable (if p = q then (utf8 p).length ≤ MAX_INT32_T
    else (utf8 p).length ≤ MAX_INT32_T → (utf8 q).length ≤ MAX_INT32_T → bases icu p ≠ bases icu q))

/-- **When `==` compares without accents.** -/
theorem accentEquality_iff (nfdBase : C → C) {MIN MAX : ℕ} (a b : CS MIN MAX true false)
    (p q : List Char) (ha : a.toString? = some (utf8 p)) (hb : b.toString? = some (utf8 q)) :
    (a.eq? (removeAccentCharSigned nfdBase) b = some true ↔
      ∃ r, removeAccents icu (utf8 p) = .ok r ∧ removeAccents icu (utf8 q) = .ok r) ↔
    AccentsAside icu p q := by
  rw [eq_signed_iff nfdBase ha hb, utf8_injective.eq_iff, removeAccents_same_iff, AccentsAside]
  split
  case isTrue hpq =>
    subst hpq
    constructor
    · intro h
      exact (h.mp rfl).1
    · intro h
      exact iff_of_true rfl ⟨h, h, rfl⟩
  case isFalse hpq =>
    constructor
    · intro h hp hq hbases
      exact hpq (h.mpr ⟨hp, hq, hbases⟩)
    · intro h
      apply iff_of_false hpq
      rintro ⟨hp, hq, hbases⟩
      exact h hp hq hbases

/-! ## One letter with an accent -/

theorem toString_utf8 {text : List Char} (h : (utf8 text).length < 20)
    (hnul : NULL_CHAR ∉ utf8 text) :
    (CS.ofS (utf8 text) h : CS 0 20 true false).toString? = some (utf8 text) :=
  CS.toString_ofS _ h hnul

/-- "é" and "o" have different base characters, and the comparison tells them apart. -/
theorem acute_o : (CS.ofS (utf8 ['é']) (by decide) : CS 0 20 true false).eq?
      (removeAccentCharSigned id) (CS.ofS (utf8 ['o']) (by decide)) = some true ↔
    ∃ r, removeAccents acuteIcu (utf8 ['é']) = .ok r ∧
      removeAccents acuteIcu (utf8 ['o']) = .ok r :=
  (accentEquality_iff acuteIcu id _ _ ['é'] ['o'] (toString_utf8 (by decide) (by decide))
    (toString_utf8 (by decide) (by decide))).mpr (by decide)

/-- "é" and "e" are the same without accents, and the comparison tells them apart, too. -/
theorem acute_e : ¬ ((CS.ofS (utf8 ['é']) (by decide) : CS 0 20 true false).eq?
      (removeAccentCharSigned id) (CS.ofS (utf8 ['e']) (by decide)) = some true ↔
    ∃ r, removeAccents acuteIcu (utf8 ['é']) = .ok r ∧
      removeAccents acuteIcu (utf8 ['e']) = .ok r) := by
  intro h
  have hsame := (removeAccents_same_iff acuteIcu ['é'] ['e']).mpr (by decide)
  exact absurd (h.mpr hsame) (by decide)

end Pensar.Analysis
