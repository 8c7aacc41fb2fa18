import Pensar.Computation.Search
import Pensar.Model.IcuUtil
import Pensar.Analysis.DistanceMetric

/-!
# `icu_distance` is `distance` over code points

The loop of `to_codepoints` goes from code point to code point, each with the units it
takes (`toCodepointsLoop_encode`).  The table itself only asks which elements are equal, so it
does not change when the elements are renamed without two becoming one (`rolling_map`).

Main result: `icuDistance_isLeast`.
-/

set_option autoImplicit false

namespace Pensar.Analysis

open Pensar.Computation
open Pensar.Computation.Alignment
open Pensar.Computation.Utf16
open Pensar.Model
open Pensar.Model.Distance

/-! ## Code points -/

/-- From a boundary between two code points on, the loop appends the code points that are
left. -/
theorem toCodepointsLoop_encode (p q : List Char) (codepoints : List ℕ) :
    toCodepointsLoop (encode p ++ encode q) (encode p).length codepoints =
      codepoints ++ q.map Char.toNat := by
  induction q generalizing p codepoints with
  | nil =>
    rw [toCodepointsLoop, encode_nil, List.append_nil, if_neg (Nat.lt_irrefl _), List.map_nil,
      List.append_nil]
  | cons c q ih =>
    have hpos := unitCount_pos c.toNat
    have hlt : (encode p).length < (encode p ++ encode (c :: q)).length := by
      rw [List.length_append, encode_cons, List.length_append, length_units]
      omega
    have hsplit : encode p ++ encode (c :: q) = encode (p ++ [c]) ++ encode q := by
      rw [encode_snoc, encode_cons, List.append_assoc]
    have hnext : (encode p).length + unitCount c.toNat = (encode (p ++ [c])).length := by
      rw [encode_snoc, List.length_append, length_units]
    rw [toCodepointsLoop, if_pos hlt]
    simp only [char32At_boundary]
    rw [hsplit, hnext, ih, List.map_cons, List.append_assoc, List.singleton_append]

theorem toCodepoints_eq (icu : Icu) (s : S) :
    toCodepoints icu s = (icu.points s).map Char.toNat := by
  have h := toCodepointsLoop_encode [] (icu.points s) []
  rwa [encode_nil, List.nil_append, List.nil_append, List.length_nil] at h

/-! ## Renaming -/

section Renaming

variable {α β : Type} [DecidableEq α] [DecidableEq β] {f : α → β}

theorem entry_map (hf : Function.Injective f) (s t : List α) (i : ℕ) (row1 row2 row3 : List ℕ)
    (j : ℕ) :
    entry (s.map f) (t.map f) i row1 row2 row3 j = entry s t i row1 row2 row3 j := by
  have hiff : ∀ x y : Option α, x.map f = y.map f ↔ x = y := fun x y =>
    (Option.map_injective hf).eq_iff
  simp only [entry, List.getElem?_map, hiff]

theorem round_map (hf : Function.Injective f) (s t : List α) :
    Distance.round (s.map f) (t.map f) = Distance.round s t := by
  funext rows i
  have hentry : entry (s.map f) (t.map f) i rows.row1 rows.row2 =
      entry s t i rows.row1 rows.row2 := by
    funext row3 j
    exact entry_map hf s t i _ _ row3 j
  simp only [Distance.round, hentry, List.length_map]

theorem rolling_map (hf : Function.Injective f) (s t : List α) :
    rolling (s.map f) (t.map f) = rolling s t := by
  simp only [rolling, round_map hf, List.length_map]

end Renaming

theorem icuDistance_eq_rolling (icu : Icu) (source target : S) :
    icuDistance icu source target = rolling (icu.points source) (icu.points target) := by
  have hinj : Function.Injective Char.toNat := fun a b h => Char.toNat_inj.mp h
  rw [icuDistance, toCodepoints_eq, toCodepoints_eq, rolling_map hinj]

/-! ## ASCII -/

def IsAscii (s : S) : Prop := ∀ c ∈ s, c < 128

theorem toNat_asciiChar {c : C} (hc : c < 128) : (Char.ofNat c.toNat).toNat = c.toNat := by
  have hlt : c.toNat < 128 := hc
  have hvalid : c.toNat.isValidChar := Or.inl (by omega)
  rw [Char.ofNat, dif_pos hvalid]
  rfl

/-- An ASCII character is its own UTF-8. -/
theorem utf8_ascii (s : S) (h : IsAscii s) : utf8 (s.map fun c => Char.ofNat c.toNat) = s := by
  induction s with
  | nil => rfl
  | cons c s ih =>
    obtain ⟨hc, hs⟩ := List.forall_mem_cons.mp h
    have hnat : (Char.ofNat c.toNat).val.toNat = c.toNat := toNat_asciiChar hc
    have hsize : (Char.ofNat c.toNat).utf8Size = 1 := by
      have hle : (Char.ofNat c.toNat).val ≤ 0x7F := by
        rw [UInt32.le_iff_toNat_le, hnat]
        exact Nat.le_of_lt_succ (show c.toNat < 128 from hc)
      rw [Char.utf8Size]
      exact if_pos hle
    have hchar : String.utf8EncodeChar (Char.ofNat c.toNat) = [c] := by
      have hbyte : (Char.ofNat c.toNat).val.toUInt8 = c := by
        rw [← UInt8.toNat_inj, UInt32.toNat_toUInt8, hnat, Nat.mod_eq_of_lt c.toNat_lt]
      rw [String.utf8EncodeChar_eq_singleton hsize, hbyte]
    have htail := ih hs
    unfold utf8 at htail ⊢
    rw [List.map_cons, List.flatMap_cons, hchar, htail, List.singleton_append]

theorem points_ascii (icu : Icu) {s : S} (h : IsAscii s) :
    icu.points s = s.map fun c => Char.ofNat c.toNat := by
  conv_lhs => rw [← utf8_ascii s h]
  exact icu.points_utf8 _

theorem toCodepoints_ascii (icu : Icu) {s : S} (h : IsAscii s) :
    toCodepoints icu s = s.map UInt8.toNat := by
  rw [toCodepoints_eq, points_ascii icu h, List.map_map]
  apply List.map_congr_left
  intro c hc
  exact toNat_asciiChar (h c hc)

/-- **`icu_distance` is the optimal string alignment distance of the code points**, and for
ASCII it is `distance`. -/
theorem icuDistance_isLeast (icu : Icu) (source target : S) :
    IsLeast {c | ∃ A : Alignment Char, A.source = icu.points source ∧
        A.target = icu.points target ∧ A.cost = c}
      (icuDistance icu source target) ∧
    (IsAscii source → IsAscii target →
      icuDistance icu source target = distance source target) := by
  refine ⟨?_, ?_⟩
  · rw [icuDistance_eq_rolling]
    exact rolling_isLeast _ _
  · intro hs ht
    calc icuDistance icu source target
        = rolling (toCodepoints icu source) (toCodepoints icu target) := rfl
      _ = rolling (source.map UInt8.toNat) (target.map UInt8.toNat) := by
        rw [toCodepoints_ascii icu hs, toCodepoints_ascii icu ht]
      _ = distance source target := rolling_map (fun _ _ h => UInt8.toNat_inj.mp h) source target

/-! ## An instance -/

/-- ICU where the only letter with an accent is é. -/
def acuteIcu : Icu where
  points := decodeUtf8
  points_utf8 := decodeUtf8_utf8
  nfd text := text.flatMap fun c => if c = 'é' then ['e', '\u0301'] else [c]
  isNonSpacingMark c := 0x300 ≤ c && c < 0x370

/-- One code point, of two bytes, is substituted. -/
example : icuDistance acuteIcu (utf8 ['é']) (utf8 ['e']) = 1 ∧
    distance (utf8 ['é']) (utf8 ['e']) = 2 := by
  rw [icuDistance_eq_rolling, acuteIcu.points_utf8, acuteIcu.points_utf8]
  decide

/-- In ASCII the bytes are the code points. -/
theorem icuDistance_ascii : icuDistance acuteIcu (W "ca") (W "abc") = 3 := by
  have hascii := (icuDistance_isLeast acuteIcu (W "ca") (W "abc")).2
    (forall_mem_of_all (by decide)) (forall_mem_of_all (by decide))
  rw [hascii]
  decide

end Pensar.Analysis
