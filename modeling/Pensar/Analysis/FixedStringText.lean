import Mathlib.Data.List.TakeWhile
import Pensar.Model.CSComparison

/-!
# What a fixed string stands for

The text of a fixed string is what its array holds in front of the first NUL.  Copying a
string leaves the text up to the first NUL of the string, and `operator==` compares texts.
-/

set_option autoImplicit false

namespace Pensar.Analysis

open Pensar.Model

variable {MIN MAX : ℕ} {cs as : Bool}

theorem upToNul_append_nul (s rest : S) : upToNul (s ++ NULL_CHAR :: rest) = upToNul s := by
  unfold upToNul
  rw [List.takeWhile_append, List.takeWhile_cons_of_neg (by simp), List.append_nil]
  split
  case isTrue hlen => exact ((List.takeWhile_prefix _).eq_of_length hlen).symm
  case isFalse => rfl

/-- The text of an array that starts with a string and a NUL. -/
theorem toString_of_front {v : CS MIN MAX cs as} {s rest : S}
    (h : v.data = s ++ NULL_CHAR :: rest) : v.toString? = some (upToNul s) := by
  have hmem : NULL_CHAR ∈ v.data := by
    rw [h]
    exact List.mem_append_right s List.mem_cons_self
  rw [CS.toString?, if_pos hmem, h]
  exact congrArg some (upToNul_append_nul s rest)

theorem toString_ofS_upToNul (s : S) (h : s.length < MAX) :
    (CS.ofS s h : CS MIN MAX cs as).toString? = some (upToNul s) := by
  obtain ⟨k, hk⟩ : ∃ k, MAX - s.length = k + 1 := ⟨MAX - s.length - 1, by omega⟩
  have hdata : (CS.ofS s h : CS MIN MAX cs as).data
      = s ++ NULL_CHAR :: List.replicate k NULL_CHAR := by
    show s ++ List.replicate (MAX - s.length) NULL_CHAR = _
    rw [hk, List.replicate_succ]
  exact toString_of_front hdata

theorem length_of_mem {v : CS MIN MAX cs as} (h : NULL_CHAR ∈ v.data) :
    ∃ n < MAX, v.length? = some n := by
  refine ⟨(v.data.takeWhile (· != NULL_CHAR)).length, ?_, ?_⟩
  · have hlen := v.size_eq
    have hsplit := congrArg List.length
      (List.takeWhile_append_dropWhile (p := (· != NULL_CHAR)) (l := v.data))
    rw [List.length_append, hlen] at hsplit
    have hdrop : v.data.dropWhile (· != NULL_CHAR) ≠ [] := by
      rw [Ne, List.dropWhile_eq_nil_iff]
      intro hall
      exact absurd (hall NULL_CHAR h) (by simp)
    have hpos := List.length_pos_iff.mpr hdrop
    omega
  · simp [CS.length?, CS.toString?, h]

theorem length_lt {v : CS MIN MAX cs as} {n : ℕ} (h : v.length? = some n) : n < MAX := by
  have hmem : NULL_CHAR ∈ v.data := by
    by_contra hnot
    rw [CS.length?, CS.toString?, if_neg hnot] at h
    cases h
  obtain ⟨k, hk, hlen⟩ := length_of_mem hmem
  rw [h] at hlen
  rwa [Option.some.inj hlen]

/-- The text ends at a NUL. -/
theorem getElem?_length {v : CS MIN MAX cs as} {n : ℕ} (h : v.length? = some n) :
    v.data[n]? = some NULL_CHAR := by
  obtain ⟨s, hs, rfl⟩ := Option.map_eq_some_iff.mp h
  unfold CS.toString? at hs
  split at hs
  case isTrue hmem =>
    cases hs
    have hsplit := List.takeWhile_append_dropWhile (p := (· != NULL_CHAR)) (l := v.data)
    have hne : v.data.dropWhile (· != NULL_CHAR) ≠ [] := by
      rw [Ne, List.dropWhile_eq_nil_iff]
      intro hall
      exact absurd (hall NULL_CHAR hmem) (by simp)
    have hhead := List.head_dropWhile_not (· != NULL_CHAR) hne
    have hnull : (v.data.dropWhile (· != NULL_CHAR)).head hne = NULL_CHAR := by simpa using hhead
    have hget : (v.data.takeWhile (· != NULL_CHAR) ++ v.data.dropWhile (· != NULL_CHAR))[
        (v.data.takeWhile (· != NULL_CHAR)).length]? = some NULL_CHAR := by
      rw [List.getElem?_append_right (Nat.le_refl _), Nat.sub_self, ← List.head?_eq_getElem?,
        List.head?_eq_some_head hne, hnull]
    rwa [hsplit] at hget
  case isFalse => cases hs

/-- The text of an array that starts with a string: the string only if there is a NUL in it or
right behind it. -/
theorem toString_append_iff {v : CS MIN MAX cs as} {s rest : S} (h : v.data = s ++ rest) :
    v.toString? = some (upToNul s) ↔ NULL_CHAR ∈ s ∨ rest.head? = some NULL_CHAR := by
  constructor
  · intro htext
    by_cases hs : NULL_CHAR ∈ s
    case pos => exact Or.inl hs
    case neg =>
      rw [upToNul_eq_self hs] at htext
      have hlength : v.length? = some s.length := by rw [CS.length?, htext, Option.map_some]
      have hnull := getElem?_length hlength
      rw [h, List.getElem?_append_right (Nat.le_refl _), Nat.sub_self,
        ← List.head?_eq_getElem?] at hnull
      exact Or.inr hnull
  · rintro (hs | hrest)
    · obtain ⟨l, r, rfl⟩ := List.append_of_mem hs
      rw [List.append_assoc, List.cons_append] at h
      rw [toString_of_front h, upToNul_append_nul]
    · obtain ⟨rest', rfl⟩ : ∃ rest', rest = NULL_CHAR :: rest' :=
        ⟨rest.tail, (List.cons_head?_tail hrest).symm⟩
      exact toString_of_front h

theorem toString_eq_some {v : CS MIN MAX cs as} {s : S} (h : v.toString? = some s) :
    v.data.take s.length = s ∧ NULL_CHAR ∉ s := by
  unfold CS.toString? at h
  split at h
  case isTrue =>
    cases h
    exact ⟨(List.prefix_iff_eq_take.mp (List.takeWhile_prefix _)).symm,
      nul_not_mem_upToNul v.data⟩
  case isFalse => cases h

/-- `operator==` compares the strings character by character. -/
theorem eq_of_toString (nfdBase : C → C) {v w : CS MIN MAX cs as} {s t : S}
    (hv : v.toString? = some s) (hw : w.toString? = some t) :
    v.eq? nfdBase w = some (s.length = t.length && (s.zip t).all fun (c, c2) =>
      equal nfdBase c c2 cs as) := by
  simp only [CS.eq?, CS.length?, hv, hw, Option.map_some]
  split
  · next hlen =>
    have hzip : (v.data.zip w.data).take s.length = s.zip t := by
      rw [List.zip, List.take_zipWith, (toString_eq_some hv).1, hlen, (toString_eq_some hw).1]
    rw [hzip]
    simp [hlen]
  · next hlen => simp [hlen]

end Pensar.Analysis
