import Pensar.Computation.FirstLeast
import Pensar.Computation.Search
import Pensar.Model.NearestString
import Pensar.Analysis.DistanceMetric

/-!
# The nearest string

Distances are kept as `int`.  None exceeds the longer of the two lengths, so for strings
below 2^31 characters they are compared as they are (`toInt_distance`).

Main results: `nearest_firstLeast` and `minDistanceOut_not_nearest`.
-/

set_option autoImplicit false

namespace Pensar.Analysis

open Pensar.Computation
open Pensar.Model

theorem toInt_distance {s t : S} (hs : s.length < 2 ^ 31) (ht : t.length < 2 ^ 31) :
    toInt (distance t s) = distance t s := by
  have hle := rolling_le_max_length t s
  have hlt : distance t s < 2 ^ 31 := hle.trans_lt (max_lt ht hs)
  unfold toInt
  apply Int.bmod_eq_of_le <;> omega

/-- Comparing the `int`s is comparing the distances. -/
theorem firstLeast_of_toInt {α : Type} {key : α → S} {s : S} (hs : s.length < 2 ^ 31)
    {c : List α} (hc : ∀ t ∈ c, (key t).length < 2 ^ 31) {m : α}
    (h : IsFirstLeast (fun t => toInt (distance (key t) s)) c m) :
    IsFirstLeast (fun t => distance (key t) s) c m := by
  apply h.of_lt_iff
  intro x hx y hy
  simp only [toInt_distance hs (hc x hx), toInt_distance hs (hc y hy), Nat.cast_lt]

theorem minDistance_firstLeast {s : S} (hs : s.length < 2 ^ 31) {c : List S} (hne : c ≠ [])
    (hc : ∀ t ∈ c, t.length < 2 ^ 31) :
    ∃ m, minDistance s c = .ok m ∧ IsFirstLeast (fun t => distance t s) c m := by
  cases c with
  | nil => exact absurd rfl hne
  | cons first rest =>
    obtain ⟨m, hfold, hleast⟩ :=
      foldl_keepLess_cons (fun t => toInt (distance t s)) first rest
    refine ⟨m, ?_, firstLeast_of_toInt hs hc hleast⟩
    have hbody : minDistance s (first :: rest) =
        .ok ((first :: rest).foldl (keepLess fun t => toInt (distance t s))
          (first, toInt (distance first s))).1 := rfl
    rw [hbody, hfold]

theorem minDistanceMapKey_firstLeast {V : Type} [Inhabited V] {s : S} (hs : s.length < 2 ^ 31)
    {c : List (S × V)} (hne : c ≠ []) (hc : ∀ e ∈ c, e.1.length < 2 ^ 31) (maxDistance : ℤ) :
    ∃ m, IsFirstLeast (fun e => distance e.1 s) c m ∧
      minDistanceMapKey s c maxDistance =
        .ok (if (distance m.1 s : ℤ) ≤ maxDistance then m else ([], default)) := by
  cases c with
  | nil => exact absurd rfl hne
  | cons first rest =>
    obtain ⟨m, hfold, hleast⟩ :=
      foldl_keepLess_cons (fun e : S × V => toInt (distance e.1 s)) first rest
    have hm := hleast.mem
    refine ⟨m, firstLeast_of_toInt hs hc hleast, ?_⟩
    have hbody : minDistanceMapKey s (first :: rest) maxDistance =
        let best := (first :: rest).foldl
          (keepLess fun e : S × V => toInt (distance e.1 s)) (first, toInt (distance first.1 s))
        .ok (if best.2 ≤ maxDistance then best.1 else ([], default)) := rfl
    rw [hbody, hfold, ← toInt_distance hs (hc m hm)]

/-- **The nearest string**: both searches find the first element, or entry, at the least
distance, and the search in a map gives it only when that distance is small enough. -/
theorem nearest_firstLeast {V : Type} [Inhabited V] (s : S) (hs : s.length < 2 ^ 31) :
    (∀ c : List S, c ≠ [] → (∀ t ∈ c, t.length < 2 ^ 31) →
      ∃ m, minDistance s c = .ok m ∧ IsFirstLeast (fun t => distance t s) c m) ∧
    (∀ (c : List (S × V)) (maxDistance : ℤ), c ≠ [] → (∀ e ∈ c, e.1.length < 2 ^ 31) →
      ∃ m, IsFirstLeast (fun e => distance e.1 s) c m ∧
        minDistanceMapKey s c maxDistance =
          .ok (if (distance m.1 s : ℤ) ≤ maxDistance then m else ([], default))) :=
  ⟨fun _ hne hc => minDistance_firstLeast hs hne hc,
    fun _ maxDistance hne hc => minDistanceMapKey_firstLeast hs hne hc maxDistance⟩

/-- Two of the strings are at distance 1, and so is one of the keys. -/
theorem nearest_of_three :
    IsFirstLeast (fun t => distance t (W "cat")) [W "dog", W "cut", W "car"] (W "cut") ∧
      IsFirstLeast (fun e => distance e.1 (W "cat")) [(W "cow", 1), (W "cut", 2)]
        (W "cut", 2) := by
  have hnearest := nearest_firstLeast (V := ℕ) (W "cat") (by decide)
  constructor
  · obtain ⟨m, hm, hleast⟩ := hnearest.1 [W "dog", W "cut", W "car"] (List.cons_ne_nil _ _)
      (forall_mem_of_all (by decide))
    have hcut : minDistance (W "cat") [W "dog", W "cut", W "car"] = .ok (W "cut") := by decide
    obtain rfl : W "cut" = m := Except.ok.inj (hcut.symm.trans hm)
    exact hleast
  · obtain ⟨m, hleast, hm⟩ := hnearest.2 [(W "cow", 1), (W "cut", 2)] 1 (List.cons_ne_nil _ _)
      (forall_mem_of_all (by decide))
    have hcut : minDistanceMapKey (W "cat") [(W "cow", 1), (W "cut", 2)] 1 =
        .ok (W "cut", 2) := by decide
    have hfound := Except.ok.inj (hcut.symm.trans hm)
    split at hfound
    case isTrue => rwa [← hfound] at hleast
    case isFalse => exact absurd hfound (by decide)

/-! ## The k nearest -/

/-- What the search for the `k` nearest is to leave in `out`: behind what was there, as many
elements as were asked for, by their distance, and none of those left out is closer. -/
def KNearest (s : S) (c out : List S) (maxElements : ℕ) (result : List S) : Prop :=
  ∃ appended left, result = out ++ appended ∧ (appended ++ left).Perm c ∧
    appended.length = min (if maxElements = 0 then c.length else maxElements) c.length ∧
    appended.Pairwise (fun a b => distance a s ≤ distance b s) ∧
    ∀ a ∈ appended, ∀ b ∈ left, distance a s ≤ distance b s

theorem minDistanceOut_eq (s : S) {c : List S} (hne : c ≠ []) (out : List S) (maxElements : ℕ) :
    minDistanceOut s c out maxElements =
      if maxElements = 0 then .value (.ok out) else .undefined := by
  have hlen : c.length ≠ 0 := fun h => hne (List.length_eq_zero_iff.mp h)
  unfold minDistanceOut
  rw [if_neg hlen]
  cases maxElements with
  | zero => simp
  | succ n => simp [advance]

/-- At least one element is to be appended. -/
theorem not_kNearest_self (s : S) {c : List S} (hne : c ≠ []) (out : List S) (maxElements : ℕ) :
    ¬ KNearest s c out maxElements out := by
  rintro ⟨appended, left, hout, -, hlen, -, -⟩
  have hnil : appended = [] := List.self_eq_append_right.mp hout
  have hpos : 0 < c.length := List.length_pos_of_ne_nil hne
  rw [hnil, List.length_nil] at hlen
  split at hlen <;> omega

/-- **The k nearest are never appended**: `out` stays as it is, or the end of the empty
multiset is incremented. -/
theorem minDistanceOut_not_nearest (s first : S) (rest out : List S) (maxElements : ℕ) :
    ¬ ∃ result, minDistanceOut s (first :: rest) out maxElements = .value (.ok result) ∧
      KNearest s (first :: rest) out maxElements result := by
  have hne : first :: rest ≠ [] := List.cons_ne_nil first rest
  rintro ⟨result, heq, hnearest⟩
  rw [minDistanceOut_eq s hne] at heq
  split at heq
  case isTrue =>
    injection heq with heq
    obtain rfl : out = result := Except.ok.inj heq
    exact not_kNearest_self s hne out maxElements hnearest
  case isFalse => cases heq

/-- The one string of the container is not appended. -/
theorem minDistanceOut_of_one : ¬ ∃ result,
    minDistanceOut (W "cat") [W "cat"] [] = .value (.ok result) ∧
      KNearest (W "cat") [W "cat"] [] 0 result := by
  rintro ⟨result, heq, hnearest⟩
  have hout : minDistanceOut (W "cat") [W "cat"] [] = .value (.ok []) := rfl
  rw [hout] at heq
  injection heq with heq
  obtain rfl : [] = result := Except.ok.inj heq
  exact not_kNearest_self (W "cat") (List.cons_ne_nil _ _) [] 0 hnearest

end Pensar.Analysis
