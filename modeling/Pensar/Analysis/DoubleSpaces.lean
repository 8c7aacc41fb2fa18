import Pensar.Computation.Runs
import Pensar.Analysis.SubstringReplacement

/-!
# Double spaces

`replace_substr` already goes on until there is no double space, so the loop around it calls it
a second time only to be told that there was nothing to do.  No replacement of two spaces by one
changes the string in which every run of spaces is a single one, so that is what is left.

Main result: `removeDoubleSpaces_collapses`.
-/

set_option autoImplicit false

namespace Pensar.Analysis

open Pensar.Computation
open Pensar.Computation.Loop
open Pensar.Computation.Rewriting
open Pensar.Model

/-- The string with every run of two or more spaces replaced by a single space. -/
def collapsed (s : S) : S := squeeze (Wc ' ') s

theorem ends_collapsed (s : S) : Ends (replaceFirst (W "  ") (W " ")) s (collapsed s) := by
  obtain ⟨t, hends⟩ := exists_ends_of_shorter (o := W "  ") (r := W " ") (by decide) s
  have hsame : collapsed t = collapsed s :=
    eq_of_ends collapsed (fun l rest => squeeze_double l rest) hends
  have hself : collapsed t = t := squeeze_eq_self (not_infix_of_ends hends)
  rwa [← hsame, hself]

theorem removeDoubleSpacesLoop_succ (fuel : ℕ) (s : S) :
    removeDoubleSpacesLoop (fuel + 1) s =
      match replaceSubstr s (W "  ") (W " ") fuel with
      | none => none
      | some (true, s) => removeDoubleSpacesLoop fuel s
      | some (false, s) => some s := rfl

/-- A second call of `replace_substr` finds nothing. -/
theorem removeDoubleSpacesLoop_returns (s : S) :
    Returns (fun fuel => removeDoubleSpacesLoop fuel s) (collapsed s) := by
  have hends := ends_collapsed s
  have hfree := not_infix_of_ends hends
  have hagain : Ends (replaceFirst (W "  ") (W " ")) (collapsed s) (collapsed s) :=
    (ends_of_not_occurs hfree).mpr rfl
  obtain ⟨first, hfirst⟩ := (replaceSubstr_returns_iff (by decide)).mpr ⟨hends, rfl⟩
  obtain ⟨second, hsecond⟩ := (replaceSubstr_returns_iff (by decide)).mpr ⟨hagain, rfl⟩
  rw [decide_eq_false hfree] at hsecond
  refine ⟨first + second + 2, fun fuel hfuel => ?_⟩
  obtain ⟨k, rfl⟩ : ∃ k, fuel = k + 1 + 1 := ⟨fuel - 2, by omega⟩
  show removeDoubleSpacesLoop (k + 1 + 1) s = _
  rw [removeDoubleSpacesLoop_succ, hfirst (k + 1) (by omega)]
  cases decide (W "  " <:+: s) with
  | false => rfl
  | true =>
    show removeDoubleSpacesLoop (k + 1) (collapsed s) = _
    rw [removeDoubleSpacesLoop_succ, hsecond k (by omega)]

theorem removeDoubleSpaces_returns (s : S) : Returns (removeDoubleSpaces s) (collapsed s) := by
  by_cases hs : s = []
  · subst hs
    exact ⟨0, fun _ _ => rfl⟩
  · obtain ⟨bound, hbound⟩ := removeDoubleSpacesLoop_returns s
    have hlen : s.length ≠ 0 := fun h => hs (List.length_eq_zero_iff.mp h)
    refine ⟨bound, fun fuel hfuel => ?_⟩
    rw [removeDoubleSpaces, if_neg hlen]
    exact hbound fuel hfuel

/-- **Collapsing**: the function returns, every run of spaces is then a single one and
everything else as it was, and a second time changes nothing. -/
theorem removeDoubleSpaces_collapses (s : S) :
    Returns (removeDoubleSpaces s) (collapsed s) ∧
      Returns (removeDoubleSpaces (collapsed s)) (collapsed s) := by
  refine ⟨removeDoubleSpaces_returns s, ?_⟩
  have hself : collapsed (collapsed s) = collapsed s :=
    squeeze_eq_self (not_infix_of_ends (ends_collapsed s))
  have hagain := removeDoubleSpaces_returns (collapsed s)
  rwa [hself] at hagain

example : collapsed (W " a   b c  ") = W " a b c " := by decide

end Pensar.Analysis
