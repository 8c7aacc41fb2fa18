import Pensar.Computation.Rewriting
import Pensar.Model.SubstringEditing

/-!
# Replacing a substring

`replace_substr` searches from the start of the string again after every replacement, so it
also replaces what the replacement has brought about.  With `o` in `r` it never ends; and where
`o` arises from a part of a replacement and what is next to it, it does not give what one pass
from left to right does.

Main result: `replaceSubstr_keepsPace`.
-/

set_option autoImplicit false

namespace Pensar.Analysis

open Pensar.Computation
open Pensar.Computation.Loop
open Pensar.Computation.Rewriting
open Pensar.Model

variable {o r s : S}

/-- The loop without the flag. -/
theorem replaceSubstrNext_fst (o r : S) (x : S × Bool) :
    (replaceSubstrNext o r x).map Prod.fst = replaceFirst o r x.1 := by
  rw [replaceSubstrNext, replaceFirst, Option.map_map]
  rfl

/-- The flag is set by the first round. -/
theorem replaced_of_ends {x y : S × Bool} (h : Ends (replaceSubstrNext o r) x y) :
    y.2 = (x.2 || decide (o <:+: x.1)) := by
  cases hnext : replaceSubstrNext o r x with
  | none =>
    have hnot : ¬ o <:+: x.1 := by
      rw [← replaceFirst_eq_none_iff (r := r), ← replaceSubstrNext_fst, hnext, Option.map_none]
    rw [(ends_of_none hnext).mp h, decide_eq_false hnot, Bool.or_false]
  | some z =>
    have hoccurs : o <:+: x.1 := by
      by_contra hnot
      rw [← replaceFirst_eq_none_iff (r := r), ← replaceSubstrNext_fst, hnext] at hnot
      cases hnot
    obtain ⟨i, -, hz⟩ := Option.map_eq_some_iff.mp hnext
    have hset : z.2 = true := by rw [← hz]
    have hkept : y.2 = true := by
      apply ((ends_of_some hnext).mp h).invariant (fun u => u.2 = true) hset
      intro u v _ huv
      obtain ⟨j, -, hv⟩ := Option.map_eq_some_iff.mp huv
      rw [← hv]
    rw [hkept, decide_eq_true hoccurs, Bool.or_true]

/-- The loop with the flag ends where the one without it does. -/
theorem ends_replaceSubstrNext_iff {replaced : Bool} {t : S} :
    Ends (replaceSubstrNext o r) (s, false) (t, replaced) ↔
      Ends (replaceFirst o r) s t ∧ replaced = decide (o <:+: s) := by
  have hfst : ∀ fuel, run (replaceFirst o r) fuel s =
      (run (replaceSubstrNext o r) fuel (s, false)).map Prod.fst :=
    fun fuel => run_map Prod.fst (fun x => (replaceSubstrNext_fst o r x).symm) fuel (s, false)
  constructor
  · intro h
    have hflag := replaced_of_ends h
    rw [Bool.false_or] at hflag
    obtain ⟨fuel, hfuel⟩ := h
    exact ⟨⟨fuel, by rw [hfst, hfuel, Option.map_some]⟩, hflag⟩
  · rintro ⟨⟨fuel, hfuel⟩, rfl⟩
    rw [hfst] at hfuel
    obtain ⟨⟨t', replaced⟩, hrun, rfl⟩ := Option.map_eq_some_iff.mp hfuel
    have hflag := replaced_of_ends ⟨fuel, hrun⟩
    rw [Bool.false_or] at hflag
    exact ⟨fuel, by rw [hrun, ← hflag]⟩

/-- **What `replace_substr` returns**: what the loop of replacements ends in, and whether there
was anything to replace. -/
theorem replaceSubstr_returns_iff (ho : o ≠ []) {replaced : Bool} {t : S} :
    Returns (replaceSubstr s o r) (replaced, t) ↔
      Ends (replaceFirst o r) s t ∧ replaced = decide (o <:+: s) := by
  by_cases hs : s = []
  · subst hs
    have hnot : ¬ o <:+: [] := fun h => ho (List.infix_nil.mp h)
    rw [ends_of_not_occurs hnot, decide_eq_false hnot]
    constructor
    · rintro ⟨bound, hbound⟩
      have hfirst := hbound bound le_rfl
      cases hfirst
      exact ⟨rfl, rfl⟩
    · rintro ⟨rfl, rfl⟩
      exact ⟨0, fun _ _ => rfl⟩
  · have hlen : s.length ≠ 0 := fun h => hs (List.length_eq_zero_iff.mp h)
    have hrun : ∀ fuel, replaceSubstr s o r fuel = some (replaced, t) ↔
        run (replaceSubstrNext o r) fuel (s, false) = some (t, replaced) := by
      intro fuel
      rw [replaceSubstr, if_neg hlen, Option.map_eq_some_iff]
      constructor
      · rintro ⟨_, hx, ⟨⟩⟩
        exact hx
      · exact fun h => ⟨_, h, rfl⟩
    rw [← ends_replaceSubstrNext_iff, ← returns_run_iff]
    simp only [Returns, hrun]

/-! ## The pass from left to right -/

/-- `replace_substr` returns whether `o` occurs in `s`, and leaves `s` with the occurrences
that one pass from left to right finds replaced. -/
def ReplacesAll (s o r : S) : Prop :=
  Returns (replaceSubstr s o r) (decide (o <:+: s), replaceAll o r s)

theorem replacesAll_iff (ho : o ≠ []) :
    ReplacesAll s o r ↔ Ends (replaceFirst o r) s (replaceAll o r s) := by
  rw [ReplacesAll, replaceSubstr_returns_iff ho]
  exact and_iff_left rfl

/-- **When `replace_substr` replaces as one pass does**: as long as it keeps pace with it; and
not otherwise, unless `r` is a beginning of `o` that is shorter than what `o` can overlap of
itself. -/
theorem replaceSubstr_keepsPace (s o r : S) (ho : o ≠ []) :
    (KeepsPace o r [] s → ReplacesAll s o r) ∧
      (TellsApart o r → ReplacesAll s o r → KeepsPace o r [] s) := by
  constructor
  · intro h
    exact (replacesAll_iff ho).mpr (ends_of_keepsPace ho h)
  · intro htells h
    exact keepsPace_of_ends ho htells ((replacesAll_iff ho).mp h)

/-- Two blanks by one, twice. -/
theorem replaceSubstr_keepsPace_blanks : ReplacesAll (W "a  b  c") (W "  ") (W " ") := by
  have hpace : KeepsPace (W "  ") (W " ") []
      (W "a" ++ W "  " ++ (W "b" ++ W "  " ++ W "c")) := by
    apply KeepsPace.next (by decide) (by decide)
    apply KeepsPace.next (by decide) (by decide)
    exact KeepsPace.stop (by decide)
  exact (replaceSubstr_keepsPace _ _ _ (by decide)).1 hpace

/-- A pattern in its own replacement. -/
theorem replaceSubstr_never_returns :
    ¬ ∃ result, Returns (replaceSubstr (W "a") (W "a") (W "aa")) result := by
  rintro ⟨⟨replaced, t⟩, h⟩
  have hends := ((replaceSubstr_returns_iff (by decide)).mp h).1
  exact not_ends_of_occurs (by decide) (by decide) hends

end Pensar.Analysis
