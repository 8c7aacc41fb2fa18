import Mathlib.Data.List.Nodup
import Mathlib.Logic.Function.Iterate

/-!
# Recursive queries

`WITH RECURSIVE … UNION ALL …` is evaluated with a working table: the rows of the first part to
begin with, and then again and again the rows that the second part makes of the working table,
until there are none.  The result is all of them, in order of the rounds.

`recursiveUnion` counts down the rounds it may still take, and has no result when they are used
up.  If some round finds no rows, the result does not depend on the number
(`recursiveUnion_eq`).
-/

set_option autoImplicit false

namespace Pensar.Computation

variable {ρ : Type}

/-- The result from a working table on, within so many rounds. -/
def recursiveUnion (step : List ρ → List ρ) : ℕ → List ρ → Option (List ρ)
  | 0, _ => none
  | _ + 1, [] => some []
  | rounds + 1, row :: rows =>
    (recursiveUnion step rounds (step (row :: rows))).map ((row :: rows) ++ ·)

/-- The rows of the first `n` rounds. -/
def rounds (step : List ρ → List ρ) (n : ℕ) (working : List ρ) : List ρ :=
  (List.range n).flatMap fun k => step^[k] working

theorem rounds_succ (step : List ρ → List ρ) (n : ℕ) (working : List ρ) :
    rounds step (n + 1) working = working ++ rounds step n (step working) := by
  simp [rounds, List.range_succ_eq_map, List.flatMap_map]

theorem mem_rounds {step : List ρ → List ρ} {n : ℕ} {working : List ρ} {row : ρ} :
    row ∈ rounds step n working ↔ ∃ k < n, row ∈ step^[k] working := by
  simp [rounds]

theorem iterate_nil {step : List ρ → List ρ} (hnil : step [] = []) (n : ℕ) :
    step^[n] [] = [] := by
  induction n with
  | zero => rfl
  | succ n ih => rw [Function.iterate_succ_apply, hnil, ih]

theorem rounds_nil {step : List ρ → List ρ} (hnil : step [] = []) (n : ℕ) :
    rounds step n [] = [] := by
  simp [rounds, iterate_nil hnil]

/-- **The result of a query whose round `n` finds no rows.** -/
theorem recursiveUnion_eq {step : List ρ → List ρ} (hnil : step [] = []) {n : ℕ}
    {working : List ρ} (hend : step^[n] working = []) {fuel : ℕ} (hfuel : n < fuel) :
    recursiveUnion step fuel working = some (rounds step n working) := by
  induction n generalizing working fuel with
  | zero =>
    obtain ⟨fuel, rfl⟩ := Nat.exists_eq_succ_of_ne_zero (Nat.ne_of_gt hfuel)
    obtain rfl : working = [] := hend
    rw [recursiveUnion, rounds_nil hnil]
  | succ n ih =>
    obtain ⟨fuel, rfl⟩ := Nat.exists_eq_succ_of_ne_zero (Nat.ne_of_gt (Nat.zero_lt_of_lt hfuel))
    cases working with
    | nil => rw [recursiveUnion, rounds_nil hnil]
    | cons row rows =>
      have hstep : step^[n] (step (row :: rows)) = [] := hend
      have hrest := ih hstep (Nat.lt_of_succ_lt_succ hfuel)
      rw [recursiveUnion, hrest, rounds_succ]
      rfl

end Pensar.Computation
