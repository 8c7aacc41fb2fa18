import Pensar.Analysis.DistanceRows

/-!
# The metric laws of `distance`

The table is filled row by row over the first string, so the two arguments are not treated
alike; the least cost that the table arrives at treats them alike.

Main result: `distance_metric`.
-/

set_option autoImplicit false

namespace Pensar.Analysis

open Pensar.Computation
open Pensar.Computation.Alignment
open Pensar.Model
open Pensar.Model.Distance

section Rolling

variable {α : Type} [DecidableEq α] (s t : List α)

theorem rolling_comm : rolling s t = rolling t s := by
  have h := rolling_isLeast s t
  rw [costs_comm] at h
  exact h.unique (rolling_isLeast t s)

theorem rolling_eq_zero_iff : rolling s t = 0 ↔ s = t := least_eq_zero_iff (rolling_isLeast s t)

theorem length_sub_le_rolling : |(s.length : ℤ) - t.length| ≤ rolling s t :=
  length_sub_le_least (rolling_isLeast s t)

theorem rolling_le_max_length : rolling s t ≤ max s.length t.length :=
  least_le_max_length (rolling_isLeast s t)

end Rolling

/-- **Metric laws**: the distance is symmetric, it is 0 for equal strings only, and it lies
between the difference of the lengths and the larger of them. -/
theorem distance_metric (s t : S) :
    distance s t = distance t s ∧
    (distance s t = 0 ↔ s = t) ∧
    |(s.length : ℤ) - t.length| ≤ distance s t ∧
    distance s t ≤ max s.length t.length :=
  ⟨rolling_comm s t, rolling_eq_zero_iff s t, length_sub_le_rolling s t,
    rolling_le_max_length s t⟩

end Pensar.Analysis
