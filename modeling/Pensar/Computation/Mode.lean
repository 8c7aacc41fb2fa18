import Mathlib.Tactic

/-!
# The mode of a list

`IsLeastMode xs m`: of the elements that occur most often in `xs`, `m` is the least.  The order
of `xs` does not matter (`IsLeastMode.of_perm`).

In a sorted list equal elements are next to each other, so one pass that counts how often the
last element has occurred finds the mode.  `Scanned` is what such a pass knows: the elements
other than the last one have all been counted, and the candidate is the best of them.
-/

set_option autoImplicit false

namespace Pensar.Computation

variable {α : Type} [LinearOrder α]

/-- `m` occurs most often, and is the least element to occur as often. -/
structure IsLeastMode (xs : List α) (m : α) : Prop where
  mem : m ∈ xs
  most : ∀ x ∈ xs, xs.count x ≤ xs.count m
  least : ∀ x ∈ xs, xs.count x = xs.count m → m ≤ x

theorem IsLeastMode.of_perm {xs ys : List α} {m : α} (h : IsLeastMode xs m) (hperm : xs.Perm ys) :
    IsLeastMode ys m where
  mem := hperm.mem_iff.mp h.mem
  most x hx := by
    rw [← hperm.count_eq, ← hperm.count_eq]
    exact h.most x (hperm.mem_iff.mpr hx)
  least x hx hcount := by
    rw [← hperm.count_eq, ← hperm.count_eq] at hcount
    exact h.least x (hperm.mem_iff.mpr hx) hcount

/-- A pass over the sorted list `seen`: `last` is its last element and has occurred `count`
times, `mode` is the candidate, which has occurred at least `maxCount` times. -/
structure Scanned (seen : List α) (last mode : α) (count maxCount : ℕ) : Prop where
  le_last : ∀ x ∈ seen, x ≤ last
  last_mem : last ∈ seen
  count_eq : seen.count last = count
  mode_mem : mode ∈ seen
  le_mode : maxCount ≤ seen.count mode
  others : ∀ x ∈ seen, x ≠ last →
    seen.count x ≤ maxCount ∧ (seen.count x = maxCount → mode ≤ x)

variable {seen : List α} {last mode x : α} {count maxCount : ℕ}

theorem scanned_singleton (x : α) : Scanned [x] x x 1 1 where
  le_last _ hy := (List.mem_singleton.mp hy).le
  last_mem := List.mem_singleton_self x
  count_eq := List.count_singleton_self
  mode_mem := List.mem_singleton_self x
  le_mode := List.count_singleton_self.ge
  others _ hy hne := absurd (List.mem_singleton.mp hy) hne

theorem count_snoc (seen : List α) (x y : α) :
    (seen ++ [x]).count y = seen.count y + if x = y then 1 else 0 := by
  rw [List.count_append, List.count_singleton]
  simp only [beq_iff_eq]

/-- The last element once more. -/
theorem Scanned.same (h : Scanned seen last mode count maxCount) :
    Scanned (seen ++ [last]) last mode (count + 1) maxCount where
  le_last y hy := by
    rcases List.mem_append.mp hy with hy | hy
    · exact h.le_last y hy
    · exact (List.mem_singleton.mp hy).le
  last_mem := List.mem_append_left _ h.last_mem
  count_eq := by rw [count_snoc, if_pos rfl, h.count_eq]
  mode_mem := List.mem_append_left _ h.mode_mem
  le_mode := by
    rw [count_snoc]
    exact h.le_mode.trans (Nat.le_add_right _ _)
  others y hy hne := by
    rw [count_snoc, if_neg hne.symm, Nat.add_zero]
    rcases List.mem_append.mp hy with hy | hy
    · exact h.others y hy hne
    · exact absurd (List.mem_singleton.mp hy) hne

/-- A greater element: the one that was the last takes part in the competition. -/
theorem Scanned.other (h : Scanned seen last mode count maxCount) (hx : last < x) {mode' : α}
    {maxCount' : ℕ}
    (hbest : count > maxCount ∧ mode' = last ∧ maxCount' = count ∨
      ¬ count > maxCount ∧ mode' = mode ∧ maxCount' = maxCount) :
    Scanned (seen ++ [x]) x mode' 1 maxCount' := by
  have hnew : x ∉ seen := fun hmem => absurd (h.le_last x hmem) (not_le.mpr hx)
  have hold : ∀ y ∈ seen, (seen ++ [x]).count y = seen.count y := by
    intro y hy
    rw [count_snoc, if_neg (fun (heq : x = y) => hnew (heq ▸ hy)), Nat.add_zero]
  refine ⟨?_, List.mem_append_right _ (List.mem_singleton_self x), ?_, ?_, ?_, ?_⟩
  · intro y hy
    rcases List.mem_append.mp hy with hy | hy
    · exact (h.le_last y hy).trans hx.le
    · exact (List.mem_singleton.mp hy).le
  · rw [count_snoc, if_pos rfl, List.count_eq_zero.mpr hnew]
  · rcases hbest with ⟨-, rfl, -⟩ | ⟨-, rfl, -⟩
    · exact List.mem_append_left _ h.last_mem
    · exact List.mem_append_left _ h.mode_mem
  · rcases hbest with ⟨-, rfl, rfl⟩ | ⟨-, rfl, rfl⟩
    · rw [hold _ h.last_mem, h.count_eq]
    · rw [hold _ h.mode_mem]
      exact h.le_mode
  · intro y hy hne
    have hy : y ∈ seen := (List.mem_append.mp hy).resolve_right
      fun hmem => hne (List.mem_singleton.mp hmem)
    rw [hold y hy]
    by_cases hlast : y = last
    · subst hlast
      rw [h.count_eq]
      rcases hbest with ⟨-, rfl, rfl⟩ | ⟨hmore, rfl, rfl⟩
      · exact ⟨Nat.le_refl _, fun _ => le_rfl⟩
      · exact ⟨Nat.not_lt.mp hmore, fun _ => h.le_last _ h.mode_mem⟩
    · obtain ⟨hle, htie⟩ := h.others y hy hlast
      rcases hbest with ⟨hmore, rfl, rfl⟩ | ⟨-, rfl, rfl⟩
      · exact ⟨by omega, fun heq => by omega⟩
      · exact ⟨hle, htie⟩

/-- The end of the pass, where the last element has won. -/
theorem Scanned.last_isLeastMode (h : Scanned seen last mode count maxCount)
    (hmore : count > maxCount) : IsLeastMode seen last where
  mem := h.last_mem
  most y hy := by
    by_cases hlast : y = last
    · rw [hlast]
    · rw [h.count_eq]
      exact (h.others y hy hlast).1.trans hmore.le
  least y hy hcount := by
    by_cases hlast : y = last
    · exact hlast.ge
    · have hle := (h.others y hy hlast).1
      rw [hcount, h.count_eq] at hle
      omega

/-- The end of the pass, where it has not. -/
theorem Scanned.mode_isLeastMode (h : Scanned seen last mode count maxCount)
    (hmore : ¬ count > maxCount) : IsLeastMode seen mode := by
  have hall : ∀ y ∈ seen, seen.count y ≤ maxCount := by
    intro y hy
    by_cases hlast : y = last
    · rw [hlast, h.count_eq]
      exact Nat.not_lt.mp hmore
    · exact (h.others y hy hlast).1
  have hmode : seen.count mode = maxCount := Nat.le_antisymm (hall mode h.mode_mem) h.le_mode
  refine ⟨h.mode_mem, ?_, ?_⟩
  · intro y hy
    rw [hmode]
    exact hall y hy
  · intro y hy hcount
    by_cases hlast : y = last
    · rw [hlast]
      exact h.le_last mode h.mode_mem
    · exact (h.others y hy hlast).2 (hcount.trans hmode)

end Pensar.Computation
