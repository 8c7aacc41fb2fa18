import Pensar.Computation.Mode
import Pensar.Model.Sysinfo

/-!
# The most common estimate

`cpu_threads` sorts the estimates and goes through them once.  Before the round `i` it has
scanned the first `i` of them (`modeRound_scanned`); the last run of equal estimates is dealt
with behind the loop.

Main result: `cpuThreads_isLeastMode`.
-/

set_option autoImplicit false

namespace Pensar.Analysis

open Pensar.Computation
open Pensar.Model

variable {results : List ℕ}

/-- The state before the round `i`. -/
def StateScanned (results : List ℕ) (i : ℕ) (s : ModeState) : Prop :=
  Scanned (results.take i) (results.getD (i - 1) 0) s.mode s.count s.maxCount

theorem getD_eq_getElem {i : ℕ} (hi : i < results.length) : results.getD i 0 = results[i] := by
  rw [List.getD_eq_getElem?_getD, List.getElem?_eq_getElem hi, Option.getD_some]

theorem take_succ_getD {i : ℕ} (hi : i < results.length) :
    results.take (i + 1) = results.take i ++ [results.getD i 0] := by
  rw [List.take_succ_eq_append_getElem hi, getD_eq_getElem hi]

/-- One round. -/
theorem modeRound_scanned (hsorted : results.Pairwise (· ≤ ·)) {i : ℕ} (hpos : 0 < i)
    (hi : i < results.length) {s : ModeState} (hs : StateScanned results i s) :
    StateScanned results (i + 1) (modeRound results s i) := by
  rw [StateScanned, take_succ_getD hi, Nat.add_sub_cancel, modeRound]
  by_cases hsame : results.getD i 0 = results.getD (i - 1) 0
  · rw [if_pos hsame, hsame]
    exact hs.same
  · have hle : results.getD (i - 1) 0 ≤ results.getD i 0 := by
      rw [getD_eq_getElem hi, getD_eq_getElem (by omega)]
      exact List.pairwise_iff_getElem.mp hsorted (i - 1) i (by omega) hi (by omega)
    have hlt := lt_of_le_of_ne hle (Ne.symm hsame)
    rw [if_neg hsame]
    by_cases hmore : s.count > s.maxCount
    · rw [if_pos hmore]
      exact hs.other hlt (Or.inl ⟨hmore, rfl, rfl⟩)
    · rw [if_neg hmore]
      exact hs.other hlt (Or.inr ⟨hmore, rfl, rfl⟩)

/-- All rounds. -/
theorem modeRounds_scanned (hsorted : results.Pairwise (· ≤ ·)) {first : ℕ}
    (hfirst : results.head? = some first) {m : ℕ} (hm : m < results.length) :
    StateScanned results (m + 1)
      ((List.range' 1 m).foldl (modeRound results) ⟨first, 1, 1⟩) := by
  induction m with
  | zero =>
    obtain ⟨rest, rfl⟩ := List.head?_eq_some_iff.mp hfirst
    exact scanned_singleton first
  | succ m ih =>
    rw [List.range'_1_concat, List.foldl_append, List.foldl_cons, List.foldl_nil,
      Nat.add_comm 1 m]
    exact modeRound_scanned hsorted (Nat.succ_pos m) hm (ih (by omega))

/-- **The mode**: the least of the estimates that occur most often. -/
theorem cpuThreads_isLeastMode (estimateCpuThreads : ℕ → ℕ) (n : ℕ) (hn : 1 ≤ n) :
    ∃ mode, cpuThreads 0 estimateCpuThreads n = .value mode ∧
      IsLeastMode ((List.range n).map estimateCpuThreads) mode := by
  obtain ⟨results, hresults⟩ : ∃ results : List ℕ,
      results = ((List.range n).map estimateCpuThreads).mergeSort := ⟨_, rfl⟩
  have hperm : results.Perm ((List.range n).map estimateCpuThreads) :=
    hresults ▸ List.mergeSort_perm _ _
  have hsorted : results.Pairwise (· ≤ ·) := by
    have hpairwise := @List.pairwise_mergeSort ℕ (fun a b => decide (a ≤ b))
      (by simpa using fun a b c => Nat.le_trans) (by simpa using Nat.le_total)
      ((List.range n).map estimateCpuThreads)
    rw [hresults]
    simpa using hpairwise
  have hlen : results.length = n := by
    rw [hperm.length_eq, List.length_map, List.length_range]
  obtain ⟨first, hfirst⟩ : ∃ first, results.head? = some first := by
    cases results with
    | nil =>
      rw [List.length_nil] at hlen
      omega
    | cons first rest => exact ⟨first, rfl⟩
  have hscanned := modeRounds_scanned hsorted hfirst (m := n - 1) (by omega)
  rw [StateScanned, Nat.sub_add_cancel hn, List.take_of_length_le hlen.le] at hscanned
  rw [cpuThreads, if_neg (Nat.lt_irrefl 0)]
  simp only [← hresults, hfirst]
  split
  case isTrue hmore => exact ⟨_, rfl, (hscanned.last_isLeastMode hmore).of_perm hperm⟩
  case isFalse hmore => exact ⟨_, rfl, (hscanned.mode_isLeastMode hmore).of_perm hperm⟩

/-- Two estimates that occur twice, the greater one first. -/
theorem cpuThreads_isLeastMode_five :
    ∃ mode, cpuThreads 0 (fun i => [8, 4, 8, 16, 4].getD i 0) 5 = .value mode ∧
      IsLeastMode [8, 4, 8, 16, 4] mode :=
  cpuThreads_isLeastMode _ 5 (by decide)

end Pensar.Analysis
