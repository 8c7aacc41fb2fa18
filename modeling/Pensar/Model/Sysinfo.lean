import Pensar.Computation.Machine

/-!
# `cpu_threads` (`cpp/src/sysinfo.hpp`)

The processor is a parameter: how many threads it reports, and the estimates that
`estimate_cpu_threads` comes to in call after call.  An `unsigned int` is a natural number: the
estimates are compared only, and the counters do not exceed `n`.
-/

set_option autoImplicit false

namespace Pensar.Model

open Pensar.Computation

structure ModeState where
  mode : ℕ
  count : ℕ
  maxCount : ℕ

/-- A round of the loop over the sorted results. -/
def modeRound (results : List ℕ) (s : ModeState) (i : ℕ) : ModeState :=
  if results.getD i 0 = results.getD (i - 1) 0 then
    { s with count := s.count + 1 }
  else
    let s :=
      if s.count > s.maxCount then
        { s with maxCount := s.count, mode := results.getD (i - 1) 0 }
      else
        s
    { s with count := 1 }

/-- The `i`-th call of `estimate_cpu_threads` gives `estimateCpuThreads i`.
SOURCE: cpp/src/sysinfo.hpp:94-137 -/
def cpuThreads (hardwareConcurrency : ℕ) (estimateCpuThreads : ℕ → ℕ) (n : ℕ) : Outcome ℕ :=
  let result := hardwareConcurrency
  if result > 0 then
    .value result
  else
    let results := (List.range n).map estimateCpuThreads
    let results := results.mergeSort
    match results.head? with
    | none => .undefined
    | some first =>
      let s := (List.range' 1 (n - 1)).foldl (modeRound results) ⟨first, 1, 1⟩
      if s.count > s.maxCount then .value (results.getD (n - 1) 0) else .value s.mode

end Pensar.Model
