import Pensar.Computation.Rewriting
import Pensar.Model.SubstringEditing

/-!
# Removing a substring

Deleting an occurrence can leave another one across the place where it was, which the next
search finds.  What goes in the end are blocks of as many characters as the pattern has, for
what lies between the parts of an occurrence has gone before (`DeletesBlocks.cut`).

Main result: `remove_substr_removes`.
-/

set_option autoImplicit false

namespace Pensar.Analysis

open Pensar.Computation
open Pensar.Computation.Loop
open Pensar.Computation.Rewriting
open Pensar.Model

theorem removeSubstrNext_eq (p : S) : removeSubstrNext p = replaceFirst p [] := by
  funext s
  simp only [removeSubstrNext, replaceFirst, erase, List.append_nil]

/-- The two loops: the one carries along the position that the other searches for. -/
theorem remove_eq_removeSubstr (p t : S) (fuel : ℕ) : remove p t fuel = removeSubstr t p fuel := by
  have hnext : ∀ u : S, removeNext p (u, findSub u p) =
      (removeSubstrNext p u).map fun u => (u, findSub u p) := by
    intro u
    unfold removeSubstrNext
    cases h : findSub u p with
    | none => rfl
    | some i => rfl
  have hrun := run_map (fun u : S => (u, findSub u p)) hnext fuel t
  rw [remove, hrun, Option.map_map, removeSubstr]
  exact Option.map_id'

/-- **Removal**: both functions return, with the same string; `p` does not occur in it, it is
`t` without some blocks of the length of `p`, and it is `t` if `p` does not occur in `t`. -/
theorem remove_substr_removes (p t : S) (hp : p ≠ []) :
    ∃ u, Returns (remove p t) u ∧ Returns (removeSubstr t p) u ∧ ¬ p <:+: u ∧
      DeletesBlocks p.length t u ∧ (¬ p <:+: t → u = t) := by
  have hshorter : ([] : S).length < p.length := List.length_pos_of_ne_nil hp
  obtain ⟨u, hends⟩ := exists_ends_of_shorter hshorter t
  have hreturns : Returns (removeSubstr t p) u := by
    unfold removeSubstr
    rw [removeSubstrNext_eq]
    exact returns_run_iff.mpr hends
  refine ⟨u, ?_, hreturns, not_infix_of_ends hends, deletesBlocks_of_ends hends, ?_⟩
  · rwa [funext (remove_eq_removeSubstr p t)]
  · exact fun hnot => (ends_of_not_occurs hnot).mp hends

/-- Two nested occurrences. -/
theorem remove_substr_removes_nested :
    ∃ u, Returns (remove (W "ab") (W "caabbd")) u ∧ Returns (removeSubstr (W "caabbd") (W "ab")) u ∧
      ¬ W "ab" <:+: u ∧ DeletesBlocks 2 (W "caabbd") u ∧
      (¬ W "ab" <:+: W "caabbd" → u = W "caabbd") :=
  remove_substr_removes (W "ab") (W "caabbd") (by decide)

end Pensar.Analysis
