import Mathlib.Data.List.SplitBy
import Mathlib.Tactic

/-!
# Runs of an element

`squeeze a` puts a single `a` in the place of every run of two or more (`runs` are the maximal
ones).  It does not see whether there is one `a` or two at a place (`squeeze_double`), and leaves
a list alone in which there are never two in a row (`squeeze_eq_self`).
-/

set_option autoImplicit false

namespace Pensar.Computation

variable {α : Type} [DecidableEq α] (a : α)

/-- The maximal runs of `a`, and every other element by itself. -/
def runs (xs : List α) : List (List α) := xs.splitBy fun x y => decide (x = a) && decide (y = a)

/-- A single `a` in the place of every run of two or more. -/
def squeeze (xs : List α) : List α :=
  (runs a xs).flatMap fun run => if 2 ≤ run.length then [a] else run

variable {a}

/-- An element that does not belong to the run behind it. -/
theorem runs_cons_of_not {x : α} {xs : List α} (h : ¬ (x = a ∧ xs.head? = some a)) :
    runs a (x :: xs) = [x] :: runs a xs := by
  cases xs with
  | nil => rfl
  | cons y xs =>
    apply List.splitBy_append_cons (l := [x])
    intro z hz
    obtain rfl : x = z := Option.some.inj hz
    rw [List.head?_cons, Option.some.injEq] at h
    rw [← Bool.decide_and, decide_eq_false_iff_not]
    exact h

/-- One more `a` in front of a run. -/
theorem runs_cons_run (xs : List α) :
    ∃ run rest, runs a (a :: xs) = (a :: run) :: rest ∧
      runs a (a :: a :: xs) = (a :: a :: run) :: rest := by
  cases h : runs a (a :: xs) with
  | nil => exact absurd (List.splitBy_eq_nil.mp h) (List.cons_ne_nil a xs)
  | cons first rest =>
    obtain ⟨hflat, hne, hchain, hcut⟩ := List.splitBy_eq_iff.mp h
    cases first with
    | nil => exact absurd List.mem_cons_self hne
    | cons x run =>
      rw [List.flatten_cons, List.cons_append] at hflat
      obtain ⟨rfl, hxs⟩ := List.cons.inj hflat
      refine ⟨run, rest, rfl, ?_⟩
      apply List.splitBy_eq_iff.mpr
      refine ⟨?_, ?_, ?_, ?_⟩
      · rw [List.flatten_cons, List.cons_append, List.cons_append, ← hxs]
      · intro hmem
        rcases List.mem_cons.mp hmem with h' | h'
        · cases h'
        · exact hne (List.mem_cons_of_mem _ h')
      · intro run' hmem
        rcases List.mem_cons.mp hmem with rfl | h'
        · rw [List.isChain_cons_cons]
          exact ⟨by simp, hchain _ List.mem_cons_self⟩
        · exact hchain run' (List.mem_cons_of_mem _ h')
      · cases rest with
        | nil => exact List.IsChain.singleton _
        | cons second rest =>
          rw [List.isChain_cons_cons] at hcut ⊢
          refine ⟨?_, hcut.2⟩
          obtain ⟨_, hb, hlast⟩ := hcut.1
          exact ⟨List.cons_ne_nil _ _, hb, by simpa using hlast⟩

theorem squeeze_cons_of_not {x : α} {xs : List α} (h : ¬ (x = a ∧ xs.head? = some a)) :
    squeeze a (x :: xs) = x :: squeeze a xs := by
  rw [squeeze, runs_cons_of_not h, List.flatMap_cons]
  rfl

/-- Two in a row are as one. -/
theorem squeeze_cons_run (xs : List α) : squeeze a (a :: a :: xs) = squeeze a (a :: xs) := by
  obtain ⟨run, rest, hone, htwo⟩ := runs_cons_run (a := a) xs
  have hlen : 2 ≤ (a :: a :: run).length := by simp
  rw [squeeze, squeeze, hone, htwo, List.flatMap_cons, List.flatMap_cons, if_pos hlen]
  cases run with
  | nil => rfl
  | cons y run => rw [if_pos (by simp)]

/-- **One `a` or two at a place.** -/
theorem squeeze_double (l r : List α) :
    squeeze a (l ++ [a] ++ r) = squeeze a (l ++ [a, a] ++ r) := by
  induction l with
  | nil => exact (squeeze_cons_run r).symm
  | cons x l ih =>
    have hhead : (l ++ [a] ++ r).head? = (l ++ [a, a] ++ r).head? := by cases l <;> rfl
    rw [List.cons_append, List.cons_append, List.cons_append, List.cons_append]
    by_cases h : x = a ∧ (l ++ [a] ++ r).head? = some a
    · obtain ⟨rfl, hrun⟩ := h
      obtain ⟨u, hu⟩ := List.head?_eq_some_iff.mp hrun
      obtain ⟨v, hv⟩ := List.head?_eq_some_iff.mp (hhead ▸ hrun)
      rw [hu] at ih
      rw [hv] at ih
      rw [hu, hv, squeeze_cons_run, squeeze_cons_run, ih]
    · rw [squeeze_cons_of_not h, squeeze_cons_of_not (hhead ▸ h), ih]

theorem squeeze_eq_self {xs : List α} (h : ¬ [a, a] <:+: xs) : squeeze a xs = xs := by
  induction xs with
  | nil => rfl
  | cons x xs ih =>
    have hrest : ¬ [a, a] <:+: xs := fun hoccurs => h (List.infix_cons hoccurs)
    rw [squeeze_cons_of_not, ih hrest]
    rintro ⟨rfl, hrun⟩
    obtain ⟨u, rfl⟩ := List.head?_eq_some_iff.mp hrun
    exact h ⟨[], u, rfl⟩

end Pensar.Computation
