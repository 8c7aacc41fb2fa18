import Mathlib.Tactic

/-!
# The first element with the least key

The loop that keeps the best element so far, and replaces it by an element with a smaller
key only, ends with the first of the elements whose key is least (`foldl_keepLess`).
-/

set_option autoImplicit false

namespace Pensar.Computation

section

variable {α β γ : Type} [LinearOrder β] [LinearOrder γ] (key : α → β)

/-- Those in front of `m` have greater keys, those behind it no smaller ones. -/
def IsFirstLeast (l : List α) (m : α) : Prop :=
  ∃ pre post, l = pre ++ m :: post ∧ (∀ x ∈ pre, key m < key x) ∧ ∀ x ∈ post, key m ≤ key x

/-- One round: the best element so far comes with its key. -/
def keepLess (best : α × β) (x : α) : α × β := if key x < best.2 then (x, key x) else best

variable {key} {l : List α} {m : α}

theorem IsFirstLeast.le (h : IsFirstLeast key l m) {x : α} (hx : x ∈ l) : key m ≤ key x := by
  obtain ⟨pre, post, rfl, hpre, hpost⟩ := h
  rcases List.mem_append.mp hx with hx | hx
  · exact (hpre x hx).le
  · rcases List.mem_cons.mp hx with rfl | hx
    · exact le_rfl
    · exact hpost x hx

theorem IsFirstLeast.mem (h : IsFirstLeast key l m) : m ∈ l := by
  obtain ⟨pre, post, rfl, -, -⟩ := h
  exact List.mem_append_right pre List.mem_cons_self

/-- One more element at the end, with a smaller key. -/
theorem IsFirstLeast.snoc_less (h : IsFirstLeast key l m) {x : α} (hx : key x < key m) :
    IsFirstLeast key (l ++ [x]) x := by
  refine ⟨l, [], rfl, ?_, fun y hy => absurd hy List.not_mem_nil⟩
  intro y hy
  exact hx.trans_le (h.le hy)

/-- One more element at the end, with no smaller key. -/
theorem IsFirstLeast.snoc_not_less (h : IsFirstLeast key l m) {x : α} (hx : ¬ key x < key m) :
    IsFirstLeast key (l ++ [x]) m := by
  obtain ⟨pre, post, rfl, hpre, hpost⟩ := h
  refine ⟨pre, post ++ [x], by rw [List.append_assoc, List.cons_append], hpre, ?_⟩
  intro y hy
  rcases List.mem_append.mp hy with hy | hy
  · exact hpost y hy
  · rw [List.mem_singleton.mp hy]
    exact not_lt.mp hx

/-- **The loop.**  `l` has been gone through, `rest` is ahead. -/
theorem foldl_keepLess (h : IsFirstLeast key l m) (rest : List α) :
    ∃ m', rest.foldl (keepLess key) (m, key m) = (m', key m') ∧
      IsFirstLeast key (l ++ rest) m' := by
  induction rest generalizing l m with
  | nil => exact ⟨m, rfl, by rwa [List.append_nil]⟩
  | cons x rest ih =>
    rw [List.foldl_cons, ← List.singleton_append, ← List.append_assoc, keepLess]
    split
    case isTrue hx => exact ih (h.snoc_less hx)
    case isFalse hx => exact ih (h.snoc_not_less hx)

/-- The loop that starts with the first element and goes through all of them. -/
theorem foldl_keepLess_cons (key : α → β) (a : α) (rest : List α) :
    ∃ m, (a :: rest).foldl (keepLess key) (a, key a) = (m, key m) ∧
      IsFirstLeast key (a :: rest) m := by
  have hfirst : IsFirstLeast key [a] a :=
    ⟨[], [], rfl, fun x hx => absurd hx List.not_mem_nil, fun x hx => absurd hx List.not_mem_nil⟩
  rw [List.foldl_cons, keepLess, if_neg (lt_irrefl _)]
  exact foldl_keepLess hfirst rest

/-- Only the order of the keys counts. -/
theorem IsFirstLeast.of_lt_iff {key' : α → γ} (h : IsFirstLeast key l m)
    (hkey : ∀ x ∈ l, ∀ y ∈ l, key x < key y ↔ key' x < key' y) : IsFirstLeast key' l m := by
  have hm := h.mem
  obtain ⟨pre, post, rfl, hpre, hpost⟩ := h
  refine ⟨pre, post, rfl, ?_, ?_⟩
  · intro x hx
    exact (hkey m hm x (List.mem_append_left _ hx)).mp (hpre x hx)
  · intro x hx
    have hxmem := List.mem_append_right pre (List.mem_cons_of_mem m hx)
    exact not_lt.mp (mt (hkey x hxmem m hm).mpr (not_lt.mpr (hpost x hx)))

end

end Pensar.Computation
