import Mathlib.Tactic

/-!
# Groups counted from the right

`grouped n sep` puts `sep` wherever a positive multiple of `n` elements is still to come.  Without
the separators the list is as it was (`filter_grouped`), it neither starts nor ends with one, and
every group but the first has `n` elements (`splitOn_grouped`).
-/

set_option autoImplicit false

namespace Pensar.Computation

variable {α : Type} (n : ℕ) (sep : α)

/-- The list with `sep` at every place that is a positive multiple of `n` from its end, but not
at its start. -/
def grouped : List α → List α
  | [] => []
  | c :: rest =>
    if rest ≠ [] ∧ n ∣ rest.length then c :: sep :: grouped rest else c :: grouped rest

variable {n sep}

theorem grouped_cons_of_dvd {c : α} {rest : List α} (hne : rest ≠ []) (hdvd : n ∣ rest.length) :
    grouped n sep (c :: rest) = c :: sep :: grouped n sep rest := by
  rw [grouped, if_pos ⟨hne, hdvd⟩]

theorem grouped_cons_of_not {c : α} {rest : List α} (h : ¬ (rest ≠ [] ∧ n ∣ rest.length)) :
    grouped n sep (c :: rest) = c :: grouped n sep rest := by
  rw [grouped, if_neg h]

theorem head?_grouped (s : List α) : (grouped n sep s).head? = s.head? := by
  cases s with
  | nil => rfl
  | cons c rest =>
    rw [grouped]
    split <;> rfl

theorem getLast?_grouped (s : List α) : (grouped n sep s).getLast? = s.getLast? := by
  induction s with
  | nil => rfl
  | cons c rest ih =>
    cases rest with
    | nil => simp [grouped]
    | cons d rest =>
      have hsome : ∃ x, (grouped n sep (d :: rest)).getLast? = some x := by
        rw [ih]
        exact ⟨_, List.getLast?_eq_getLast_of_ne_nil (List.cons_ne_nil d rest)⟩
      obtain ⟨x, hx⟩ := hsome
      have hcons : ∀ y, (y :: grouped n sep (d :: rest)).getLast? =
          (grouped n sep (d :: rest)).getLast? := by
        intro y
        rw [List.getLast?_cons, hx]
        rfl
      rw [List.getLast?_cons_cons, ← ih, grouped]
      split
      · rw [List.getLast?_cons_cons, hcons]
      · rw [hcons]

variable [DecidableEq α]

/-- **Removing the separators.** -/
theorem filter_grouped {s : List α} (hsep : sep ∉ s) :
    (grouped n sep s).filter (fun c => decide (c ≠ sep)) = s := by
  induction s with
  | nil => rfl
  | cons c rest ih =>
    obtain ⟨hc, hrest⟩ := not_or.mp (fun h => hsep (List.mem_cons.mpr h))
    have hkeep (l : List α) : (c :: l).filter (fun c => decide (c ≠ sep)) =
        c :: l.filter (fun c => decide (c ≠ sep)) :=
      List.filter_cons_of_pos (decide_eq_true (Ne.symm hc))
    have hdrop (l : List α) : (sep :: l).filter (fun c => decide (c ≠ sep)) =
        l.filter (fun c => decide (c ≠ sep)) :=
      List.filter_cons_of_neg (by simp)
    rw [grouped]
    split
    · rw [hkeep, hdrop, ih hrest]
    · rw [hkeep, ih hrest]

theorem splitOn_cons_of_ne {c : α} {s first : List α} {others : List (List α)} (hc : c ≠ sep)
    (hs : s.splitOn sep = first :: others) : (c :: s).splitOn sep = (c :: first) :: others := by
  rw [List.splitOn] at hs
  rw [List.splitOn, List.splitOnP_cons_eq_if_modifyHead, if_neg (by simpa using hc), hs]
  rfl

theorem splitOn_cons_self (s : List α) : (sep :: s).splitOn sep = [] :: s.splitOn sep := by
  rw [List.splitOn, List.splitOnP_cons_eq_if_modifyHead, if_pos (by simp)]
  rfl

theorem succ_mod (hn : 0 < n) (m : ℕ) :
    (n ∣ m + 1 ∧ m % n + 1 = n) ∨ (¬ n ∣ m + 1 ∧ (m + 1) % n = m % n + 1) := by
  have hlt := Nat.mod_lt m hn
  have hsum : (m + 1) % n = (m % n + 1) % n := by rw [Nat.mod_add_mod]
  by_cases heq : m % n + 1 = n
  · left
    refine ⟨Nat.dvd_of_mod_eq_zero ?_, heq⟩
    rw [hsum, heq, Nat.mod_self]
  · right
    have hmod : (m + 1) % n = m % n + 1 := by rw [hsum, Nat.mod_eq_of_lt (by omega)]
    refine ⟨fun hdvd => ?_, hmod⟩
    rw [Nat.mod_eq_zero_of_dvd hdvd] at hmod
    cases hmod

/-- **The groups**: the first has between one and `n` elements, every other one `n`. -/
theorem splitOn_grouped (hn : 0 < n) {s : List α} (hs : s ≠ []) (hsep : sep ∉ s) :
    ∃ first others, (grouped n sep s).splitOn sep = first :: others ∧
      first.length = (s.length - 1) % n + 1 ∧ ∀ group ∈ others, group.length = n := by
  induction s with
  | nil => exact absurd rfl hs
  | cons c rest ih =>
    obtain ⟨hc, hrest⟩ := not_or.mp (fun h => hsep (List.mem_cons.mpr h))
    have hne : c ≠ sep := Ne.symm hc
    by_cases hnil : rest = []
    · subst hnil
      refine ⟨[c], [], ?_, by simp, by simp⟩
      rw [grouped_cons_of_not (fun h => h.1 rfl)]
      exact splitOn_cons_of_ne hne (List.splitOnP_nil)
    · obtain ⟨first, others, hsplit, hfirst, hothers⟩ := ih hnil hrest
      obtain ⟨m, hm⟩ : ∃ m, rest.length = m + 1 :=
        ⟨rest.length - 1, by have := List.length_pos_iff.mpr hnil; omega⟩
      rw [hm, Nat.add_sub_cancel] at hfirst
      rw [List.length_cons, Nat.add_sub_cancel, hm]
      rcases succ_mod hn m with ⟨hdvd, hwhole⟩ | ⟨hdvd, hmod⟩
      · refine ⟨[c], first :: others, ?_, ?_, ?_⟩
        · rw [grouped_cons_of_dvd hnil (hm ▸ hdvd), ← hsplit]
          exact splitOn_cons_of_ne hne (splitOn_cons_self _)
        · rw [Nat.mod_eq_zero_of_dvd hdvd]
          rfl
        · -- the first group of the rest is complete
          rintro group hmem
          rcases List.mem_cons.mp hmem with rfl | hmem
          · rw [hfirst, hwhole]
          · exact hothers group hmem
      · refine ⟨c :: first, others, ?_, ?_, hothers⟩
        · rw [grouped_cons_of_not (fun h => hdvd (hm ▸ h.2))]
          exact splitOn_cons_of_ne hne hsplit
        · rw [List.length_cons, hfirst, hmod]

end Pensar.Computation
