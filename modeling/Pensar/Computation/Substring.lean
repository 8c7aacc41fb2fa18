import Mathlib.Tactic

/-!
# Searching a list for another one, and replacing it

`findSub` is the first position at which a pattern occurs.  It is described by the cut that it
makes (`findSub_cases`): the pattern is not part of the list, or no other occurrence starts in
front of the one that is found.

`replaceFirst` replaces the first occurrence, `replaceAll` all of them that a pass from left to
right finds one behind the other; `DeletesBlocks` says that a list arose from another one by
deleting blocks of one length.
-/

set_option autoImplicit false

namespace Pensar.Computation

section Search

variable {α : Type} [DecidableEq α]

/-- The first position of the pattern. -/
def findSub (xs p : List α) : Option ℕ :=
  if p <+: xs then some 0
  else
    match xs with
    | [] => none
    | _ :: xs => (findSub xs p).map (· + 1)

/-- What a search says about the list. -/
theorem findSub_cases (xs p : List α) :
    (findSub xs p = none ∧ ¬ p <:+: xs) ∨
      ∃ l r, findSub xs p = some l.length ∧ xs = l ++ p ++ r ∧
        ∀ l' r', xs = l' ++ p ++ r' → l.length ≤ l'.length := by
  induction xs with
  | nil =>
    unfold findSub
    by_cases hp : p <+: []
    · rw [if_pos hp]
      obtain rfl := List.prefix_nil.mp hp
      exact Or.inr ⟨[], [], rfl, rfl, fun _ _ _ => Nat.zero_le _⟩
    · rw [if_neg hp]
      refine Or.inl ⟨rfl, fun hoccurs => hp ?_⟩
      rw [List.infix_nil.mp hoccurs]
  | cons x xs ih =>
    unfold findSub
    by_cases hp : p <+: x :: xs
    · rw [if_pos hp]
      obtain ⟨r, hr⟩ := hp
      exact Or.inr ⟨[], r, rfl, hr.symm, fun _ _ _ => Nat.zero_le _⟩
    · rw [if_neg hp]
      rcases ih with ⟨hnone, hnot⟩ | ⟨l, r, hsome, rfl, hfirst⟩
      · refine Or.inl ⟨by simp only [hnone, Option.map_none], fun hoccurs => ?_⟩
        rcases List.infix_cons_iff.mp hoccurs with h | h
        · exact hp h
        · exact hnot h
      · refine Or.inr ⟨x :: l, r, by simp only [hsome, Option.map_some, List.length_cons], rfl, ?_⟩
        intro l' r' hcut
        cases l' with
        | nil => exact absurd ⟨r', hcut.symm⟩ hp
        | cons y l' =>
          have htail := (List.cons.inj hcut).2
          exact Nat.succ_le_succ (hfirst l' r' htail)

theorem findSub_eq_none_iff {xs p : List α} : findSub xs p = none ↔ ¬ p <:+: xs := by
  rcases findSub_cases xs p with ⟨hnone, hnot⟩ | ⟨l, r, hsome, rfl, -⟩
  · exact iff_of_true hnone hnot
  · rw [hsome]
    exact iff_of_false nofun fun hnot => hnot (List.infix_append l p r)

/-- The cut that a search makes. -/
theorem cut_of_findSub {xs p : List α} {i : ℕ} (h : findSub xs p = some i) :
    ∃ l r, xs = l ++ p ++ r ∧ l.length = i ∧
      ∀ l' r', xs = l' ++ p ++ r' → l.length ≤ l'.length := by
  rcases findSub_cases xs p with ⟨hnone, -⟩ | ⟨l, r, hsome, hcut, hfirst⟩
  · rw [hnone] at h
    cases h
  · rw [hsome] at h
    exact ⟨l, r, hcut, Option.some.inj h, hfirst⟩

omit [DecidableEq α] in
/-- What is left of a list without a part of it. -/
theorem take_drop_of_cut (l p r : List α) :
    (l ++ p ++ r).take l.length = l ∧ (l ++ p ++ r).drop (l.length + p.length) = r := by
  constructor
  · rw [List.append_assoc, List.take_left']
    rfl
  · rw [← List.length_append, List.drop_left']
    rfl

/-! ## Replacing -/

/-- The list with the first occurrence of `o` replaced by `r`, none if there is none. -/
def replaceFirst (o r xs : List α) : Option (List α) :=
  (findSub xs o).map fun i => xs.take i ++ r ++ xs.drop (i + o.length)

theorem replaceFirst_eq_none_iff {o r xs : List α} : replaceFirst o r xs = none ↔ ¬ o <:+: xs := by
  rw [replaceFirst, Option.map_eq_none_iff, findSub_eq_none_iff]

theorem cut_of_replaceFirst {o r xs ys : List α} (h : replaceFirst o r xs = some ys) :
    ∃ l rest, xs = l ++ o ++ rest ∧ ys = l ++ r ++ rest ∧
      ∀ l' rest', xs = l' ++ o ++ rest' → l.length ≤ l'.length := by
  obtain ⟨i, hi, hys⟩ := Option.map_eq_some_iff.mp h
  obtain ⟨l, rest, rfl, rfl, hfirst⟩ := cut_of_findSub hi
  obtain ⟨htake, hdrop⟩ := take_drop_of_cut l o rest
  exact ⟨l, rest, rfl, by rw [← hys, htake, hdrop], hfirst⟩

theorem length_drop_lt_of_findSub {xs p : List α} {i : ℕ} (hp : p ≠ [])
    (h : findSub xs p = some i) : (xs.drop (i + p.length)).length < xs.length := by
  obtain ⟨l, r, rfl, rfl, -⟩ := cut_of_findSub h
  have hpos := List.length_pos_of_ne_nil hp
  simp only [List.length_drop, List.length_append]
  omega

/-- **One pass from left to right**: every occurrence of `o` that starts behind the last one is
replaced.  The empty pattern is left alone. -/
def replaceAll (o r xs : List α) : List α :=
  if ho : o = [] then xs
  else
    match h : findSub xs o with
    | none => xs
    | some i => xs.take i ++ r ++ replaceAll o r (xs.drop (i + o.length))
termination_by xs.length
decreasing_by exact length_drop_lt_of_findSub ho h

theorem replaceAll_of_not_occurs {o xs : List α} (r : List α) (h : ¬ o <:+: xs) :
    replaceAll o r xs = xs := by
  rw [replaceAll]
  split
  case isTrue => rfl
  case isFalse =>
    have hnone := findSub_eq_none_iff.mpr h
    split
    case h_1 => rfl
    case h_2 i hi =>
      rw [hnone] at hi
      cases hi

theorem replaceAll_of_findSub {o l rest : List α} (r : List α) (ho : o ≠ [])
    (h : findSub (l ++ o ++ rest) o = some l.length) :
    replaceAll o r (l ++ o ++ rest) = l ++ r ++ replaceAll o r rest := by
  rw [replaceAll, dif_neg ho]
  split
  case h_1 hnone =>
    rw [h] at hnone
    cases hnone
  case h_2 i hi =>
    obtain rfl : l.length = i := Option.some.inj (h.symm.trans hi)
    obtain ⟨htake, hdrop⟩ := take_drop_of_cut l o rest
    rw [htake, hdrop]

end Search

/-! ## Deleting blocks -/

variable {α : Type}

/-- The second list is the first one without some blocks of `n` elements each. -/
inductive DeletesBlocks (n : ℕ) : List α → List α → Prop where
  | nil : DeletesBlocks n [] []
  | keep (x : α) {xs ys : List α} (h : DeletesBlocks n xs ys) : DeletesBlocks n (x :: xs) (x :: ys)
  | delete (block : List α) {xs ys : List α} (hblock : block.length = n)
    (h : DeletesBlocks n xs ys) : DeletesBlocks n (block ++ xs) ys

namespace DeletesBlocks

variable {n : ℕ}

theorem refl (xs : List α) : DeletesBlocks n xs xs := by
  induction xs with
  | nil => exact nil
  | cons x xs ih => exact keep x ih

theorem append {xs ys xs' ys' : List α} (h : DeletesBlocks n xs ys)
    (h' : DeletesBlocks n xs' ys') : DeletesBlocks n (xs ++ xs') (ys ++ ys') := by
  induction h with
  | nil => exact h'
  | keep x _ ih => exact keep x ih
  | delete block hblock _ ih =>
    rw [List.append_assoc]
    exact delete block hblock ih

/-- What is left of a list is left of its parts. -/
theorem exists_append {xs l r : List α} (h : DeletesBlocks n xs (l ++ r)) :
    ∃ xl xr, xs = xl ++ xr ∧ DeletesBlocks n xl l ∧ DeletesBlocks n xr r := by
  generalize hys : l ++ r = ys at h
  induction h generalizing l with
  | nil =>
    obtain ⟨rfl, rfl⟩ := List.append_eq_nil_iff.mp hys
    exact ⟨[], [], rfl, nil, nil⟩
  | @keep x xs ys h ih =>
    cases l with
    | nil =>
      obtain rfl : r = x :: ys := hys
      exact ⟨[], x :: xs, rfl, nil, keep x h⟩
    | cons y l =>
      obtain ⟨rfl, htail⟩ := List.cons.inj hys
      obtain ⟨xl, xr, rfl, hl, hr⟩ := ih htail
      exact ⟨y :: xl, xr, rfl, keep y hl, hr⟩
  | delete block hblock _ ih =>
    obtain ⟨xl, xr, rfl, hl, hr⟩ := ih hys
    exact ⟨block ++ xl, xr, (List.append_assoc block xl xr).symm, delete block hblock hl, hr⟩

theorem dvd_length_sub {xs ys : List α} (h : DeletesBlocks n xs ys) :
    ∃ k, xs.length = ys.length + k * n := by
  induction h with
  | nil => exact ⟨0, by simp⟩
  | keep x _ ih =>
    obtain ⟨k, hk⟩ := ih
    exact ⟨k, by simp only [List.length_cons, hk]; omega⟩
  | delete block hblock _ ih =>
    obtain ⟨k, hk⟩ := ih
    refine ⟨k + 1, ?_⟩
    rw [List.length_append, hblock, hk, Nat.succ_mul]
    omega

/-- A list of some blocks. -/
theorem of_length {k : ℕ} {xs : List α} (h : xs.length = k * n) : DeletesBlocks n xs [] := by
  induction k generalizing xs with
  | zero =>
    obtain rfl : xs = [] := List.length_eq_zero_iff.mp (by simpa using h)
    exact nil
  | succ k ih =>
    rw [← List.take_append_drop n xs]
    apply delete
    · rw [List.length_take, h, Nat.succ_mul]
      omega
    · apply ih
      rw [List.length_drop, h, Nat.succ_mul]
      omega

/-- **One more block**, which need not have been one of the list that it all started from. -/
theorem cut {xs l p r : List α} (h : DeletesBlocks p.length xs (l ++ p ++ r)) :
    DeletesBlocks p.length xs (l ++ r) := by
  obtain ⟨xlp, xr, rfl, hlp, hr⟩ := h.exists_append
  obtain ⟨xl, xp, rfl, hl, hp⟩ := hlp.exists_append
  obtain ⟨k, hk⟩ := hp.dvd_length_sub
  have hdeleted : DeletesBlocks p.length xp [] := by
    apply of_length (k := k + 1)
    rw [hk, Nat.succ_mul]
    omega
  have hall := (hl.append hdeleted).append hr
  rwa [List.append_nil] at hall

end DeletesBlocks

end Pensar.Computation
