import Mathlib.Tactic

/-!
# Searching a list for an element, and splitting it there

`findFrom` is the first position of an element at or after a given one, `rfind` its last
position.  Each is described by the cut it makes.
* `findFrom_cases`: the element does not occur from there on, or it ends the piece in front
  of the position found.
* `rfind_cases`: the same from the other end.
* `splitOn_of_cut` and `getLast_splitOn`: the pieces between the occurrences, by the first
  cut and by the last.
-/

set_option autoImplicit false

namespace Pensar.Computation

/-- A test run over a list, read as the statement about its elements. -/
theorem forall_mem_of_all {α : Type} {p : α → Prop} [DecidablePred p] {l : List α}
    (h : l.all (fun a => decide (p a)) = true) : ∀ a ∈ l, p a :=
  fun a ha => of_decide_eq_true (List.all_eq_true.mp h a ha)

section Search

variable {α : Type} [DecidableEq α]

/-- The first position of `a` at or after `pos`. -/
def findFrom (xs : List α) (a : α) (pos : ℕ) : Option ℕ :=
  ((xs.drop pos).idxOf? a).map (pos + ·)

/-- The last position of `a`. -/
def rfind (xs : List α) (a : α) : Option ℕ :=
  (xs.reverse.idxOf? a).map (xs.length - 1 - ·)

/-- The first occurrence of an element cuts the list in two. -/
theorem idxOf?_cut {xs : List α} {a : α} {i : ℕ} (h : xs.idxOf? a = some i) :
    ∃ l r, xs = l ++ a :: r ∧ a ∉ l ∧ l.length = i := by
  induction xs generalizing i with
  | nil => simp at h
  | cons x xs ih =>
    rw [List.idxOf?_cons] at h
    by_cases hx : x = a
    · subst hx
      refine ⟨[], xs, rfl, by simp, ?_⟩
      simpa using h
    · obtain ⟨j, hj, rfl⟩ : ∃ j, xs.idxOf? a = some j ∧ j + 1 = i := by simpa [hx] using h
      obtain ⟨l, r, rfl, hl, rfl⟩ := ih hj
      refine ⟨x :: l, r, rfl, ?_, rfl⟩
      simp [hl, Ne.symm hx]

theorem findFrom_zero_of_cut {l : List α} {a : α} (r : List α) (hl : a ∉ l) :
    findFrom (l ++ a :: r) a 0 = some l.length := by
  have hidx : (l ++ a :: r).idxOf? a = some l.length := by
    induction l with
    | nil => simp [List.idxOf?_cons]
    | cons x l ih =>
      obtain ⟨hx, hl⟩ : ¬ a = x ∧ a ∉ l := by simpa using hl
      rw [List.cons_append, List.idxOf?_cons, ih hl]
      simp [Ne.symm hx]
  simp [findFrom, hidx]

/-- The cut at the first occurrence is the only one with nothing of it in front. -/
theorem cut_unique {l r l' r' : List α} {a : α} (hl : a ∉ l) (hl' : a ∉ l')
    (h : l ++ a :: r = l' ++ a :: r') : l = l' ∧ r = r' := by
  have hlen : l.length = l'.length := by
    have hfind := findFrom_zero_of_cut r hl
    rw [h, findFrom_zero_of_cut r' hl'] at hfind
    exact (Option.some.inj hfind).symm
  obtain ⟨rfl, htail⟩ := List.append_inj h hlen
  exact ⟨rfl, (List.cons.inj htail).2⟩

theorem findFrom_eq_none_iff {xs : List α} {a : α} {pos : ℕ} :
    findFrom xs a pos = none ↔ a ∉ xs.drop pos := by
  simp [findFrom]

/-- What a search from `pos` says about the list from `pos` on. -/
theorem findFrom_cases (xs : List α) (a : α) (pos : ℕ) :
    (findFrom xs a pos = none ∧ a ∉ xs.drop pos) ∨
      ∃ l r, findFrom xs a pos = some (pos + l.length) ∧ xs.drop pos = l ++ a :: r ∧ a ∉ l := by
  cases h : (xs.drop pos).idxOf? a with
  | none => exact .inl ⟨by simp [findFrom, h], List.idxOf?_eq_none_iff.mp h⟩
  | some i =>
    obtain ⟨l, r, hcut, hl, hlen⟩ := idxOf?_cut h
    exact .inr ⟨l, r, by simp [findFrom, h, hlen], hcut, hl⟩

theorem le_of_findFrom {xs : List α} {a : α} {pos i : ℕ} (h : findFrom xs a pos = some i) :
    pos ≤ i := by
  obtain ⟨j, -, rfl⟩ := Option.map_eq_some_iff.mp h
  exact Nat.le_add_right pos j

theorem lt_length_of_findFrom {xs : List α} {a : α} {pos i : ℕ}
    (h : findFrom xs a pos = some i) : i < xs.length := by
  rcases findFrom_cases xs a pos with ⟨hnone, -⟩ | ⟨l, r, hsome, hdrop, -⟩
  · rw [hnone] at h
    cases h
  · rw [hsome] at h
    cases h
    have hlen := congrArg List.length hdrop
    rw [List.length_drop, List.length_append, List.length_cons] at hlen
    omega

theorem rfind_cases (xs : List α) (a : α) :
    (rfind xs a = none ∧ a ∉ xs) ∨
      ∃ l r, rfind xs a = some l.length ∧ xs = l ++ a :: r ∧ a ∉ r := by
  cases h : xs.reverse.idxOf? a with
  | none => exact .inl ⟨by simp [rfind, h], by simpa using h⟩
  | some i =>
    obtain ⟨l, r, hcut, hl, hlen⟩ := idxOf?_cut h
    have hxs : xs = r.reverse ++ a :: l.reverse := by
      have := congrArg List.reverse hcut
      simpa using this
    refine .inr ⟨r.reverse, l.reverse, ?_, hxs, by simpa using hl⟩
    simp only [rfind, h, Option.map_some, Option.some.injEq]
    rw [hxs]
    simp
    omega

/-! ## The pieces -/

theorem splitOn_of_cut {l : List α} {a : α} (r : List α) (hl : a ∉ l) :
    (l ++ a :: r).splitOn a = l :: r.splitOn a :=
  List.splitOn_append_cons_self_of_not_mem hl r

/-- The last piece is what follows the last occurrence. -/
theorem getLast_splitOn {r : List α} {a : α} (l : List α) (hr : a ∉ r) :
    ((l ++ a :: r).splitOn a).getLast? = some r := by
  rw [List.splitOn_append_cons_self, List.splitOn_eq_singleton hr]
  simp

/-- One piece more than there are occurrences. -/
theorem length_splitOn (xs : List α) (a : α) : (xs.splitOn a).length = xs.count a + 1 := by
  induction xs with
  | nil => rfl
  | cons x xs ih =>
    rw [List.splitOn_cons_eq_if_modifyHead]
    by_cases hx : x = a
    · subst hx
      rw [beq_self_eq_true, if_pos rfl, List.length_cons, ih, List.count_cons_self]
    · rw [beq_eq_false_iff_ne.mpr hx, if_neg Bool.false_ne_true, List.length_modifyHead, ih,
        List.count_cons_of_ne hx]

theorem not_mem_of_mem_splitOn {xs p : List α} {a : α} (hp : p ∈ xs.splitOn a) : a ∉ p := by
  induction xs generalizing p with
  | nil =>
    have : p = [] := by simpa [List.splitOn_nil] using hp
    simp [this]
  | cons x xs ih =>
    rw [List.splitOn_cons_eq_if_modifyHead] at hp
    by_cases hx : x = a
    · subst hx
      rcases List.mem_cons.mp (by simpa using hp) with rfl | hrest
      · simp
      · exact ih hrest
    · cases hs : xs.splitOn a with
      | nil => exact absurd hs (List.splitOn_ne_nil a xs)
      | cons q qs =>
        rw [hs] at ih
        simp only [beq_iff_eq, hx, if_false, hs, List.modifyHead_cons, List.mem_cons] at hp
        rcases hp with rfl | hrest
        · have hq := ih (List.mem_cons_self (a := q) (l := qs))
          simp [Ne.symm hx, hq]
        · exact ih (List.mem_cons_of_mem q hrest)

omit [DecidableEq α] in
theorem mem_of_mem_intercalate {a c : α} {pieces : List (List α)}
    (hc : c ∈ [a].intercalate pieces) : c = a ∨ ∃ p ∈ pieces, c ∈ p := by
  induction pieces with
  | nil => simp [List.intercalate] at hc
  | cons p pieces ih =>
    cases pieces with
    | nil =>
      refine .inr ⟨p, by simp, ?_⟩
      simpa [List.intercalate] using hc
    | cons q pieces =>
      have hcons : [a].intercalate (p :: q :: pieces) =
          p ++ a :: [a].intercalate (q :: pieces) := by
        simp [List.intercalate, List.intersperse]
      rw [hcons, List.mem_append, List.mem_cons] at hc
      rcases hc with hp | rfl | hrest
      · exact .inr ⟨p, by simp, hp⟩
      · exact .inl rfl
      · rcases ih hrest with rfl | ⟨r, hr, hcr⟩
        · exact .inl rfl
        · exact .inr ⟨r, List.mem_cons_of_mem p hr, hcr⟩

/-- Pieces without the separator, at least one: joining and splitting undo each other. -/
theorem splitOn_eq_iff {xs : List α} {a : α} {pieces : List (List α)} :
    xs.splitOn a = pieces ↔
      xs = [a].intercalate pieces ∧ pieces ≠ [] ∧ ∀ p ∈ pieces, a ∉ p := by
  constructor
  · rintro rfl
    exact ⟨(List.intercalate_splitOn a).symm, List.splitOn_ne_nil a xs,
      fun p hp => not_mem_of_mem_splitOn hp⟩
  · rintro ⟨rfl, hne, hfree⟩
    exact List.splitOn_intercalate a hfree hne

end Search

end Pensar.Computation
