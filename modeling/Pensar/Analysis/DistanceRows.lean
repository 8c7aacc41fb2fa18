import Pensar.Computation.Alignment
import Pensar.Model.Distance

/-!
# The rows of the edit distance table

`RowOf s t i row` says that `row` is the row `i` of the table: its entry `j` is the least
cost of an alignment of the first `i` characters of `s` with the first `j` of `t`.  An
entry is right when the entries before it and the two rows above are (`entry_row`), so the
inner loop completes the row (`round_rows`) and the rotation keeps the last two.

Main result: `distance_isLeast`.
-/

set_option autoImplicit false

namespace Pensar.Analysis

open Pensar.Computation
open Pensar.Computation.Alignment
open Pensar.Model
open Pensar.Model.Distance

/-- The rule for a loop that counts from 1 to `n`. -/
theorem foldl_range'_invariant {β : Type} (f : β → ℕ → β) (I : ℕ → β → Prop) (n : ℕ)
    (hstep : ∀ k < n, ∀ b, I k b → I (k + 1) (f b (k + 1))) (b : β) (hb : I 0 b) :
    I n ((List.range' 1 n).foldl f b) := by
  induction n with
  | zero => exact hb
  | succ n ih =>
    have hn := ih (fun k hk => hstep k (by omega))
    have hlast := hstep n (by omega) _ hn
    rwa [List.range'_concat, List.foldl_append, List.foldl_cons, List.foldl_nil, Nat.one_mul,
      Nat.add_comm 1 n]

variable {α : Type}

theorem getElem?_of_take_eq_snoc {l p : List α} {x : α} {i : ℕ} (hi : i ≤ l.length)
    (h : l.take i = p ++ [x]) : 0 < i ∧ l[i - 1]? = some x := by
  have hlen : i = p.length + 1 := by
    have hlength := congrArg List.length h
    rw [List.length_take, List.length_append, List.length_singleton] at hlength
    omega
  subst hlen
  refine ⟨Nat.succ_pos _, ?_⟩
  calc l[p.length + 1 - 1]? = (l.take (p.length + 1))[p.length]? :=
        (List.getElem?_take_of_lt (Nat.lt_succ_self _)).symm
    _ = some x := by rw [h, List.getElem?_concat_length]

theorem getD_set_self {row : List ℕ} {j : ℕ} (hj : j < row.length) (v : ℕ) :
    (row.set j v).getD j 0 = v := by
  rw [List.getD_eq_getElem?_getD, List.getElem?_set_self hj, Option.getD_some]

theorem getD_set_ne (row : List ℕ) {j k : ℕ} (h : j ≠ k) (v : ℕ) :
    (row.set j v).getD k 0 = row.getD k 0 := by
  rw [List.getD_eq_getElem?_getD, List.getElem?_set_ne h, List.getD_eq_getElem?_getD]

/-! ## Rows -/

/-- The entries up to `j` of the row `i`. -/
structure RowUpTo (s t : List α) (i j : ℕ) (row : List ℕ) : Prop where
  length : row.length = t.length + 1
  least : ∀ k ≤ j, IsLeast (costs (s.take i) (t.take k)) (row.getD k 0)

def RowOf (s t : List α) (i : ℕ) (row : List ℕ) : Prop := RowUpTo s t i t.length row

theorem RowUpTo.set {s t : List α} {i j : ℕ} {row : List ℕ} (h : RowUpTo s t i j row)
    (hj : j < t.length) {v : ℕ} (hv : IsLeast (costs (s.take i) (t.take (j + 1))) v) :
    RowUpTo s t i (j + 1) (row.set (j + 1) v) := by
  have hlen := h.length
  refine ⟨by rw [List.length_set, hlen], ?_⟩
  intro k hk
  by_cases hkj : k = j + 1
  · subst hkj
    rwa [getD_set_self (by omega)]
  · rw [getD_set_ne row (by omega)]
    exact h.least k (by omega)

/-- The first row. -/
theorem start_row (s t : List α) : RowOf s t 0 (start t.length).row2 := by
  refine ⟨List.length_range, ?_⟩
  intro k hk
  have hget : (start t.length).row2.getD k 0 = (t.take k).length := by
    unfold start
    rw [List.getD_eq_getElem?_getD, List.getElem?_range (by omega), List.length_take,
      Nat.min_eq_left hk, Option.getD_some]
  rw [hget, List.take_zero]
  exact isLeast_nil_left _

/-- The entry 0 of a row. -/
theorem set_zero_row (s t : List α) {i : ℕ} (hi : i ≤ s.length) {row : List ℕ}
    (hrow : row.length = t.length + 1) : RowUpTo s t i 0 (row.set 0 i) := by
  refine ⟨by rw [List.length_set, hrow], ?_⟩
  intro k hk
  obtain rfl : k = 0 := by omega
  rw [getD_set_self (by omega), List.take_zero]
  have hlen : (s.take i).length = i := by rw [List.length_take, Nat.min_eq_left hi]
  have hleast := isLeast_nil_right (s.take i)
  rwa [hlen] at hleast

/-- What the vectors hold after `i` rounds. -/
structure RowsAfter (s t : List α) (i : ℕ) (rows : Rows) : Prop where
  row1 : 0 < i → RowOf s t (i - 1) rows.row1
  row2 : RowOf s t i rows.row2
  row3 : rows.row3.length = t.length + 1

theorem start_rows (s t : List α) : RowsAfter s t 0 (start t.length) :=
  ⟨fun h => absurd h (Nat.lt_irrefl 0), start_row s t, List.length_replicate⟩

variable [DecidableEq α]

/-- **One entry** of the row `i + 1`, from the entries before it and the rows `i` and, if
there is one, `i - 1`. -/
theorem entry_row {s t : List α} {i j : ℕ} (hi : i < s.length) (hj : j < t.length)
    {row1 row2 row3 : List ℕ} (h1 : 0 < i → RowOf s t (i - 1) row1) (h2 : RowOf s t i row2)
    (h3 : RowUpTo s t (i + 1) j row3) :
    RowUpTo s t (i + 1) (j + 1) (entry s t (i + 1) row1 row2 row3 (j + 1)) := by
  have hs : s.take (i + 1) = s.take i ++ [s[i]] := List.take_succ_eq_append_getElem hi
  have ht : t.take (j + 1) = t.take j ++ [t[j]] := List.take_succ_eq_append_getElem hj
  have hx := h3.least j (Nat.le_refl j)
  have hy := h2.least (j + 1) hj
  have hz := h2.least j (by omega)
  have hlen := h3.length
  rw [hs] at hx
  rw [ht] at hy
  unfold entry
  simp only [Nat.add_sub_cancel, List.getElem?_eq_getElem hi, List.getElem?_eq_getElem hj,
    Option.some.injEq]
  split
  case isTrue htrans =>
    obtain ⟨hi1, hj1, ha, hb⟩ := htrans
    obtain ⟨i, rfl⟩ : ∃ i', i = i' + 1 := ⟨i - 1, by omega⟩
    obtain ⟨j, rfl⟩ : ∃ j', j = j' + 1 := ⟨j - 1, by omega⟩
    have hsi : s.take (i + 1) = s.take i ++ [t[j + 1]] := by
      have hbi : s[i] = t[j + 1] := by
        have hsome : some t[j + 1] = s[i]? := hb
        rw [List.getElem?_eq_getElem (by omega)] at hsome
        exact (Option.some.inj hsome).symm
      rw [List.take_succ_eq_append_getElem (by omega), hbi]
    have htj : t.take (j + 1) = t.take j ++ [s[i + 1]] := by
      have haj : t[j] = s[i + 1] := by
        have hsome : some s[i + 1] = t[j]? := ha
        rw [List.getElem?_eq_getElem (by omega)] at hsome
        exact (Option.some.inj hsome).symm
      rw [List.take_succ_eq_append_getElem (by omega), haj]
    have hw := (h1 (Nat.succ_pos i)).least j (by omega)
    rw [Nat.add_sub_cancel] at hw
    rw [hsi, htj] at hx hz
    rw [hsi, htj] at hy
    have hleast := isLeast_snoc_transposed hx hy hz hw
    rw [List.set_set, getD_set_self (by omega)]
    apply h3.set hj
    rw [hs, ht, hsi, htj]
    exact hleast
  case isFalse hnot =>
    apply h3.set hj
    rw [hs, ht]
    apply isLeast_snoc hx hy hz
    rintro ⟨p, q, hp, hq⟩
    obtain ⟨hipos, hb⟩ := getElem?_of_take_eq_snoc (by omega) hp
    obtain ⟨hjpos, ha⟩ := getElem?_of_take_eq_snoc (by omega) hq
    exact hnot ⟨by omega, by omega, ha.symm, hb.symm⟩

/-! ## Rounds -/

/-- **One round** completes the next row and moves the rows up. -/
theorem round_rows {s t : List α} {i : ℕ} (hi : i < s.length) {rows : Rows}
    (h : RowsAfter s t i rows) : RowsAfter s t (i + 1) (round s t rows (i + 1)) := by
  have hrow : RowOf s t (i + 1) ((List.range' 1 t.length).foldl
      (entry s t (i + 1) rows.row1 rows.row2) (rows.row3.set 0 (i + 1))) := by
    apply foldl_range'_invariant _ (RowUpTo s t (i + 1)) t.length
    · intro j hj row3 hrow3
      exact entry_row hi hj h.row1 h.row2 hrow3
    · exact set_zero_row s t hi h.row3
  exact ⟨fun _ => h.row2, hrow, hrow.length⟩

theorem rolling_isLeast (s t : List α) : IsLeast (costs s t) (rolling s t) := by
  unfold rolling
  simp only
  split
  case isTrue hs =>
    rw [List.length_eq_zero_iff.mp hs]
    exact isLeast_nil_left t
  case isFalse hs =>
    split
    case isTrue ht =>
      rw [List.length_eq_zero_iff.mp ht]
      exact isLeast_nil_right s
    case isFalse ht =>
      have hrows : RowsAfter s t s.length
          ((List.range' 1 s.length).foldl (round s t) (start t.length)) := by
        apply foldl_range'_invariant _ (RowsAfter s t) s.length
        · intro i hi rows hrows
          exact round_rows hi hrows
        · exact start_rows s t
      have hleast := hrows.row2.least t.length (Nat.le_refl _)
      rwa [List.take_length, List.take_length] at hleast

/-- **`distance` is the optimal string alignment distance**: some alignment of the two
strings costs that much, and none costs less. -/
theorem distance_isLeast (source target : S) :
    IsLeast {c | ∃ A : Alignment C, A.source = source ∧ A.target = target ∧ A.cost = c}
      (distance source target) :=
  rolling_isLeast source target

/-- A transposition whose characters are not next to each other in both strings does not
count. -/
example : distance (W "ca") (W "abc") = 3 := by decide

end Pensar.Analysis
