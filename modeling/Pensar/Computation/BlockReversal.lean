import Mathlib.Tactic

/-!
# Blocks of a list in reverse

A list is cut into blocks of the length `k`; `BlocksReversed k n xs ys` says that `ys` is `xs`
with the first `n` blocks reversed, each in its place.  The relation is symmetric and determines
`ys`.  A block is reversed by exchanging its first element with its last one, the second with
the last but one, and so on for `k / 2` pairs (`PairsExchanged`).
-/

set_option autoImplicit false

namespace Pensar.Computation

variable {α : Type} {xs ys zs : List α} {i j k n : ℕ}

/-! ## Exchanging two elements -/

def exchange (xs : List α) (a b : ℕ) (ha : a < xs.length) (hb : b < xs.length) : List α :=
  (xs.set a xs[b]).set b xs[a]

theorem length_exchange {a b : ℕ} (ha : a < xs.length) (hb : b < xs.length) :
    (exchange xs a b ha hb).length = xs.length := by
  rw [exchange, List.length_set, List.length_set]

theorem getElem?_exchange {a b : ℕ} (ha : a < xs.length) (hb : b < xs.length) (p : ℕ) :
    (exchange xs a b ha hb)[p]? = if p = b then xs[a]? else if p = a then xs[b]? else xs[p]? := by
  rw [exchange, List.getElem?_set, List.getElem?_set, List.length_set]
  by_cases hpb : p = b
  · rw [hpb, if_pos rfl, if_pos hb, if_pos rfl, List.getElem?_eq_getElem ha]
  · rw [if_neg (Ne.symm hpb), if_neg hpb]
    by_cases hpa : p = a
    · rw [hpa, if_pos rfl, if_pos ha, if_pos rfl, List.getElem?_eq_getElem hb]
    · rw [if_neg (Ne.symm hpa), if_neg hpa]

/-! ## One block -/

/-- In the block of `k` elements at `i` the outermost `j` pairs are exchanged. -/
structure PairsExchanged (i k j : ℕ) (xs ys : List α) : Prop where
  length_eq : ys.length = xs.length
  outer : ∀ r < k, r < j ∨ k - j ≤ r → ys[i + r]? = xs[i + (k - 1 - r)]?
  inner : ∀ r, j ≤ r → r < k - j → ys[i + r]? = xs[i + r]?
  rest : ∀ p, p < i ∨ i + k ≤ p → ys[p]? = xs[p]?

theorem pairsExchanged_zero (i k : ℕ) (xs : List α) : PairsExchanged i k 0 xs xs where
  length_eq := rfl
  outer r hr h := by omega
  inner _ _ _ := rfl
  rest _ _ := rfl

/-- One more pair. -/
theorem PairsExchanged.exchange (h : PairsExchanged i k j xs ys) (hj : 2 * j + 1 < k)
    (ha : i + j < ys.length) (hb : i + (k - 1 - j) < ys.length) :
    PairsExchanged i k (j + 1) xs (exchange ys (i + j) (i + (k - 1 - j)) ha hb) where
  length_eq := by rw [length_exchange, h.length_eq]
  outer r hr hout := by
    rw [getElem?_exchange]
    by_cases hlast : i + r = i + (k - 1 - j)
    · rw [if_pos hlast, h.inner j (Nat.le_refl j) (by omega), show k - 1 - r = j by omega]
    · rw [if_neg hlast]
      by_cases hfirst : i + r = i + j
      · rw [if_pos hfirst, h.inner (k - 1 - j) (by omega) (by omega),
          show k - 1 - r = k - 1 - j by omega]
      · rw [if_neg hfirst, h.outer r hr (by omega)]
  inner r hr hin := by
    rw [getElem?_exchange, if_neg (by omega), if_neg (by omega), h.inner r (by omega) (by omega)]
  rest p hp := by
    rw [getElem?_exchange, if_neg (by omega), if_neg (by omega), h.rest p hp]

/-- All pairs: a single element in the middle stays where it is. -/
theorem PairsExchanged.reversed (h : PairsExchanged i k (k / 2) xs ys) {r : ℕ} (hr : r < k) :
    ys[i + r]? = xs[i + (k - 1 - r)]? := by
  by_cases hout : r < k / 2 ∨ k - k / 2 ≤ r
  · exact h.outer r hr hout
  · rw [h.inner r (by omega) (by omega), show k - 1 - r = r by omega]

/-! ## The first blocks -/

/-- `ys` is `xs` with the first `n` blocks reversed. -/
structure BlocksReversed (k n : ℕ) (xs ys : List α) : Prop where
  length_eq : ys.length = xs.length
  block : ∀ q < n, ∀ r < k, ys[q * k + r]? = xs[q * k + (k - 1 - r)]?
  rest : ∀ p, n * k ≤ p → ys[p]? = xs[p]?

theorem blocksReversed_zero (k : ℕ) (xs : List α) : BlocksReversed k 0 xs xs where
  length_eq := rfl
  block _ hq := absurd hq (Nat.not_lt_zero _)
  rest _ _ := rfl

theorem BlocksReversed.symm (h : BlocksReversed k n xs ys) : BlocksReversed k n ys xs where
  length_eq := h.length_eq.symm
  block q hq r hr := by
    rw [h.block q hq (k - 1 - r) (by omega), show k - 1 - (k - 1 - r) = r by omega]
  rest p hp := (h.rest p hp).symm

/-- A position is in one of the first blocks or behind them. -/
theorem block_or_rest (k n p : ℕ) :
    (∃ q r, q < n ∧ r < k ∧ p = q * k + r) ∨ n * k ≤ p := by
  by_cases hp : n * k ≤ p
  · exact Or.inr hp
  · left
    have hlt : p < n * k := Nat.not_le.mp hp
    have hk : 0 < k := Nat.pos_of_ne_zero fun h => by simp [h] at hlt
    refine ⟨p / k, p % k, (Nat.div_lt_iff_lt_mul hk).mpr hlt, Nat.mod_lt p hk, ?_⟩
    rw [Nat.mul_comm]
    exact (Nat.div_add_mod p k).symm

theorem BlocksReversed.unique (h : BlocksReversed k n xs ys) (h' : BlocksReversed k n xs zs) :
    ys = zs := by
  apply List.ext_getElem?
  intro p
  rcases block_or_rest k n p with ⟨q, r, hq, hr, rfl⟩ | hp
  · rw [h.block q hq r hr, h'.block q hq r hr]
  · rw [h.rest p hp, h'.rest p hp]

/-- The next block. -/
theorem BlocksReversed.succ (h : BlocksReversed k n xs ys)
    (hnext : PairsExchanged (n * k) k (k / 2) ys zs) : BlocksReversed k (n + 1) xs zs where
  length_eq := by rw [hnext.length_eq, h.length_eq]
  block q hq r hr := by
    rcases Nat.lt_succ_iff_lt_or_eq.mp hq with hq | rfl
    · have hle : (q + 1) * k ≤ n * k := Nat.mul_le_mul_right k hq
      rw [Nat.succ_mul] at hle
      rw [hnext.rest _ (Or.inl (by omega)), h.block q hq r hr]
    · rw [hnext.reversed hr, h.rest _ (by omega)]
  rest p hp := by
    rw [Nat.succ_mul] at hp
    rw [hnext.rest p (Or.inr hp), h.rest p (by omega)]

end Pensar.Computation
