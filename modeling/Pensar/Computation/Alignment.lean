import Mathlib.Order.Bounds.Basic
import Mathlib.Tactic

/-!
# Alignments of two sequences

An alignment is a sequence of blocks, each of which takes up a few elements of the one
sequence and of the other, so that no element is in two blocks.  A match is free, every
other block costs 1; a transposition takes up two neighbours of each sequence, the same
two in opposite order.

An alignment of sequences that end in `a` and in `b` ends in one of five ways
(`mem_costs_snoc_iff`), which gives the least cost for the longer sequences from the least
costs for the shorter ones: `isLeast_snoc` where no transposition can come last, and
`isLeast_snoc_transposed` where one can.  The least cost is symmetric, zero for equal
sequences only, and between the difference of the two lengths and the larger of them.
-/

set_option autoImplicit false

namespace Pensar.Computation

inductive Block (α : Type) where
  | matched (a : α)
  | substituted (a b : α)
  | inserted (b : α)
  | deleted (a : α)
  | transposed (a b : α)

namespace Block

variable {α : Type}

/-- What the block takes up of the first sequence. -/
def source : Block α → List α
  | matched a => [a]
  | substituted a _ => [a]
  | inserted _ => []
  | deleted a => [a]
  | transposed a b => [a, b]

/-- What the block takes up of the second sequence. -/
def target : Block α → List α
  | matched a => [a]
  | substituted _ b => [b]
  | inserted b => [b]
  | deleted _ => []
  | transposed a b => [b, a]

def cost : Block α → ℕ
  | matched _ => 0
  | _ => 1

end Block

abbrev Alignment (α : Type) := List (Block α)

namespace Alignment

variable {α : Type}

def source (A : Alignment α) : List α := A.flatMap Block.source

def target (A : Alignment α) : List α := A.flatMap Block.target

def cost (A : Alignment α) : ℕ := (A.map Block.cost).sum

/-- The costs of the alignments of `s` with `t`. -/
def costs (s t : List α) : Set ℕ :=
  {c | ∃ A : Alignment α, A.source = s ∧ A.target = t ∧ A.cost = c}

@[simp] theorem source_nil : source ([] : Alignment α) = [] := rfl

@[simp] theorem target_nil : target ([] : Alignment α) = [] := rfl

@[simp] theorem cost_nil : cost ([] : Alignment α) = 0 := rfl

@[simp] theorem source_append (A B : Alignment α) : source (A ++ B) = source A ++ source B :=
  List.flatMap_append

@[simp] theorem target_append (A B : Alignment α) : target (A ++ B) = target A ++ target B :=
  List.flatMap_append

@[simp] theorem cost_append (A B : Alignment α) : cost (A ++ B) = cost A + cost B := by
  simp [cost]

@[simp] theorem source_singleton (x : Block α) : source [x] = x.source := by simp [source]

@[simp] theorem target_singleton (x : Block α) : target [x] = x.target := by simp [target]

@[simp] theorem cost_singleton (x : Block α) : cost [x] = x.cost := by simp [cost]

/-- One more block. -/
theorem costs_snoc {s t : List α} {c : ℕ} (h : c ∈ costs s t) (x : Block α) :
    c + x.cost ∈ costs (s ++ x.source) (t ++ x.target) := by
  obtain ⟨A, rfl, rfl, rfl⟩ := h
  exact ⟨A ++ [x], by simp, by simp, by simp⟩

/-! ## Against the empty sequence -/

theorem length_le (A : Alignment α) :
    A.target.length ≤ A.source.length + A.cost ∧ A.source.length ≤ A.target.length + A.cost := by
  induction A using List.reverseRecOn with
  | nil => simp
  | append_singleton A x ih =>
    obtain ⟨htarget, hsource⟩ := ih
    simp only [source_append, target_append, cost_append, source_singleton, target_singleton,
      cost_singleton, List.length_append]
    cases x <;> simp only [Block.source, Block.target, Block.cost, List.length_cons,
      List.length_nil] <;> omega

theorem isLeast_nil_left (t : List α) : IsLeast (costs [] t) t.length := by
  constructor
  · induction t using List.reverseRecOn with
    | nil => exact ⟨[], rfl, rfl, rfl⟩
    | append_singleton t b ih =>
      have h := costs_snoc ih (Block.inserted b)
      simpa [Block.source, Block.target, Block.cost] using h
  · rintro c ⟨A, hs, rfl, rfl⟩
    have hlen := A.length_le.1
    rwa [hs, List.length_nil, Nat.zero_add] at hlen

theorem isLeast_nil_right (s : List α) : IsLeast (costs s []) s.length := by
  constructor
  · induction s using List.reverseRecOn with
    | nil => exact ⟨[], rfl, rfl, rfl⟩
    | append_singleton s a ih =>
      have h := costs_snoc ih (Block.deleted a)
      simpa [Block.source, Block.target, Block.cost] using h
  · rintro c ⟨A, rfl, ht, rfl⟩
    have hlen := A.length_le.2
    rwa [ht, List.length_nil, Nat.zero_add] at hlen

/-! ## The last block -/

/-- The ways in which an alignment of `p ++ [a]` with `q ++ [b]` can end: with a deletion,
an insertion, a substitution, a match or a transposition. -/
theorem mem_costs_snoc_iff (p q : List α) (a b : α) (c : ℕ) :
    c ∈ costs (p ++ [a]) (q ++ [b]) ↔
      (∃ c' ∈ costs p (q ++ [b]), c = c' + 1) ∨
      (∃ c' ∈ costs (p ++ [a]) q, c = c' + 1) ∨
      (∃ c' ∈ costs p q, c = c' + 1) ∨
      (a = b ∧ c ∈ costs p q) ∨
      ∃ p' q', p = p' ++ [b] ∧ q = q' ++ [a] ∧ ∃ c' ∈ costs p' q', c = c' + 1 := by
  constructor
  · rintro ⟨A, hs, ht, rfl⟩
    rcases List.eq_nil_or_concat A with rfl | ⟨A, x, rfl⟩
    · simp at hs
    · simp only [List.concat_eq_append, source_append, target_append, cost_append,
        source_singleton, target_singleton, cost_singleton] at hs ht ⊢
      cases x with
      | deleted a' =>
        obtain ⟨rfl, -⟩ := List.append_inj' hs rfl
        simp only [Block.target, List.append_nil] at ht
        exact Or.inl ⟨cost A, ⟨A, rfl, ht, rfl⟩, rfl⟩
      | inserted b' =>
        obtain ⟨rfl, -⟩ := List.append_inj' ht rfl
        simp only [Block.source, List.append_nil] at hs
        exact Or.inr (Or.inl ⟨cost A, ⟨A, hs, rfl, rfl⟩, rfl⟩)
      | substituted a' b' =>
        obtain ⟨rfl, -⟩ := List.append_inj' hs rfl
        obtain ⟨rfl, -⟩ := List.append_inj' ht rfl
        exact Or.inr (Or.inr (Or.inl ⟨cost A, ⟨A, rfl, rfl, rfl⟩, rfl⟩))
      | matched d =>
        obtain ⟨rfl, ha⟩ := List.append_inj' hs rfl
        obtain ⟨rfl, hb⟩ := List.append_inj' ht rfl
        cases ha
        cases hb
        exact Or.inr (Or.inr (Or.inr (Or.inl ⟨rfl, A, rfl, rfl, rfl⟩)))
      | transposed d e =>
        have hs' : (source A ++ [d]) ++ [e] = p ++ [a] := by simpa [Block.source] using hs
        have ht' : (target A ++ [e]) ++ [d] = q ++ [b] := by simpa [Block.target] using ht
        obtain ⟨rfl, ha⟩ := List.append_inj' hs' rfl
        obtain ⟨rfl, hb⟩ := List.append_inj' ht' rfl
        cases ha
        cases hb
        exact Or.inr (Or.inr (Or.inr (Or.inr
          ⟨source A, target A, rfl, rfl, cost A, ⟨A, rfl, rfl, rfl⟩, rfl⟩)))
  · rintro (⟨c', h, rfl⟩ | ⟨c', h, rfl⟩ | ⟨c', h, rfl⟩ | ⟨rfl, h⟩ | ⟨p', q', rfl, rfl, c', h, rfl⟩)
    · simpa [Block.source, Block.target, Block.cost] using costs_snoc h (Block.deleted a)
    · simpa [Block.source, Block.target, Block.cost] using costs_snoc h (Block.inserted b)
    · simpa [Block.source, Block.target, Block.cost] using costs_snoc h (Block.substituted a b)
    · simpa [Block.source, Block.target, Block.cost] using costs_snoc h (Block.matched a)
    · simpa [Block.source, Block.target, Block.cost] using costs_snoc h (Block.transposed b a)

section Least

variable [DecidableEq α] {p q : List α} {a b : α} {x y z : ℕ}

/-- The least cost when the last block is no transposition. -/
def leastSnoc (a b : α) (x y z : ℕ) : ℕ := min (min (x + 1) (y + 1)) (z + if a = b then 0 else 1)

theorem leastSnoc_mem (hx : IsLeast (costs (p ++ [a]) q) x) (hy : IsLeast (costs p (q ++ [b])) y)
    (hz : IsLeast (costs p q) z) : leastSnoc a b x y z ∈ costs (p ++ [a]) (q ++ [b]) := by
  unfold leastSnoc
  rw [mem_costs_snoc_iff]
  rcases min_choice (min (x + 1) (y + 1)) (z + if a = b then 0 else 1) with h | h
  · rw [h]
    rcases min_choice (x + 1) (y + 1) with h' | h'
    · rw [h']
      exact Or.inr (Or.inl ⟨x, hx.1, rfl⟩)
    · rw [h']
      exact Or.inl ⟨y, hy.1, rfl⟩
  · rw [h]
    by_cases hab : a = b
    · rw [if_pos hab]
      exact Or.inr (Or.inr (Or.inr (Or.inl ⟨hab, hz.1⟩)))
    · rw [if_neg hab]
      exact Or.inr (Or.inr (Or.inl ⟨z, hz.1, rfl⟩))

/-- An alignment that is cheaper ends in a transposition. -/
theorem leastSnoc_le_or (hx : IsLeast (costs (p ++ [a]) q) x)
    (hy : IsLeast (costs p (q ++ [b])) y) (hz : IsLeast (costs p q) z) {c : ℕ}
    (hc : c ∈ costs (p ++ [a]) (q ++ [b])) :
    leastSnoc a b x y z ≤ c ∨
      ∃ p' q', p = p' ++ [b] ∧ q = q' ++ [a] ∧ ∃ c' ∈ costs p' q', c = c' + 1 := by
  unfold leastSnoc
  rw [mem_costs_snoc_iff] at hc
  rcases hc with ⟨c', h, rfl⟩ | ⟨c', h, rfl⟩ | ⟨c', h, rfl⟩ | ⟨rfl, h⟩ | h
  · have hle : y ≤ c' := hy.2 h
    left
    omega
  · have hle : x ≤ c' := hx.2 h
    left
    omega
  · have hle : z ≤ c' := hz.2 h
    left
    split <;> omega
  · have hle : z ≤ c := hz.2 h
    left
    rw [if_pos rfl]
    omega
  · exact Or.inr h

theorem isLeast_snoc (hx : IsLeast (costs (p ++ [a]) q) x)
    (hy : IsLeast (costs p (q ++ [b])) y) (hz : IsLeast (costs p q) z)
    (hno : ¬ ∃ p' q', p = p' ++ [b] ∧ q = q' ++ [a]) :
    IsLeast (costs (p ++ [a]) (q ++ [b])) (leastSnoc a b x y z) := by
  refine ⟨leastSnoc_mem hx hy hz, ?_⟩
  intro c hc
  rcases leastSnoc_le_or hx hy hz hc with h | ⟨p', q', hp, hq, -⟩
  · exact h
  · exact absurd ⟨p', q', hp, hq⟩ hno

theorem isLeast_snoc_transposed {p' q' : List α} {w : ℕ}
    (hx : IsLeast (costs (p' ++ [b] ++ [a]) (q' ++ [a])) x)
    (hy : IsLeast (costs (p' ++ [b]) (q' ++ [a] ++ [b])) y)
    (hz : IsLeast (costs (p' ++ [b]) (q' ++ [a])) z) (hw : IsLeast (costs p' q') w) :
    IsLeast (costs (p' ++ [b] ++ [a]) (q' ++ [a] ++ [b])) (min (leastSnoc a b x y z) (w + 1)) := by
  constructor
  · rcases min_choice (leastSnoc a b x y z) (w + 1) with h | h
    · rw [h]
      exact leastSnoc_mem hx hy hz
    · rw [h, mem_costs_snoc_iff]
      exact Or.inr (Or.inr (Or.inr (Or.inr ⟨p', q', rfl, rfl, w, hw.1, rfl⟩)))
  · intro c hc
    rcases leastSnoc_le_or hx hy hz hc with h | ⟨p'', q'', hp, hq, c', hc', rfl⟩
    · exact (min_le_left _ _).trans h
    · obtain ⟨rfl, -⟩ := List.append_inj' hp rfl
      obtain ⟨rfl, -⟩ := List.append_inj' hq rfl
      have hle : w ≤ c' := hw.2 hc'
      omega

end Least

/-! ## The metric laws

Read with the two sequences in each other's place, an alignment keeps its cost, which makes
the least cost symmetric.
-/

/-- The block with the sequences in each other's place. -/
def swapBlock : Block α → Block α
  | .matched a => .matched a
  | .substituted a b => .substituted b a
  | .inserted b => .deleted b
  | .deleted a => .inserted a
  | .transposed a b => .transposed b a

def swap (A : Alignment α) : Alignment α := A.map swapBlock

theorem source_swap (A : Alignment α) : A.swap.source = A.target := by
  unfold swap source target
  rw [List.flatMap_map]
  apply List.flatMap_congr
  intro x _
  cases x <;> rfl

theorem target_swap (A : Alignment α) : A.swap.target = A.source := by
  unfold swap source target
  rw [List.flatMap_map]
  apply List.flatMap_congr
  intro x _
  cases x <;> rfl

theorem cost_swap (A : Alignment α) : A.swap.cost = A.cost := by
  unfold swap cost
  rw [List.map_map]
  congr 1
  apply List.map_congr_left
  intro x _
  cases x <;> rfl

theorem costs_comm (s t : List α) : costs s t = costs t s := by
  have hswap : ∀ s t : List α, costs s t ⊆ costs t s := by
    rintro s t c ⟨A, rfl, rfl, rfl⟩
    exact ⟨A.swap, source_swap A, target_swap A, cost_swap A⟩
  exact Set.Subset.antisymm (hswap s t) (hswap t s)

/-- An alignment that costs nothing has matches only. -/
theorem source_eq_target_of_cost_eq_zero (A : Alignment α) (h : A.cost = 0) :
    A.source = A.target := by
  induction A using List.reverseRecOn with
  | nil => rfl
  | append_singleton A x ih =>
    rw [cost_append, cost_singleton] at h
    have hA : source A = target A := ih (by omega)
    have hx : x.cost = 0 := by omega
    cases x with
    | matched a =>
      rw [source_append, target_append, hA]
      rfl
    | substituted a b => exact absurd hx Nat.one_ne_zero
    | inserted b => exact absurd hx Nat.one_ne_zero
    | deleted a => exact absurd hx Nat.one_ne_zero
    | transposed a b => exact absurd hx Nat.one_ne_zero

theorem zero_mem_costs_iff (s t : List α) : 0 ∈ costs s t ↔ s = t := by
  constructor
  · rintro ⟨A, rfl, rfl, h⟩
    exact source_eq_target_of_cost_eq_zero A h
  · rintro rfl
    induction s using List.reverseRecOn with
    | nil => exact ⟨[], rfl, rfl, rfl⟩
    | append_singleton s a ih =>
      have h := costs_snoc ih (Block.matched a)
      simpa [Block.source, Block.target, Block.cost] using h

/-- Substituting as far as the shorter sequence goes. -/
theorem max_length_mem_costs (s t : List α) : max s.length t.length ∈ costs s t := by
  induction s using List.reverseRecOn generalizing t with
  | nil =>
    rw [List.length_nil, Nat.zero_max]
    exact (isLeast_nil_left t).1
  | append_singleton s a ih =>
    rcases List.eq_nil_or_concat t with rfl | ⟨t, b, rfl⟩
    · rw [List.length_nil, Nat.max_zero]
      exact (isLeast_nil_right (s ++ [a])).1
    · have h := costs_snoc (ih t) (Block.substituted a b)
      have hmax : max (s ++ [a]).length (t ++ [b]).length = max s.length t.length + 1 := by
        rw [List.length_append, List.length_append, List.length_singleton, List.length_singleton,
          Nat.add_max_add_right]
      rw [List.concat_eq_append, hmax]
      exact h

section Metric

variable {s t : List α} {d : ℕ}

theorem least_eq_zero_iff (h : IsLeast (costs s t) d) : d = 0 ↔ s = t := by
  rw [← zero_mem_costs_iff s t]
  constructor
  · rintro rfl
    exact h.1
  · intro hzero
    exact Nat.le_zero.mp (h.2 hzero)

theorem least_le_max_length (h : IsLeast (costs s t) d) : d ≤ max s.length t.length :=
  h.2 (max_length_mem_costs s t)

theorem length_sub_le_least (h : IsLeast (costs s t) d) :
    |(s.length : ℤ) - t.length| ≤ d := by
  obtain ⟨A, rfl, rfl, rfl⟩ := h.1
  obtain ⟨htarget, hsource⟩ := A.length_le
  rw [abs_le]
  constructor <;> omega

end Metric

end Alignment

end Pensar.Computation
