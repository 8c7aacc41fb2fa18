import Mathlib.Data.List.Perm.Basic

/-!
# Left joins

A left join keeps every row of the left side: once for each row that matches it, and once if none
does.  So it has as many rows as the left side exactly when no row has two matches.
-/

set_option autoImplicit false

namespace Pensar.Computation

variable {α β γ κ : Type}

/-- `f` gives the rows of the right side that match. -/
def leftJoin (f : α → List β) (rows : List α) : List (α × Option β) :=
  rows.flatMap fun a =>
    match f a with
    | [] => [(a, none)]
    | b :: bs => (b :: bs).map fun b => (a, some b)

theorem leftJoin_cons (f : α → List β) (a : α) (rows : List α) :
    leftJoin f (a :: rows) = leftJoin f [a] ++ leftJoin f rows := by
  simp [leftJoin]

theorem length_leftJoin_singleton (f : α → List β) (a : α) :
    (leftJoin f [a]).length = max 1 (f a).length := by
  cases hf : f a <;> simp [leftJoin, hf]

/-- Every row of the left side is kept. -/
theorem exists_mem_leftJoin (f : α → List β) {a : α} {rows : List α} (h : a ∈ rows) :
    ∃ r ∈ leftJoin f rows, r.1 = a := by
  cases hf : f a with
  | nil => exact ⟨(a, none), List.mem_flatMap.mpr ⟨a, h, by simp [hf]⟩, rfl⟩
  | cons b bs => exact ⟨(a, some b), List.mem_flatMap.mpr ⟨a, h, by simp [hf]⟩, rfl⟩

theorem fst_mem_of_mem_leftJoin {f : α → List β} {rows : List α} {r : α × Option β}
    (h : r ∈ leftJoin f rows) : r.1 ∈ rows := by
  obtain ⟨a, ha, hr⟩ := List.mem_flatMap.mp h
  cases hf : f a with
  | nil =>
    rw [hf, List.mem_singleton] at hr
    rwa [hr]
  | cons b bs =>
    rw [hf] at hr
    obtain ⟨b, -, rfl⟩ := List.mem_map.mp hr
    exact ha

theorem length_le_length_leftJoin (f : α → List β) (rows : List α) :
    rows.length ≤ (leftJoin f rows).length := by
  induction rows with
  | nil => simp
  | cons a rows ih =>
    rw [leftJoin_cons, List.length_append, length_leftJoin_singleton, List.length_cons]
    have hone := Nat.le_max_left 1 (f a).length
    omega

/-- **No row more than the left side has.** -/
theorem length_leftJoin_eq_iff (f : α → List β) (rows : List α) :
    (leftJoin f rows).length = rows.length ↔ ∀ a ∈ rows, (f a).length ≤ 1 := by
  induction rows with
  | nil => simp [leftJoin]
  | cons a rows ih =>
    have hle := length_le_length_leftJoin f rows
    rw [leftJoin_cons, List.length_append, length_leftJoin_singleton, List.length_cons,
      List.forall_mem_cons, ← ih]
    constructor
    · intro h
      constructor <;> omega
    · rintro ⟨ha, hrest⟩
      rw [hrest, Nat.max_eq_left ha, Nat.add_comm]

/-- Where no row has two matches, the left side is as it was. -/
theorem map_fst_leftJoin {f : α → List β} {rows : List α} (h : ∀ a ∈ rows, (f a).length ≤ 1) :
    (leftJoin f rows).map Prod.fst = rows := by
  induction rows with
  | nil => rfl
  | cons a rows ih =>
    obtain ⟨ha, hrest⟩ := List.forall_mem_cons.mp h
    rw [leftJoin_cons, List.map_append, ih hrest]
    cases hf : f a with
    | nil => simp [leftJoin, hf]
    | cons b bs =>
      rw [hf, List.length_cons] at ha
      obtain rfl : bs = [] := List.eq_nil_of_length_eq_zero (by omega)
      simp [leftJoin, hf]

/-- **Two left joins** have each row of the left side once exactly when neither finds two matches
for one. -/
theorem leftJoin_leftJoin_perm_iff (f : α → List β) (g : α → List γ) (key : α → κ)
    (rows : List α) :
    ((leftJoin (fun r => g r.1) (leftJoin f rows)).map fun r => key r.1.1).Perm (rows.map key) ↔
      ∀ a ∈ rows, (f a).length ≤ 1 ∧ (g a).length ≤ 1 := by
  have hf := length_le_length_leftJoin f rows
  have hg := length_le_length_leftJoin (fun r => g r.1) (leftJoin f rows)
  constructor
  · intro h a ha
    have hlength := h.length_eq
    rw [List.length_map, List.length_map] at hlength
    have hfirst := (length_leftJoin_eq_iff f rows).mp (by omega)
    have hsecond :=
      (length_leftJoin_eq_iff (fun r => g r.1) (leftJoin f rows)).mp (by omega)
    obtain ⟨r, hr, rfl⟩ := exists_mem_leftJoin f ha
    exact ⟨hfirst r.1 ha, hsecond r hr⟩
  · intro h
    have hfirst : (leftJoin f rows).map Prod.fst = rows :=
      map_fst_leftJoin fun a ha => (h a ha).1
    have hsecond : (leftJoin (fun r => g r.1) (leftJoin f rows)).map Prod.fst =
        leftJoin f rows :=
      map_fst_leftJoin fun r hr => (h r.1 (fst_mem_of_mem_leftJoin hr)).2
    have hkeys : ∀ joined : List ((α × Option β) × Option γ),
        (joined.map fun r => key r.1.1) = ((joined.map Prod.fst).map Prod.fst).map key := by
      intro joined
      rw [List.map_map, List.map_map]
      rfl
    rw [hkeys, hsecond, hfirst]

end Pensar.Computation
