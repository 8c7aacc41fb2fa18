import Mathlib.Data.List.Nodup

/-!
# Rows with keys

A list of rows in which no key occurs twice holds at most one row for a key, and a join with such
a list makes at most one row of each row.
-/

set_option autoImplicit false

namespace Pensar.Computation

variable {α β κ : Type}

theorem eq_of_key {key : α → κ} {rows : List α} (hrows : (rows.map key).Nodup) {a b : α}
    (ha : a ∈ rows) (hb : b ∈ rows) (h : key a = key b) : a = b :=
  List.inj_on_of_nodup_map hrows ha hb h

/-- Rows whose keys differ and are all the same. -/
theorem length_le_one_of_key {key : α → κ} {rows : List α} (hrows : (rows.map key).Nodup)
    (h : ∀ a ∈ rows, ∀ b ∈ rows, key a = key b) : rows.length ≤ 1 := by
  cases rows with
  | nil => simp
  | cons a rows =>
    cases rows with
    | nil => simp
    | cons b rows =>
      have hab : key a = key b := h a (by simp) b (by simp)
      simp [hab] at hrows

theorem nodup_filter_key {key : α → κ} {rows : List α} (hrows : (rows.map key).Nodup)
    (p : α → Bool) : ((rows.filter p).map key).Nodup :=
  hrows.sublist (List.filter_sublist.map key)

/-- The rows of a key. -/
theorem length_filter_le_one {key : α → κ} {rows : List α} (hrows : (rows.map key).Nodup)
    (p : α → Bool) {k : κ} (h : ∀ a, p a = true → key a = k) : (rows.filter p).length ≤ 1 :=
  length_le_one_of_key (nodup_filter_key hrows p) fun a ha b hb =>
    (h a (List.mem_filter.mp ha).2).trans (h b (List.mem_filter.mp hb).2).symm

/-- A selection of at most one row is the first one that is found. -/
theorem filter_eq_toList_find? {key : α → κ} {rows : List α} (hrows : (rows.map key).Nodup)
    (p : α → Bool) {k : κ} (h : ∀ a, p a = true → key a = k) :
    rows.filter p = (rows.find? p).toList := by
  have hlength := length_filter_le_one hrows p h
  rw [← List.head?_filter]
  cases hselected : rows.filter p with
  | nil => rfl
  | cons a rest =>
    rw [hselected, List.length_cons] at hlength
    rw [List.length_eq_zero_iff.mp (show rest.length = 0 by omega)]
    rfl

/-- Rows that are replaced by one that is not selected are gone from the selection. -/
theorem filter_map_replace {p : α → Bool} (q : α → Prop) [DecidablePred q] {a : α}
    (ha : p a = false) (rows : List α) :
    (rows.map fun x => if q x then a else x).filter p =
      (rows.filter p).filter fun x => ¬ q x := by
  induction rows with
  | nil => rfl
  | cons x rows ih =>
    by_cases hq : q x
    · cases hp : p x <;> simpa [hq, ha, hp] using ih
    · cases hp : p x <;> simpa [hq, hp] using ih

theorem length_flatMap_le_one {rows : List α} {f : α → List β} (hrows : rows.length ≤ 1)
    (hf : ∀ a ∈ rows, (f a).length ≤ 1) : (rows.flatMap f).length ≤ 1 := by
  cases rows with
  | nil => simp
  | cons a rows =>
    have hnil : rows = [] := by
      rw [List.length_cons] at hrows
      exact List.eq_nil_of_length_eq_zero (by omega)
    simpa [hnil] using hf a (by simp)

/-- **A join that makes at most one row of each row** keeps the keys apart. -/
theorem nodup_map_flatMap {key : α → κ} {key' : β → κ} {rows : List α} {f : α → List β}
    (hrows : (rows.map key).Nodup) (hkey : ∀ a ∈ rows, ∀ b ∈ f a, key' b = key a)
    (hf : ∀ a ∈ rows, (f a).length ≤ 1) : ((rows.flatMap f).map key').Nodup := by
  induction rows with
  | nil => simp
  | cons a rows ih =>
    rw [List.map_cons, List.nodup_cons] at hrows
    have hrest := ih hrows.2 (fun x hx => hkey x (by simp [hx])) fun x hx => hf x (by simp [hx])
    rw [List.flatMap_cons, List.map_append]
    refine List.Nodup.append ?_ hrest ?_
    · have hone := hf a (by simp)
      cases hfa : f a with
      | nil => simp
      | cons b bs =>
        rw [hfa, List.length_cons] at hone
        obtain rfl : bs = [] := List.eq_nil_of_length_eq_zero (by omega)
        simp
    · intro k hk hk'
      obtain ⟨b, hb, rfl⟩ := List.mem_map.mp hk
      obtain ⟨c, hc, hbc⟩ := List.mem_map.mp hk'
      obtain ⟨x, hx, hcx⟩ := List.mem_flatMap.mp hc
      have hax : key a = key x := by
        rw [← hkey a (by simp) b hb, ← hkey x (by simp [hx]) c hcx, hbc]
      exact hrows.1 (hax ▸ List.mem_map_of_mem hx)

end Pensar.Computation
