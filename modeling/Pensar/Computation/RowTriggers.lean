import Mathlib.Data.List.Nodup
import Pensar.Computation.Replay

/-!
# What the triggers of a table see

A statement updates or deletes some of the rows of a table and inserts others.  A trigger that is
declared for each row runs once for each of them, with what the row was and what it is.

The rows that a statement does not come to are as they were.  So the changes that the trigger sees
lead from the rows before to the rows after, in whichever order they come.

Main results: `rowChanges_swap`, `Change.replay_rowChanges`.
-/

set_option autoImplicit false

namespace Pensar.Computation

/-! ## Changes of several elements -/

namespace Change

variable {α β : Type}

/-- The elements that changes take. -/
def olds (changes : List (Change α)) : Multiset α := (changes.filterMap old? : List α)

/-- The elements that changes give. -/
def news (changes : List (Change α)) : Multiset α := (changes.filterMap new? : List α)

theorem olds_map (f : α → β) (changes : List (Change α)) :
    olds (changes.map (map f)) = (olds changes).map f := by
  simp [olds, List.filterMap_map, List.map_filterMap]

theorem news_map (f : α → β) (changes : List (Change α)) :
    news (changes.map (map f)) = (news changes).map f := by
  simp [news, List.filterMap_map, List.map_filterMap]

theorem olds_perm {changes other : List (Change α)} (h : changes.Perm other) :
    olds changes = olds other := Multiset.coe_eq_coe.mpr (h.filterMap old?)

theorem news_perm {changes other : List (Change α)} (h : changes.Perm other) :
    news changes = news other := Multiset.coe_eq_coe.mpr (h.filterMap new?)

/-- **The replay rule for several changes** that take elements which are all there. -/
theorem replay_append_swap [DecidableEq α] {bag rest : Multiset α} {changes more : List (Change α)}
    (h : replay bag changes = some (olds more + rest)) :
    replay bag (changes ++ more) = some (news more + rest) := by
  induction more generalizing changes rest with
  | nil =>
    rw [List.append_nil, h]
    rfl
  | cons c more ih =>
    have hold : olds (c :: more) + rest = present c.old? + (olds more + rest) := by
      rw [olds, coe_filterMap_cons, add_assoc]
      rfl
    have hnew : news (c :: more) + rest = news more + (present c.new? + rest) := by
      rw [news, coe_filterMap_cons, add_comm (present _), add_assoc]
      rfl
    rw [hold] at h
    have hone : replay bag (changes ++ [c]) = some (olds more + (present c.new? + rest)) := by
      rw [replay_concat_swap h, add_left_comm]
    rw [hnew, List.append_cons]
    exact ih hone

end Change

/-! ## The changes of a statement -/

section Rows

variable {R K : Type} [DecidableEq K] (key : R → K)

/-- The row of a key. -/
def rowAt (rows : List R) (k : K) : Option R := rows.find? fun s => key s = k

/-- What has become of a row. -/
def became (after : List R) (r : R) : Change R :=
  match rowAt key after (key r) with
  | some s => .updated r s
  | none => .deleted r

/-- The changes of the rows that a statement comes to, which are those of `hit` and the new
ones. -/
def rowChanges (hit : R → Bool) (before after : List R) : List (Change R) :=
  (before.filter hit).map (became key after) ++
    (after.filter fun s => key s ∉ before.map key).map .created

variable {key} {hit : R → Bool} {before after : List R}

theorem rowAt_eq_some_iff (hafter : (after.map key).Nodup) {k : K} {s : R} :
    rowAt key after k = some s ↔ s ∈ after ∧ key s = k := by
  have hfound : ∀ t, rowAt key after k = some t → t ∈ after ∧ key t = k := by
    intro t ht
    have hkey := List.find?_some (show after.find? (fun s => key s = k) = some t from ht)
    exact ⟨List.mem_of_find?_eq_some ht, of_decide_eq_true hkey⟩
  constructor
  · exact hfound s
  · rintro ⟨hs, hkey⟩
    cases hrow : rowAt key after k with
    | none => exact absurd (decide_eq_true hkey) (List.find?_eq_none.mp hrow s hs)
    | some t =>
      obtain ⟨ht, htkey⟩ := hfound t hrow
      exact congrArg some (List.inj_on_of_nodup_map hafter ht hs (htkey.trans hkey.symm))

theorem old?_became (r : R) : (became key after r).old? = some r := by
  unfold became
  split <;> rfl

theorem new?_became (r : R) : (became key after r).new? = rowAt key after (key r) := by
  unfold became
  split
  · next h => exact h.symm
  · next h => exact h.symm

theorem olds_rowChanges :
    Change.olds (rowChanges key hit before after) = (before.filter hit : List R) := by
  have hbecame : Change.old? ∘ became key after = some := funext old?_became
  have hcreated : (Change.old? ∘ Change.created : R → Option R) = fun _ => none := rfl
  unfold Change.olds rowChanges
  rw [List.filterMap_append, List.filterMap_map, List.filterMap_map, hbecame, hcreated,
    List.filterMap_some, List.filterMap_none, List.append_nil]

theorem news_rowChanges :
    Change.news (rowChanges key hit before after) =
      (((before.filter hit).filterMap fun r => rowAt key after (key r)) ++
        after.filter fun s => key s ∉ before.map key : List R) := by
  have hbecame : Change.new? ∘ became key after = fun r => rowAt key after (key r) :=
    funext new?_became
  have hcreated : (Change.new? ∘ Change.created : R → Option R) = some := rfl
  unfold Change.news rowChanges
  rw [List.filterMap_append, List.filterMap_map, List.filterMap_map, hbecame, hcreated,
    List.filterMap_some]

/-- The rows that are still there, found one by one. -/
theorem still_perm (hbefore : (before.map key).Nodup) (hafter : (after.map key).Nodup) :
    (after.filter fun s => key s ∈ before.map key).Perm
      (before.filterMap fun r => rowAt key after (key r)) := by
  have hkeys : ((before.filterMap fun r => rowAt key after (key r)).map key).Sublist
      (before.map key) := by
    clear hbefore
    induction before with
    | nil => exact List.Sublist.refl _
    | cons r before ih =>
      rw [List.filterMap_cons]
      cases hrow : rowAt key after (key r) with
      | none => exact ih.cons _
      | some s =>
        rw [List.map_cons, List.map_cons, ((rowAt_eq_some_iff hafter).mp hrow).2]
        exact ih.cons_cons _
  have hfound := List.Nodup.of_map key (hkeys.nodup hbefore)
  refine (List.perm_ext_iff_of_nodup ((hafter.of_map key).filter _) hfound).mpr fun s => ?_
  simp only [List.mem_filter, List.mem_filterMap, rowAt_eq_some_iff hafter, List.mem_map,
    decide_eq_true_eq]
  constructor
  · rintro ⟨hs, r, hr, hkey⟩
    exact ⟨r, hr, hs, hkey.symm⟩
  · rintro ⟨r, hr, hs, hkey⟩
    exact ⟨hs, r, hr, hkey.symm⟩

/-- **What the changes of a statement take and give**, besides the rows that it does not come
to. -/
theorem rowChanges_swap (hbefore : (before.map key).Nodup) (hafter : (after.map key).Nodup)
    (hmissed : ∀ r ∈ before, hit r = false → r ∈ after) :
    ∃ rest : Multiset R,
      (before : Multiset R) = Change.olds (rowChanges key hit before after) + rest ∧
      (after : Multiset R) = Change.news (rowChanges key hit before after) + rest := by
  have hkept : ((before.filter fun r => !hit r).filterMap fun r => rowAt key after (key r)) =
      before.filter fun r => !hit r := by
    refine (List.filterMap_congr fun r hr => ?_).trans List.filterMap_some
    obtain ⟨hmem, hhit⟩ := List.mem_filter.mp hr
    exact (rowAt_eq_some_iff hafter).mpr ⟨hmissed r hmem (by simpa using hhit), rfl⟩
  -- what is still there are the rows that are hit and still there, and those that are missed
  have hstill := (still_perm hbefore hafter).trans
    ((List.filter_append_perm hit before).symm.filterMap _)
  rw [List.filterMap_append, hkept] at hstill
  have hall : after.Perm ((after.filter fun s => key s ∈ before.map key) ++
      after.filter fun s => key s ∉ before.map key) := by
    simp only [decide_not]
    exact (List.filter_append_perm (fun s => decide (key s ∈ before.map key)) after).symm
  refine ⟨(before.filter fun r => !hit r : List R), ?_, ?_⟩
  · rw [olds_rowChanges, Multiset.coe_add]
    exact Multiset.coe_eq_coe.mpr (List.filter_append_perm hit before).symm
  · rw [news_rowChanges, Multiset.coe_add]
    refine Multiset.coe_eq_coe.mpr (hall.trans ((hstill.append_right _).trans ?_))
    rw [List.append_assoc, List.append_assoc]
    exact List.perm_append_comm.append_left _

/-- **The replay rule for a statement.** -/
theorem Change.replay_rowChanges {J : Type} [DecidableEq J] (f : R → J) {bag : Multiset J}
    {changes : List (Change J)} {more : List (Change R)}
    (hbefore : (before.map key).Nodup) (hafter : (after.map key).Nodup)
    (hmissed : ∀ r ∈ before, hit r = false → r ∈ after)
    (hmore : more.Perm (rowChanges key hit before after))
    (h : replay bag changes = some ((before : Multiset R).map f)) :
    replay bag (changes ++ more.map (map f)) = some ((after : Multiset R).map f) := by
  obtain ⟨rest, hold, hnew⟩ := rowChanges_swap hbefore hafter hmissed
  rw [hold, Multiset.map_add, ← olds_perm hmore, ← olds_map] at h
  rw [hnew, Multiset.map_add, ← news_perm hmore, ← news_map]
  exact replay_append_swap h

end Rows

end Pensar.Computation
