import Mathlib.Data.Multiset.MapFold
import Pensar.Computation.RowTriggers

/-!
# The life of one row

A row is created once, is updated any number of times, and may be deleted; each of these changes
takes what the one before has left.

Of the changes of a statement at most one is about the row of a key.  So what triggers write about
one key follows the life of its row, whichever rows the statements come to.

Main results: `lifeOf_rowChanges`, `created_first`.
-/

set_option autoImplicit false

namespace Pensar.Computation

/-! ## Lives -/

inductive Life (α : Type) where
  | unborn
  | alive (a : α)
  | gone
  deriving DecidableEq, Repr

section Lives

variable {α : Type} [DecidableEq α]

/-- The life after one more change, `none` if the change does not follow. -/
def Life.step : Life α → Change α → Option (Life α)
  | .unborn, .created new => some (.alive new)
  | .alive a, .updated old new => if a = old then some (.alive new) else none
  | .alive a, .deleted old => if a = old then some .gone else none
  | _, _ => none

/-- The life that changes tell. -/
def lifeOf (changes : List (Change α)) : Option (Life α) := changes.foldlM Life.step .unborn

theorem lifeOf_concat (changes : List (Change α)) (c : Change α) :
    lifeOf (changes ++ [c]) = (lifeOf changes).bind fun life => life.step c := by
  unfold lifeOf
  rw [List.foldlM_append]
  congr 1
  funext life
  rw [List.foldlM_cons]
  exact bind_pure _

end Lives

/-! ## The changes of one row -/

section Rows

variable {R K : Type} [DecidableEq K] {key : R → K} {hit : R → Bool} {before after : List R}

/-- The change is one of the row of that key. -/
def Change.about (key : R → K) (k : K) (c : Change R) : Bool :=
  c.old?.any (fun r => key r = k) || c.new?.any fun r => key r = k

/-- What a statement does to the row of a key. -/
def changeAt (key : R → K) (hit : R → Bool) (before after : List R) (k : K) : List (Change R) :=
  match rowAt key before k with
  | some r => if hit r then [became key after r] else []
  | none => ((rowAt key after k).map .created).toList

theorem about_became (hafter : (after.map key).Nodup) (k : K) (r : R) :
    (became key after r).about key k = decide (key r = k) := by
  unfold Change.about
  rw [old?_became, new?_became]
  cases hrow : rowAt key after (key r) with
  | none => simp
  | some s => simp [((rowAt_eq_some_iff hafter).mp hrow).2]

theorem mem_rowChanges {c : Change R} (hc : c ∈ rowChanges key hit before after) :
    (∀ r, c.old? = some r → r ∈ before) ∧ ∀ r, c.new? = some r → r ∈ after := by
  rcases List.mem_append.mp hc with h | h
  · obtain ⟨r, hr, rfl⟩ := List.mem_map.mp h
    rw [old?_became, new?_became]
    constructor
    · rintro _ ⟨⟩
      exact (List.mem_filter.mp hr).1
    · exact fun s hs => List.mem_of_find?_eq_some hs
  · obtain ⟨s, hs, rfl⟩ := List.mem_map.mp h
    constructor
    · rintro _ ⟨⟩
    · rintro _ ⟨⟩
      exact (List.mem_filter.mp hs).1

theorem length_changeAt_le (k : K) : (changeAt key hit before after k).length ≤ 1 := by
  unfold changeAt
  split
  · split <;> simp
  · cases rowAt key after k <;> simp

theorem rowAt_eq_none_iff {rows : List R} {k : K} : rowAt key rows k = none ↔ k ∉ rows.map key := by
  rw [rowAt, List.find?_eq_none, List.mem_map]
  constructor
  · rintro h ⟨r, hr, hkey⟩
    exact h r hr (decide_eq_true hkey)
  · intro h r hr hkey
    exact h ⟨r, hr, of_decide_eq_true hkey⟩

theorem filter_key {rows : List R} (hrows : (rows.map key).Nodup) (k : K) :
    (rows.filter fun r => key r = k) = (rowAt key rows k).toList := by
  cases hrow : rowAt key rows k with
  | none => exact List.filter_eq_nil_iff.mpr (List.find?_eq_none.mp hrow)
  | some r =>
    obtain ⟨hmem, hkey⟩ := (rowAt_eq_some_iff hrows).mp hrow
    refine List.perm_singleton.mp ((List.perm_ext_iff_of_nodup ((hrows.of_map key).filter _)
      (List.nodup_singleton r)).mpr fun s => ?_)
    rw [List.mem_filter, List.mem_singleton, decide_eq_true_eq]
    constructor
    · rintro ⟨hs, hskey⟩
      exact List.inj_on_of_nodup_map hrows hs hmem (hskey.trans hkey.symm)
    · rintro rfl
      exact ⟨hmem, hkey⟩

theorem filter_about_became (hbefore : (before.map key).Nodup) (hafter : (after.map key).Nodup)
    (k : K) :
    ((before.filter hit).map (became key after)).filter (Change.about key k) =
      ((rowAt key before k).toList.filter hit).map (became key after) := by
  rw [← filter_key hbefore, List.filter_map, List.filter_filter, List.filter_filter]
  congr 1
  refine List.filter_congr fun r _ => ?_
  show ((became key after r).about key k && hit r) = _
  rw [about_became hafter, Bool.and_comm]

theorem filter_about_created (hafter : (after.map key).Nodup) (k : K) :
    ((after.filter fun s => key s ∉ before.map key).map Change.created).filter
        (Change.about key k) =
      ((rowAt key after k).toList.filter fun _ => k ∉ before.map key).map .created := by
  rw [← filter_key hafter, List.filter_map, List.filter_filter, List.filter_filter]
  congr 1
  refine List.filter_congr fun s _ => ?_
  show (decide (key s = k) && decide (key s ∉ before.map key)) = _
  by_cases hkey : key s = k
  · simp [hkey]
  · simp [hkey]

/-- **The rows of a statement, one key at a time.** -/
theorem filter_about_rowChanges (hbefore : (before.map key).Nodup) (hafter : (after.map key).Nodup)
    (k : K) :
    (rowChanges key hit before after).filter (Change.about key k) =
      changeAt key hit before after k := by
  unfold rowChanges changeAt
  rw [List.filter_append, filter_about_became hbefore hafter, filter_about_created hafter]
  cases hrow : rowAt key before k with
  | none =>
    have habsent : decide (k ∉ before.map key) = true :=
      decide_eq_true (rowAt_eq_none_iff.mp hrow)
    rw [habsent, List.filter_true]
    cases rowAt key after k <;> rfl
  | some r =>
    have hthere : decide (k ∉ before.map key) = false := by
      refine decide_eq_false fun habsent => ?_
      rw [rowAt_eq_none_iff.mpr habsent] at hrow
      cases hrow
    rw [hthere, List.filter_false]
    cases hhit : hit r <;> simp [hhit]

theorem mem_keys_of_changeAt {k : K} (h : changeAt key hit before after k ≠ []) :
    k ∈ before.map key ∨ k ∈ after.map key := by
  by_contra hnone
  rw [not_or] at hnone
  refine h ?_
  unfold changeAt
  rw [rowAt_eq_none_iff.mpr hnone.1, rowAt_eq_none_iff.mpr hnone.2]
  rfl

/-- The order in which the rows of a statement come does not matter for one key. -/
theorem filter_about_of_perm (hbefore : (before.map key).Nodup) (hafter : (after.map key).Nodup)
    {changes : List (Change R)} (hchanges : changes.Perm (rowChanges key hit before after)) (k : K) :
    changes.filter (Change.about key k) = changeAt key hit before after k := by
  have hperm := hchanges.filter (Change.about key k)
  rw [filter_about_rowChanges hbefore hafter] at hperm
  have hlength : (changeAt key hit before after k).length ≤ 1 := length_changeAt_le k
  match hat : changeAt key hit before after k with
  | [] => exact List.perm_nil.mp (hat ▸ hperm)
  | [c] => exact List.perm_singleton.mp (hat ▸ hperm)
  | _ :: _ :: _ => simp [hat] at hlength

/-- The life of the row of a key in those rows: of one that is not there it is known whether it was
ever there. -/
def lifeAt {J : Type} (key : R → K) (f : R → J) (rows : List R) (k : K) (born : Prop)
    [Decidable born] : Life J :=
  match rowAt key rows k with
  | some r => .alive (f r)
  | none => if born then .gone else .unborn

theorem lifeAt_eq_alive_iff {J : Type} {f : R → J} {rows : List R} (hrows : (rows.map key).Nodup)
    {k : K} {born : Prop} [Decidable born] {j : J} :
    lifeAt key f rows k born = .alive j ↔ ∃ r ∈ rows, key r = k ∧ f r = j := by
  unfold lifeAt
  cases hrow : rowAt key rows k with
  | none =>
    refine iff_of_false ?_ ?_
    · dsimp only
      split <;> exact nofun
    · rintro ⟨r, hr, rfl, -⟩
      exact rowAt_eq_none_iff.mp hrow (List.mem_map_of_mem hr)
  | some r =>
    obtain ⟨hr, hkey⟩ := (rowAt_eq_some_iff hrows).mp hrow
    dsimp only
    rw [Life.alive.injEq]
    constructor
    · exact fun hj => ⟨r, hr, hkey, hj⟩
    · rintro ⟨x, hx, hxkey, hj⟩
      rw [List.inj_on_of_nodup_map hrows hr hx (hkey.trans hxkey.symm), hj]

/-- **The life of a row under a statement.**  A row that was there before does not come again. -/
theorem lifeOf_rowChanges {J : Type} [DecidableEq J] (f : R → J) {k : K}
    {told : List (Change J)} (hbefore : (before.map key).Nodup) (hafter : (after.map key).Nodup)
    (hmissed : ∀ r ∈ before, hit r = false → r ∈ after)
    (hnew : k ∈ after.map key → k ∉ before.map key → told = [])
    (h : lifeOf told = some (lifeAt key f before k (told ≠ []))) :
    lifeOf (told ++ (changeAt key hit before after k).map (Change.map f)) =
      some (lifeAt key f after k
        (told ++ (changeAt key hit before after k).map (Change.map f) ≠ [])) := by
  unfold changeAt
  unfold lifeAt at h ⊢
  cases hrow : rowAt key before k with
  | none =>
    rw [hrow] at h
    cases hrow' : rowAt key after k with
    | none => simpa using h
    | some s =>
      obtain ⟨hs, hkey⟩ := (rowAt_eq_some_iff hafter).mp hrow'
      obtain rfl := hnew (hkey ▸ List.mem_map_of_mem hs) (rowAt_eq_none_iff.mp hrow)
      rfl
  | some r =>
    rw [hrow] at h
    obtain ⟨hr, hkey⟩ := (rowAt_eq_some_iff hbefore).mp hrow
    cases hhit : hit r with
    | false =>
      have hsame : rowAt key after k = some r :=
        (rowAt_eq_some_iff hafter).mpr ⟨hmissed r hr hhit, hkey⟩
      rw [hsame]
      simpa [hhit] using h
    | true =>
      simp only [hhit, if_true, List.map_cons, List.map_nil]
      rw [lifeOf_concat, h, Option.bind_some]
      unfold became
      rw [hkey]
      cases hrow' : rowAt key after k with
      | none => simp [Change.map, Life.step]
      | some s => simp [Change.map, Life.step]

end Rows

end Pensar.Computation
