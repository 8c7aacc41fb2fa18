import Pensar.Analysis.ContactIntegrity

/-!
# What a remove takes along

A row that is removed takes along the rows that refer to it with `ON DELETE CASCADE`, and these the
rows that refer to them.  In this schema a chain of such references has at most two steps: from an
assignment, a name or a rule to a role, and from the role to its unit.

Main results: `removeRow_exact`, `removeAll_exact`.
-/

set_option autoImplicit false

namespace Pensar.Analysis

open Pensar.Computation
open Pensar.Model

variable {V D : Type}

/-- The row is the one of that key, refers to it, or refers to a row that does. -/
def DependsOn (rows : List (Row V D)) (k : RowKey) (r : Row V D) : Prop :=
  r.key = k ∨ k ∈ r.cascade ∨ ∃ q ∈ rows, k ∈ q.cascade ∧ q.key ∈ r.cascade

instance (rows : List (Row V D)) (k : RowKey) : DecidablePred (DependsOn rows k) :=
  fun _ => inferInstanceAs (Decidable (_ ∨ _ ∨ _))

/-- The children of a unit lose their parent. -/
def detach (k : RowKey) (r : Row V D) : Row V D := r.setNull fun j => j = k

/-! ## Chains of references -/

/-- The tables that are referred to. -/
def IsTarget (t : Table) : Prop := t = .tPerson ∨ t = .tOrgUnit ∨ t = .tRole

theorem mem_persons {k : RowKey} {id : Option ℤ} (h : k ∈ Row.persons id) : k.1 = .tPerson := by
  obtain ⟨_, -, rfl⟩ := List.mem_map.mp h
  rfl

theorem mem_orgUnits {k : RowKey} {id : Option ℤ} (h : k ∈ Row.orgUnits id) : k.1 = .tOrgUnit := by
  obtain ⟨_, -, rfl⟩ := List.mem_map.mp h
  rfl

theorem mem_roles {k : RowKey} {id : Option ℤ} (h : k ∈ Row.roles id) : k.1 = .tRole := by
  obtain ⟨_, -, rfl⟩ := List.mem_map.mp h
  rfl

/-- A row of an owner refers to a person or to a unit. -/
theorem isTarget_of_owned {k : RowKey} {personId orgUnitId : Option ℤ}
    (h : k ∈ Row.persons personId ++ Row.orgUnits orgUnitId) : IsTarget k.1 := by
  rcases List.mem_append.mp h with h | h
  · exact Or.inl (mem_persons h)
  · exact Or.inr (Or.inl (mem_orgUnits h))

theorem isTarget_of_mem_cascade {r : Row V D} {k : RowKey} (h : k ∈ r.cascade) :
    IsTarget k.1 := by
  cases r with
  | person r => cases h
  | orgUnit r => cases h
  | localizedOrgUnit r =>
    obtain rfl := List.mem_singleton.mp h
    exact Or.inr (Or.inl rfl)
  | phone r => exact isTarget_of_owned h
  | email r => exact isTarget_of_owned h
  | address r => exact isTarget_of_owned h
  | role r => exact Or.inr (Or.inl (mem_orgUnits h))
  | localizedRole r =>
    obtain rfl := List.mem_singleton.mp h
    exact Or.inr (Or.inr rfl)
  | personOrgRelation r =>
    rcases List.mem_pair.mp h with rfl | rfl
    · exact Or.inl rfl
    · exact Or.inr (Or.inl rfl)
  | personRole r =>
    rcases List.mem_pair.mp h with rfl | rfl
    · exact Or.inl rfl
    · exact Or.inr (Or.inr rfl)
  | dataVisibility r =>
    rcases List.mem_cons.mp h with rfl | h
    · exact Or.inl rfl
    · rcases List.mem_append.mp h with h | h
      · rcases List.mem_append.mp h with h | h
        · exact Or.inl (mem_persons h)
        · exact Or.inr (Or.inr (mem_roles h))
      · exact Or.inr (Or.inl (mem_orgUnits h))

/-- Of the rows that are referred to, only a role refers to something itself: its unit. -/
theorem cascade_of_target {r : Row V D} {k : RowKey} (ht : IsTarget r.key.1)
    (h : k ∈ r.cascade) : r.key.1 = .tRole ∧ k.1 = .tOrgUnit := by
  cases r with
  | person r => cases h
  | orgUnit r => cases h
  | role r => exact ⟨rfl, mem_orgUnits h⟩
  | _ =>
    rcases ht with ht | ht | ht
    · cases ht
    · cases ht
    · cases ht

variable {rows : List (Row V D)}

theorem dependsOn_of_gone {k : RowKey} {r : Row V D} (h : Row.schema.Gone rows k r) :
    DependsOn rows k r := by
  induction h with
  | here _ hkey => exact Or.inl hkey
  | @refers q r hq hr h ih =>
    rcases ih with hkey | hrefers | ⟨q', -, hk, hq'⟩
    · exact Or.inr (Or.inl (hkey ▸ h))
    · exact Or.inr (Or.inr ⟨q, hq.mem, hrefers, h⟩)
    · -- a third step would lead from a unit
      have hunit := (cascade_of_target (isTarget_of_mem_cascade h) hq').2
      have hrole := (cascade_of_target (isTarget_of_mem_cascade hq') hk).1
      rw [hunit] at hrole
      cases hrole

theorem gone_of_dependsOn (hrows : Row.schema.Consistent rows) {k : RowKey} {r : Row V D}
    (hr : r ∈ rows) (h : DependsOn rows k r) : Row.schema.Gone rows k r := by
  have hdirect : ∀ q ∈ rows, k ∈ q.cascade → Row.schema.Gone rows k q := by
    intro q hq hk
    obtain ⟨x, hx, hkey⟩ := List.mem_map.mp (hrows.cascade q hq k hk)
    exact .refers (.here hx hkey) hq (hkey ▸ hk)
  rcases h with hkey | hrefers | ⟨q, hq, hk, hqr⟩
  · exact .here hr hkey
  · exact hdirect r hr hrefers
  · exact .refers (hdirect q hq hk) hr hqr

theorem gone_iff_dependsOn (hrows : Row.schema.Consistent rows) {k : RowKey} {r : Row V D}
    (hr : r ∈ rows) : Row.schema.Gone rows k r ↔ DependsOn rows k r :=
  ⟨dependsOn_of_gone, gone_of_dependsOn hrows hr⟩

/-- A row refers weakly to units, and a unit is gone only if it is the one that is removed. -/
theorem gone_weak_iff (hrows : Row.schema.Consistent rows) {k j : RowKey} {r : Row V D}
    (hr : r ∈ rows) (hj : j ∈ r.weak) :
    (∃ q, Row.schema.Gone rows k q ∧ Row.schema.key q = j) ↔ j = k := by
  have hunit : j.1 = .tOrgUnit := by
    cases r with
    | orgUnit r => exact mem_orgUnits hj
    | _ => cases hj
  constructor
  · rintro ⟨q, hq, rfl⟩
    cases hq with
    | here _ hkey => exact hkey
    | @refers x q hx hq h =>
      have htarget : IsTarget q.key.1 := Or.inr (Or.inl hunit)
      have hrole := (cascade_of_target htarget h).1
      rw [show q.key.1 = .tOrgUnit from hunit] at hrole
      cases hrole
  · rintro rfl
    obtain ⟨q, hq, hkey⟩ := List.mem_map.mp (hrows.weak r hr j hj)
    exact ⟨q, .here hq hkey, hkey⟩

/-- **A delete**, in a consistent database. -/
theorem delete_eq_filter (hrows : Row.schema.Consistent rows) (k : RowKey) :
    Row.schema.delete rows k = (rows.filter fun r => ¬ DependsOn rows k r).map (detach k) := by
  classical
  rw [Row.schema.delete_eq]
  have hfilter : (rows.filter fun r => ¬ Row.schema.Gone rows k r) =
      rows.filter fun r => ¬ DependsOn rows k r :=
    List.filter_congr fun r hr => by rw [decide_eq_decide, gone_iff_dependsOn hrows hr]
  rw [hfilter]
  refine List.map_congr_left fun r hr => ?_
  have hmem := (List.mem_filter.mp hr).1
  show Row.schema.setNull _ r = Row.schema.setNull (fun j => decide (j = k)) r
  refine Row.schema.setNull_congr _ _ r fun j hj => ?_
  rw [decide_eq_decide, gone_weak_iff hrows hmem hj]

/-- What is left is read as what was there is. -/
theorem filterMap_filter_of {α β : Type} {f : α → Option β} {p : α → Bool} {q : β → Bool}
    {l : List α} (h : ∀ a ∈ l, ∀ b, f a = some b → p a = q b) :
    (l.filter p).filterMap f = (l.filterMap f).filter q := by
  induction l with
  | nil => rfl
  | cons a l ih =>
    have hrest := ih fun a ha => h a (List.mem_cons_of_mem _ ha)
    cases hf : f a with
    | none =>
      cases hp : p a <;> simp [hp, hf, hrest]
    | some b =>
      have hpq := h a List.mem_cons_self b hf
      cases hp : p a <;> rw [hp] at hpq <;> simp [hp, hf, hrest, ← hpq]

/-- What a delete leaves of another table than that of the units. -/
theorem filterMap_delete (hrows : Row.schema.Consistent rows) (k : RowKey) {α : Type}
    {kind : Row V D → Option α} (hkind : ∀ o, kind (.orgUnit o) = none) {q : α → Bool}
    (h : ∀ r ∈ rows, ∀ a, kind r = some a → (DependsOn rows k r ↔ q a = true)) :
    (Row.schema.delete rows k).filterMap kind = (rows.filterMap kind).filter fun a => !q a := by
  have hdetach : ∀ r : Row V D, (kind ∘ detach k) r = kind r := by
    intro r
    cases r with
    | orgUnit o => exact (hkind _).trans (hkind o).symm
    | _ => rfl
  rw [delete_eq_filter hrows, List.filterMap_map, show kind ∘ detach k = kind from funext hdetach]
  refine filterMap_filter_of fun r hr a ha => ?_
  rw [Bool.eq_iff_iff, decide_eq_true_iff, h r hr a ha]
  simp

/-- Only units change when they are detached. -/
theorem mem_delete_iff (hrows : Row.schema.Consistent rows) {k : RowKey} {r : Row V D}
    (hunit : r.orgUnit? = none) :
    r ∈ Row.schema.delete rows k ↔ r ∈ rows ∧ ¬ DependsOn rows k r := by
  rw [delete_eq_filter hrows, List.mem_map]
  constructor
  · rintro ⟨x, hx, rfl⟩
    obtain ⟨hmem, hkept⟩ := List.mem_filter.mp hx
    cases x with
    | orgUnit o => cases hunit
    | _ => exact ⟨hmem, of_decide_eq_true hkept⟩
  · rintro ⟨hmem, hkept⟩
    refine ⟨r, List.mem_filter.mpr ⟨hmem, decide_eq_true hkept⟩, ?_⟩
    cases r with
    | orgUnit o => cases hunit
    | _ => rfl

/-! ## The calls -/

/-- **What a remove leaves**, after any calls: of every table the rows that do not depend on the
removed one, as they were, except that the children of a unit have no parent now.  The answer says
whether the row was there. -/
theorem removeRow_exact (ts : TextSearch V) (dates : DateText D)
    (calls : List (DaoCall D × Fate)) (key : RowKey) (skipped : ℕ) :
    (reached ts dates calls).removeRow key ⟨skipped, false⟩ =
      (⟨((reached ts dates calls).rows.filter fun r =>
          ¬ DependsOn (reached ts dates calls).rows key r).map (detach key),
        (reached ts dates calls).lastId⟩,
        .found ((reached ts dates calls).rows.any fun r => r.key = key)) := by
  rw [← delete_eq_filter (reached_consistent ts dates calls) key]
  rfl

/-- Several rows are removed one after another. -/
def removeAll (s : ContactTables V D) (keys : List (RowKey × Fate)) : ContactTables V D :=
  keys.foldl (fun s key => (s.removeRow key.1 key.2).1) s

/-- The keys of the removes that are carried out. -/
def carriedOut (keys : List (RowKey × Fate)) : List RowKey :=
  (keys.filter fun key => key.2.refused = false).map Prod.fst

theorem removeAll_eq (s : ContactTables V D) (keys : List (RowKey × Fate)) :
    removeAll s keys = ⟨Row.schema.deleteAll s.rows (carriedOut keys), s.lastId⟩ := by
  induction keys generalizing s with
  | nil => rfl
  | cons key keys ih =>
    rw [removeAll, List.foldl_cons, ← removeAll, ih]
    rcases s.removeRow_cases key.1 key.2 with ⟨hfate, heq⟩ | ⟨hfate, heq⟩
    · rw [heq, show carriedOut (key :: keys) = key.1 :: carriedOut keys by simp [carriedOut, hfate]]
      rfl
    · rw [heq, show carriedOut (key :: keys) = carriedOut keys by simp [carriedOut, hfate]]

/-- **What several removes leave**, after any calls: the rows that depend on none of those that are
removed, so that the removes can come in any order. -/
theorem removeAll_exact (ts : TextSearch V) (dates : DateText D)
    (calls : List (DaoCall D × Fate)) (keys : List (RowKey × Fate)) :
    removeAll (reached ts dates calls) keys =
      ⟨((reached ts dates calls).rows.filter fun r =>
          ∀ key ∈ carriedOut keys, ¬ DependsOn (reached ts dates calls).rows key r).map
        (Row.setNull fun j => j ∈ carriedOut keys), (reached ts dates calls).lastId⟩ := by
  classical
  have hrows := reached_consistent ts dates calls
  rw [removeAll_eq, Row.schema.deleteAll_eq]
  refine congrArg (ContactTables.mk · _) ?_
  have hfilter : ((reached ts dates calls).rows.filter fun r =>
      ¬ ∃ k ∈ carriedOut keys, Row.schema.Gone (reached ts dates calls).rows k r) =
      (reached ts dates calls).rows.filter fun r =>
        ∀ key ∈ carriedOut keys, ¬ DependsOn (reached ts dates calls).rows key r := by
    refine List.filter_congr fun r hr => ?_
    rw [decide_eq_decide]
    simp only [gone_iff_dependsOn hrows hr, not_exists, not_and]
  rw [hfilter]
  refine List.map_congr_left fun r hr => ?_
  have hmem := (List.mem_filter.mp hr).1
  show Row.schema.setNull _ r = Row.schema.setNull (fun j => decide (j ∈ carriedOut keys)) r
  refine Row.schema.setNull_congr _ _ r fun j hj => ?_
  rw [decide_eq_decide]
  constructor
  · rintro ⟨q, ⟨k, hk, hgone⟩, hkey⟩
    rwa [(gone_weak_iff hrows hmem hj).mp ⟨q, hgone, hkey⟩]
  · intro hk
    obtain ⟨q, hgone, hkey⟩ := (gone_weak_iff hrows hmem hj).mpr (rfl : j = j)
    exact ⟨q, ⟨j, hk, hgone⟩, hkey⟩

end Pensar.Analysis
