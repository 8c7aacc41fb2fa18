import Pensar.Analysis.ContactRemoval
import Pensar.Analysis.PersonRegister

/-!
# What is left of a person that was removed

Ids are not used again, and what refers to a person is removed with the person.  So no later call
brings anything back under the id of a person that was removed.

Main result: `removed_person_leaves_no_trace`.
-/

set_option autoImplicit false

namespace Pensar.Analysis

open Pensar.Computation
open Pensar.Model

variable {V D : Type} (ts : TextSearch V) (dates : DateText D)

/-! ## Ids that are gone -/

/-- **An id that was handed out and is not there** does not come back. -/
theorem absent_run {s : ContactTables V D} {k : RowKey} (hk : k ∉ s.rows.map Row.key)
    (hid : k.2 ≤ s.lastId k.1) (calls : List (DaoCall D × Fate)) :
    k ∉ ((contactSystem ts dates).run s calls).rows.map Row.key := by
  intro h
  rcases keys_run ts dates s calls h with hold | hnew
  · exact hk hold
  · exact absurd (lt_of_mem_grantedIds ts dates k.1 s calls _ hnew) (not_lt.mpr hid)

/-- A person that is removed is not there, and neither is it later. -/
theorem removed_run (calls later : List (DaoCall D × Fate)) {id : ℤ}
    (hthere : (Table.tPerson, id) ∈ (reached ts dates calls).rows.map Row.key) (skipped : ℕ) :
    (Table.tPerson, id) ∉
      (reached ts dates (calls ++ (.removePerson id, ⟨skipped, false⟩) :: later)).rows.map
        Row.key := by
  have hids : ∀ k ∈ (reached ts dates calls).rows.map Row.key,
      k.2 ≤ (reached ts dates calls).lastId k.1 :=
    (contactSystem ts dates).run_invariant (fun s => ∀ k ∈ s.rows.map Row.key, k.2 ≤ s.lastId k.1)
      (fun s i h => (contactSystem_change ts dates s i.1 i.2).ids h) .installed calls
      fun k hk => absurd hk List.not_mem_nil
  rw [reached, Machine.run_append, Machine.run_cons]
  refine absent_run ts dates (s := ((contactSystem ts dates).step (reached ts dates calls)
    (.removePerson id, ⟨skipped, false⟩)).1) (fun hkey => ?_) (hids _ hthere) later
  obtain ⟨x, hx, hkept, hxkey⟩ := Row.schema.mem_keys_delete.mp hkey
  exact hkept (.here hx hxkey)

/-! ## What the queries find -/

/-- Nothing is found for that id: no person, no contacts, relations, roles or rules; nobody can see
data of it, and it can see none. -/
structure NoTrace [LinearOrder D] (dates : DateText D) (s : ContactTables V D) (id : ℤ) : Prop where
  person : PersonDAO.findById dates s id = none
  phones : ∀ order, s.phonesForPerson order id = []
  emails : ∀ order, s.emailsForPerson order id = []
  addresses : ∀ order, s.addressesForPerson order id = []
  relations : ∀ order, RoleDAO.relationsForPerson dates order s id = []
  roles : ∀ order, RoleDAO.rolesForPerson dates order s id = some []
  rules : ∀ order, s.rulesForOwner order id = []
  hidden : ∀ viewer category,
    VisibilityDAO.canView s.visibilityTables id viewer category = some false
  blind : ∀ owner category,
    VisibilityDAO.canView s.visibilityTables owner id category = some false

section Absent

variable {s : ContactTables V D} {id : ℤ}

theorem findById_of_absent (hid : (Table.tPerson, id) ∉ s.rows.map Row.key) :
    PersonDAO.findById dates s id = none := by
  rw [PersonDAO.findById, Option.map_eq_none_iff, List.find?_eq_none]
  intro r hr hkey
  refine hid (List.mem_map.mpr ⟨.person r, mem_select_person.mp hr, ?_⟩)
  exact congrArg (Prod.mk _) (of_decide_eq_true hkey)

/-- Nothing is found that would refer to a person that is not there. -/
theorem filter_of_absent (hrows : Row.schema.Consistent s.rows)
    (hid : (Table.tPerson, id) ∉ s.rows.map Row.key) {α : Type} {kind : Row V D → Option α}
    {p : α → Bool}
    (hrefers : ∀ r a, kind r = some a → p a = true → (Table.tPerson, id) ∈ r.cascade) :
    (Row.select kind s.rows).filter p = [] := by
  rw [List.filter_eq_nil_iff]
  intro a ha hp
  obtain ⟨r, hr, hkind⟩ := List.mem_filterMap.mp ha
  exact hid (hrows.cascade r hr _ (hrefers r a hkind hp))

theorem canView_of_absent (hrows : Row.schema.Consistent s.rows)
    (hid : (Table.tPerson, id) ∉ s.rows.map Row.key) {owner viewer : ℤ}
    (h : owner = id ∨ viewer = id) (category : SqlText) :
    VisibilityDAO.canView s.visibilityTables owner viewer category = some false := by
  have hnone : VisibilityDAO.counted s.visibilityTables owner viewer category = [] := by
    refine filter_of_absent hrows hid fun r a hkind hcounted => ?_
    cases r with
    | dataVisibility r =>
      cases hkind
      simp only [Bool.and_eq_true, decide_eq_true_eq] at hcounted
      rcases h with rfl | rfl
      · rw [Row.cascade, ← hcounted.1.1.1]
        exact List.mem_cons_self
      · simp [Row.cascade, Row.persons, hcounted.1.1.2]
    | _ => cases hkind
  rw [VisibilityDAO.canView, hnone]
  rfl

theorem noTrace_of_absent [LinearOrder D] (hrows : Row.schema.Consistent s.rows)
    (hid : (Table.tPerson, id) ∉ s.rows.map Row.key) : NoTrace dates s id where
  person := findById_of_absent dates hid
  phones order := by
    rw [ContactTables.phonesForPerson, filter_of_absent hrows hid,
      (order.sort_eq_nil_iff []).mpr rfl, List.map_nil]
    intro r a hkind hperson
    cases r with
    | phone r =>
      cases hkind
      simp [Row.cascade, Row.persons, of_decide_eq_true hperson]
    | _ => cases hkind
  emails order := by
    rw [ContactTables.emailsForPerson, filter_of_absent hrows hid,
      (order.sort_eq_nil_iff []).mpr rfl, List.map_nil]
    intro r a hkind hperson
    cases r with
    | email r =>
      cases hkind
      simp [Row.cascade, Row.persons, of_decide_eq_true hperson]
    | _ => cases hkind
  addresses order := by
    rw [ContactTables.addressesForPerson, filter_of_absent hrows hid,
      (order.sort_eq_nil_iff []).mpr rfl, List.map_nil]
    intro r a hkind hperson
    cases r with
    | address r =>
      cases hkind
      simp [Row.cascade, Row.persons, of_decide_eq_true hperson]
    | _ => cases hkind
  relations order := by
    rw [RoleDAO.relationsForPerson, filter_of_absent hrows hid,
      (order.sort_eq_nil_iff []).mpr rfl, List.map_nil]
    intro r a hkind hperson
    cases r with
    | personOrgRelation r =>
      cases hkind
      simp [Row.cascade, of_decide_eq_true hperson]
    | _ => cases hkind
  roles order := by
    rw [RoleDAO.rolesForPerson, filter_of_absent hrows hid, (order.sort_eq_nil_iff []).mpr rfl]
    · rfl
    intro r a hkind hperson
    cases r with
    | personRole r =>
      cases hkind
      simp [Row.cascade, of_decide_eq_true hperson]
    | _ => cases hkind
  rules order := by
    rw [ContactTables.rulesForOwner, filter_of_absent hrows hid,
      (order.sort_eq_nil_iff []).mpr rfl, List.map_nil]
    intro r a hkind howner
    cases r with
    | dataVisibility r =>
      cases hkind
      rw [Row.cascade, of_decide_eq_true howner]
      exact List.mem_cons_self
    | _ => cases hkind
  hidden _ := canView_of_absent hrows hid (Or.inl rfl)
  blind _ := canView_of_absent hrows hid (Or.inr rfl)

end Absent

/-- **A person that was removed leaves no trace**, however the calls go on after the remove. -/
theorem removed_person_leaves_no_trace [LinearOrder D] (calls later : List (DaoCall D × Fate))
    {id : ℤ} (hthere : PersonDAO.findById dates (reached ts dates calls) id ≠ none)
    (skipped : ℕ) :
    NoTrace dates (reached ts dates (calls ++ (.removePerson id, ⟨skipped, false⟩) :: later))
      id := by
  have hkey : (Table.tPerson, id) ∈ (reached ts dates calls).rows.map Row.key := by
    by_contra habsent
    exact hthere (findById_of_absent dates habsent)
  exact noTrace_of_absent dates (reached_consistent ts dates _)
    (removed_run ts dates calls later hkey skipped)

theorem removed_person_leaves_no_trace_ana :
    NoTrace writtenDates (reached plainSearch writtenDates
      [(.insertPerson ana, {}), (.removePerson 1, {}), (.insertPerson ana, {})]) 1 :=
  removed_person_leaves_no_trace plainSearch writtenDates [(.insertPerson ana, {})]
    [(.insertPerson ana, {})] (by rw [findById_ana]; exact Option.some_ne_none _) 0

end Pensar.Analysis
