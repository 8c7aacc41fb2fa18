import Pensar.Model.ContactSystem

/-!
# The integrity of the contact database

The calls of the DAO classes insert, update and remove rows of eleven tables that refer to each
other.  A remove checks nothing: whether every reference still leads to a row is up to the actions
of the foreign keys.

`contactSystem_change` says once what a call can do.

Main result: `contactSystem_integrity`.
-/

set_option autoImplicit false

namespace Pensar.Analysis

open Pensar.Computation
open Pensar.Model

variable {V D : Type}

/-! ## What a call does -/

/-- The table that a call writes. -/
def DaoCall.table : DaoCall D → Table
  | .insertPerson _ | .updatePerson _ | .removePerson _ => .tPerson
  | .insertOrgUnit _ | .updateOrgUnit _ | .removeOrgUnit _ => .tOrgUnit
  | .insertLocalized _ => .tLocalizedOrgUnit
  | .insertPhone _ | .removePhone _ => .tPhone
  | .insertEmail _ | .removeEmail _ => .tEmail
  | .insertAddress _ | .removeAddress _ => .tAddress
  | .insertRole _ | .removeRole _ => .tRole
  | .insertLocalizedRole _ => .tLocalizedRole
  | .insertPersonOrgRelation _ => .tPersonOrgRelation
  | .assignRole _ _ | .unassignRole _ => .tPersonRole
  | .insertVisibility _ | .removeVisibility _ => .tDataVisibility

/-- A change of search vectors of units, and of nothing else. -/
structure Refreshes (f : Row V D → Row V D) : Prop where
  other : ∀ r : Row V D, r.orgUnit? = none → f r = r
  unit : ∀ o, ∃ v, f (.orgUnit o) = .orgUnit { o with searchVector := v }

theorem refreshes_id : Refreshes (id : Row V D → Row V D) :=
  ⟨fun _ _ => rfl, fun o => ⟨o.searchVector, rfl⟩⟩

theorem Refreshes.invisible {f : Row V D → Row V D} (hf : Refreshes f) :
    Row.schema.Invisible f := by
  have hrow : ∀ r, f r = r ∨ ∃ o v, r = .orgUnit o ∧ f r = .orgUnit { o with searchVector := v } := by
    intro r
    cases hunit : r.orgUnit? with
    | none => exact Or.inl (hf.other r hunit)
    | some o =>
      cases r with
      | orgUnit o =>
        obtain ⟨v, hv⟩ := hf.unit o
        exact Or.inr ⟨o, v, rfl, hv⟩
      | _ => cases hunit
  constructor <;> intro r <;> rcases hrow r with h | ⟨o, v, rfl, h⟩ <;> rw [h] <;> rfl

/-- What is read of a row, if it is not the vector of a unit, is as it was. -/
theorem Refreshes.kind_eq {α : Type} {kind : Row V D → Option α}
    (hkind : ∀ o v, kind (.orgUnit { o with searchVector := v }) = kind (.orgUnit o))
    {f : Row V D → Row V D} (hf : Refreshes f) (r : Row V D) : kind (f r) = kind r := by
  cases hunit : r.orgUnit? with
  | none => rw [hf.other r hunit]
  | some o =>
    cases r with
    | orgUnit o =>
      obtain ⟨v, hv⟩ := hf.unit o
      rw [hv, hkind]
    | _ => cases hunit

theorem Refreshes.mem_map {f : Row V D → Row V D} (hf : Refreshes f) {rows : List (Row V D)}
    {r : Row V D} (hr : r.orgUnit? = none) : r ∈ rows.map f ↔ r ∈ rows := by
  constructor
  · intro h
    obtain ⟨x, hx, rfl⟩ := List.mem_map.mp h
    cases hunit : x.orgUnit? with
    | none => rwa [hf.other x hunit]
    | some o =>
      cases x with
      | orgUnit o =>
        obtain ⟨v, hv⟩ := hf.unit o
        rw [hv] at hr
        cases hr
      | _ => cases hunit
  · intro h
    exact List.mem_map.mpr ⟨r, h, hf.other r hr⟩

/-- The state after a call that writes that table, and its answer. -/
inductive TableChange (s : ContactTables V D) (table : Table) :
    ContactTables V D → ContactAnswer → Prop where
  | same (answer : ContactAnswer) (h : ∀ id, answer = .inserted id → id = 0) :
      TableChange s table s answer
  | insert (id : ℕ) (new : Row V D) (rows : List (Row V D)) (f : Row V D → Row V D)
      (hid : s.lastId table < id) (hkey : new.key = (table, (id : ℤ)))
      (hrows : Row.schema.insert s.rows new = some rows) (hf : Refreshes f) :
      TableChange s table ⟨rows.map f, Function.update s.lastId table id⟩ (.inserted id)
  | update (new : Row V D) (rows : List (Row V D)) (hkey : new.key.1 = table)
      (hrows : Row.schema.update s.rows new = some rows) :
      TableChange s table { s with rows } (.found true)
  | delete (id : ℤ) (answer : Bool) :
      TableChange s table { s with rows := Row.schema.delete s.rows (table, id) } (.found answer)

theorem insertRow_change (s : ContactTables V D) (table : Table)
    {build : ℤ → Option (Row V D)} (hbuild : ∀ id r, build id = some r → r.key = (table, id))
    {after : List (Row V D) → List (Row V D)}
    (hafter : ∀ rows, ∃ f, Refreshes f ∧ after rows = rows.map f) (fate : Fate) :
    TableChange s table (s.insertRow table build after fate).1
      (s.insertRow table build after fate).2 := by
  rcases s.insertRow_cases table build after fate with
    ⟨new, rows, -, hnew, hrows, heq⟩ | ⟨-, heq⟩
  · obtain ⟨f, hf, hmap⟩ := hafter rows
    rw [heq, hmap]
    refine .insert _ new rows f ?_ (hbuild _ _ hnew) hrows hf
    unfold ContactTables.nextId
    omega
  · rw [heq]
    exact .same _ fun _ h => nomatch h

theorem insertRow_change_id (s : ContactTables V D) (table : Table)
    {build : ℤ → Option (Row V D)} (hbuild : ∀ id r, build id = some r → r.key = (table, id))
    (fate : Fate) :
    TableChange s table (s.insertRow table build id fate).1 (s.insertRow table build id fate).2 :=
  insertRow_change s table hbuild
    (fun rows => ⟨id, refreshes_id, (List.map_id rows).symm⟩) fate

theorem updateRow_change (s : ContactTables V D) (table : Table) (id : ℤ)
    {change : Row V D → Option (Row V D)}
    (hchange : ∀ old new, change old = some new → new.key = (table, id)) (fate : Fate) :
    TableChange s table (s.updateRow (table, id) change fate).1
      (s.updateRow (table, id) change fate).2 := by
  rcases s.updateRow_cases (table, id) change fate with
    ⟨old, new, rows, -, -, hnew, hrows, heq⟩ | ⟨-, -, heq⟩ | ⟨-, heq⟩
  · rw [heq]
    exact .update new rows (congrArg Prod.fst (hchange old new hnew)) hrows
  · rw [heq]
    exact .same _ fun _ h => nomatch h
  · rw [heq]
    exact .same _ fun _ h => nomatch h

theorem removeRow_change (s : ContactTables V D) (table : Table) (id : ℤ) (fate : Fate) :
    TableChange s table (s.removeRow (table, id) fate).1 (s.removeRow (table, id) fate).2 := by
  rcases s.removeRow_cases (table, id) fate with ⟨-, heq⟩ | ⟨-, heq⟩
  · rw [heq]
    exact .delete id _
  · rw [heq]
    exact .same _ fun _ h => nomatch h

theorem insertOwned_change (s : ContactTables V D) (table : Table) (personId orgUnitId : ℤ)
    {build : ℤ → ContactOwner → Option (Row V D)}
    (hbuild : ∀ id o r, build id o = some r → r.key = (table, id)) (fate : Fate) :
    TableChange s table (s.insertOwned table personId orgUnitId build fate).1
      (s.insertOwned table personId orgUnitId build fate).2 := by
  unfold ContactTables.insertOwned
  cases ContactDAO.owner personId orgUnitId with
  | none =>
    refine .same _ fun id h => ?_
    cases h
    rfl
  | some o => exact insertRow_change_id s table (fun id r => hbuild id o r) fate

theorem refreshSearch_refreshes (ts : TextSearch V) (unit : ℤ) (rows : List (Row V D)) :
    ∃ f, Refreshes f ∧ Row.refreshSearch ts unit rows = rows.map f := by
  refine ⟨_, ⟨?_, ?_⟩, rfl⟩
  · intro r hr
    cases r with
    | orgUnit o => cases hr
    | _ => rfl
  · intro o
    dsimp only
    split
    · exact ⟨_, rfl⟩
    · exact ⟨o.searchVector, rfl⟩

/-! ## The rows that are built -/

theorem relationRow_id {dates : DateText D} {por : PersonOrgRelationDTO} {id : ℤ}
    {r : RelationRow D} (h : RoleDAO.relationRow dates por id = some r) : r.id = id := by
  simp only [RoleDAO.relationRow, Option.bind_eq_bind, Option.bind_eq_some_iff, Option.pure_def,
    Option.some.injEq] at h
  obtain ⟨_, -, _, -, _, -, rfl⟩ := h
  rfl

theorem personRoleRow_id {dates : DateText D} {pr : PersonRoleDTO} {today : D} {id : ℤ}
    {r : PersonRoleRow D} (h : RoleDAO.personRoleRow dates pr today id = some r) : r.id = id := by
  simp only [RoleDAO.personRoleRow, Option.bind_eq_bind, Option.bind_eq_some_iff, Option.pure_def,
    Option.some.injEq] at h
  obtain ⟨_, -, _, -, rfl⟩ := h
  rfl

theorem emailRow_id {e : EmailDTO} {id : ℤ} {o : ContactOwner} {r : EmailRow}
    (h : ContactDAO.emailRow e id o = some r) : r.id = id := by
  simp only [ContactDAO.emailRow, Option.bind_eq_bind, Option.bind_eq_some_iff, Option.pure_def,
    Option.some.injEq] at h
  obtain ⟨_, -, rfl⟩ := h
  rfl

theorem addressRow_id {a : AddressDTO} {id : ℤ} {o : ContactOwner} {r : AddressRow}
    (h : ContactDAO.addressRow a id o = some r) : r.id = id := by
  simp only [ContactDAO.addressRow, Option.bind_eq_bind, Option.bind_eq_some_iff, Option.pure_def,
    Option.some.injEq] at h
  obtain ⟨_, -, _, -, _, -, _, -, _, -, _, -, _, -, _, -, rfl⟩ := h
  rfl

theorem visibilityRow_id {v : DataVisibilityDTO} {id : ℤ} {viewer : Viewer}
    {r : DataVisibility} (h : VisibilityDAO.row v id viewer = some r) : r.id = id := by
  unfold VisibilityDAO.row at h
  split at h
  · cases h
  · cases viewer <;> cases h <;> rfl

/-- **What a call can do.** -/
theorem contactSystem_change (ts : TextSearch V) (dates : DateText D) (s : ContactTables V D)
    (call : DaoCall D) (fate : Fate) :
    TableChange s (DaoCall.table call) ((contactSystem ts dates).step s (call, fate)).1
      ((contactSystem ts dates).step s (call, fate)).2 := by
  cases call with
  | insertPerson p =>
    refine insertRow_change_id s .tPerson (fun id r h => ?_) fate
    obtain ⟨row, hrow, rfl⟩ := Option.map_eq_some_iff.mp h
    exact congrArg (Prod.mk _) ((PersonDAO.row_eq_some_iff ts dates).mp hrow).1
  | updatePerson p =>
    refine updateRow_change s .tPerson p.id (fun _ r h => ?_) fate
    obtain ⟨row, hrow, rfl⟩ := Option.map_eq_some_iff.mp h
    exact congrArg (Prod.mk _) ((PersonDAO.row_eq_some_iff ts dates).mp hrow).1
  | removePerson id => exact removeRow_change s _ id fate
  | insertOrgUnit o =>
    refine insertRow_change_id s .tOrgUnit (fun id r h => ?_) fate
    obtain ⟨_, _, rfl⟩ := Option.map_eq_some_iff.mp h
    rfl
  | insertLocalized loc =>
    refine insertRow_change s .tLocalizedOrgUnit (fun id r h => ?_)
      (refreshSearch_refreshes ts loc.orgUnitId) fate
    obtain ⟨_, _, rfl⟩ := Option.map_eq_some_iff.mp h
    rfl
  | updateOrgUnit o =>
    refine updateRow_change s .tOrgUnit o.id (fun _ r h => ?_) fate
    obtain ⟨_, _, rfl⟩ := Option.map_eq_some_iff.mp h
    rfl
  | removeOrgUnit id => exact removeRow_change s _ id fate
  | insertPhone p =>
    refine insertOwned_change s .tPhone _ _ (fun id o r h => ?_) fate
    obtain ⟨row, hrow, rfl⟩ := Option.map_eq_some_iff.mp h
    exact congrArg (Prod.mk _) (ContactDAO.phoneRow_eq_some_iff.mp hrow).1
  | removePhone id => exact removeRow_change s _ id fate
  | insertEmail e =>
    refine insertOwned_change s .tEmail _ _ (fun id o r h => ?_) fate
    obtain ⟨row, hrow, rfl⟩ := Option.map_eq_some_iff.mp h
    exact congrArg (Prod.mk _) (emailRow_id hrow)
  | removeEmail id => exact removeRow_change s _ id fate
  | insertAddress a =>
    refine insertOwned_change s .tAddress _ _ (fun id o r h => ?_) fate
    obtain ⟨row, hrow, rfl⟩ := Option.map_eq_some_iff.mp h
    exact congrArg (Prod.mk _) (addressRow_id hrow)
  | removeAddress id => exact removeRow_change s _ id fate
  | insertRole r =>
    refine insertRow_change_id s .tRole (fun id r h => ?_) fate
    cases h
    rfl
  | insertLocalizedRole lr =>
    refine insertRow_change_id s .tLocalizedRole (fun id r h => ?_) fate
    obtain ⟨_, _, rfl⟩ := Option.map_eq_some_iff.mp h
    rfl
  | removeRole id => exact removeRow_change s _ id fate
  | insertPersonOrgRelation por =>
    refine insertRow_change_id s .tPersonOrgRelation (fun id r h => ?_) fate
    obtain ⟨row, hrow, rfl⟩ := Option.map_eq_some_iff.mp h
    exact congrArg (Prod.mk _) (relationRow_id hrow)
  | assignRole pr today =>
    refine insertRow_change_id s .tPersonRole (fun id r h => ?_) fate
    obtain ⟨row, hrow, rfl⟩ := Option.map_eq_some_iff.mp h
    exact congrArg (Prod.mk _) (personRoleRow_id hrow)
  | unassignRole id => exact removeRow_change s _ id fate
  | insertVisibility v =>
    show TableChange s .tDataVisibility (s.insertVisibility v fate).1 (s.insertVisibility v fate).2
    unfold ContactTables.insertVisibility
    cases VisibilityDAO.viewer v with
    | none =>
      refine .same _ fun id h => ?_
      cases h
      rfl
    | some viewer =>
      refine insertRow_change_id s .tDataVisibility (fun id r h => ?_) fate
      obtain ⟨row, hrow, rfl⟩ := Option.map_eq_some_iff.mp h
      exact congrArg (Prod.mk _) (visibilityRow_id hrow)
  | removeVisibility id => exact removeRow_change s _ id fate

/-! ## What a change keeps -/

/-- The id that an answer hands out in a table. -/
def grantedId (table written : Table) : ContactAnswer → Option ℤ
  | .inserted id => if written = table ∧ id ≠ 0 then some id else none
  | _ => none

section Change

variable {s s' : ContactTables V D} {table : Table} {answer : ContactAnswer}

theorem TableChange.consistent (h : TableChange s table s' answer)
    (hs : Row.schema.Consistent s.rows) : Row.schema.Consistent s'.rows := by
  cases h with
  | same => exact hs
  | insert id new rows f _ _ hrows hf =>
    exact hf.invisible.consistent_map _ (Row.schema.insert_consistent hs hrows)
  | update new rows _ hrows => exact Row.schema.update_consistent hs hrows
  | delete id => exact Row.schema.delete_consistent hs (table, id)

theorem TableChange.lastId_le (h : TableChange s table s' answer) (t : Table) :
    s.lastId t ≤ s'.lastId t := by
  cases h with
  | insert id new rows f hid =>
    by_cases ht : t = table
    · subst ht
      simpa using hid.le
    · simp [Function.update_of_ne ht]
  | _ => exact le_rfl

theorem TableChange.lastId_of_ne (h : TableChange s table s' answer) {t : Table}
    (ht : t ≠ table) : s'.lastId t = s.lastId t := by
  cases h with
  | insert id new rows f hid => exact Function.update_of_ne ht _ _
  | _ => rfl

/-- A new id is above all that the sequence has handed out. -/
theorem TableChange.grantedId (h : TableChange s table s' answer) {t : Table} {id : ℤ}
    (hid : grantedId t table answer = some id) : (s.lastId t : ℤ) < id ∧ id = s'.lastId t := by
  cases h with
  | same answer hsame =>
    cases answer with
    | inserted id' =>
      obtain rfl := hsame id' rfl
      simp [Analysis.grantedId] at hid
    | found _ => cases hid
    | threw => cases hid
  | insert id' new rows f hlast =>
    simp only [Analysis.grantedId, Option.ite_none_right_eq_some, Option.some.injEq] at hid
    obtain ⟨⟨rfl, -⟩, rfl⟩ := hid
    exact ⟨by exact_mod_cast hlast, by simp⟩
  | update => cases hid
  | delete => cases hid

/-- A row that was not there before has the id that the call hands out. -/
theorem TableChange.keys (h : TableChange s table s' answer) {k : RowKey}
    (hk : k ∈ s'.rows.map Row.key) :
    k ∈ s.rows.map Row.key ∨ Analysis.grantedId k.1 table answer = some k.2 := by
  cases h with
  | same => exact Or.inl hk
  | insert id new rows f hlast hkey hrows hf =>
    obtain ⟨-, -, rfl⟩ := Row.schema.insert_eq_some_iff.mp hrows
    have hk' : k ∈ (s.rows ++ [new]).map Row.key := (hf.invisible.keys_map _ _) ▸ hk
    rw [List.map_append, List.mem_append] at hk'
    rcases hk' with hold | hnew
    · exact Or.inl hold
    · obtain rfl := List.mem_singleton.mp hnew
      right
      rw [hkey]
      exact if_pos ⟨rfl, by exact_mod_cast (Nat.zero_lt_of_lt hlast).ne'⟩
  | update new rows _ hrows =>
    obtain ⟨-, rfl⟩ := Row.schema.update_eq_some_iff.mp hrows
    exact Or.inl (Row.schema.keys_replace s.rows new ▸ hk)
  | delete id => exact Or.inl ((Row.schema.keys_delete_sublist s.rows (table, id)).subset hk)

/-- The ids of the rows are among those that were handed out. -/
theorem TableChange.ids (h : TableChange s table s' answer)
    (hs : ∀ k ∈ s.rows.map Row.key, k.2 ≤ s.lastId k.1) :
    ∀ k ∈ s'.rows.map Row.key, k.2 ≤ s'.lastId k.1 := by
  intro k hk
  rcases h.keys hk with hold | hnew
  · have hle : (s.lastId k.1 : ℤ) ≤ s'.lastId k.1 := by exact_mod_cast h.lastId_le k.1
    exact (hs k hold).trans hle
  · exact (h.grantedId hnew).2.le

end Change

/-! ## The order of the rows -/

/-- The ids of each table increase. -/
def IdsAscend (rows : List (Row V D)) : Prop :=
  ∀ table, ((rows.map Row.key).filter fun k => k.1 = table).Pairwise fun k l => k.2 < l.2

theorem TableChange.idsAscend {s s' : ContactTables V D} {table : Table} {answer : ContactAnswer}
    (h : TableChange s table s' answer) (hs : ∀ k ∈ s.rows.map Row.key, k.2 ≤ s.lastId k.1)
    (hascend : IdsAscend s.rows) : IdsAscend s'.rows := by
  intro t
  cases h with
  | same => exact hascend t
  | insert id new rows f hlast hkey hrows hf =>
    obtain ⟨-, -, rfl⟩ := Row.schema.insert_eq_some_iff.mp hrows
    rw [show ((s.rows ++ [new]).map f).map Row.key = (s.rows ++ [new]).map Row.key from
      hf.invisible.keys_map _ _, List.map_append, List.filter_append, List.pairwise_append]
    refine ⟨hascend t, ?_, fun k hk l hl => ?_⟩
    · exact List.Pairwise.filter _ (List.pairwise_singleton _ _)
    · obtain ⟨hkmem, hkt⟩ := List.mem_filter.mp hk
      obtain ⟨hlmem, hlkey⟩ := List.mem_filter.mp hl
      obtain rfl := List.mem_singleton.mp hlmem
      have htable : k.1 = table := by
        have hnew := (of_decide_eq_true hlkey).symm
        rw [hkey] at hnew
        exact (of_decide_eq_true hkt).trans hnew
      have hle := hs k hkmem
      rw [htable] at hle
      have hlt : (s.lastId table : ℤ) < id := by exact_mod_cast hlast
      rw [hkey]
      exact hle.trans_lt hlt
  | update new rows _ hrows =>
    obtain ⟨-, rfl⟩ := Row.schema.update_eq_some_iff.mp hrows
    have hkeys : (Row.schema.replace s.rows new).map Row.key = s.rows.map Row.key :=
      Row.schema.keys_replace s.rows new
    show ((Row.schema.replace s.rows new).map Row.key |>.filter _).Pairwise _
    rw [hkeys]
    exact hascend t
  | delete id =>
    exact (hascend t).sublist ((Row.schema.keys_delete_sublist s.rows (table, id)).filter _)

/-- The ids of the rows of one table. -/
theorem ids_select {α : Type} {kind : Row V D → Option α} (table : Table) {id : α → ℤ}
    (hkind : ∀ r, (kind r).map (fun a => (table, id a)) = if r.key.1 = table then some r.key else none)
    {rows : List (Row V D)} (h : IdsAscend rows) :
    ((Row.select kind rows).map id).Pairwise (· < ·) := by
  have hkeys : (Row.select kind rows).map (fun a => (table, id a)) =
      (rows.map Row.key).filter fun k => k.1 = table := by
    unfold Row.select
    rw [List.map_filterMap, ← List.filterMap_eq_filter, List.filterMap_map]
    refine List.filterMap_congr fun r _ => ?_
    rw [hkind]
    simp [Option.guard]
  have hpairwise := h table
  rw [← hkeys, List.pairwise_map] at hpairwise
  exact List.pairwise_map.mpr hpairwise

/-! ## Every run -/

/-- The ids that the calls of a run hand out in a table, in order. -/
def grantedIds (table : Table) : List (DaoCall D × Fate) → List ContactAnswer → List ℤ
  | (call, _) :: calls, answer :: answers =>
    (grantedId table (DaoCall.table call) answer).toList ++ grantedIds table calls answers
  | _, _ => []

section Runs

variable (ts : TextSearch V) (dates : DateText D)

theorem consistent_run (s : ContactTables V D) (calls : List (DaoCall D × Fate))
    (hs : Row.schema.Consistent s.rows) :
    Row.schema.Consistent ((contactSystem ts dates).run s calls).rows :=
  (contactSystem ts dates).run_invariant (fun s => Row.schema.Consistent s.rows)
    (fun s i h => (contactSystem_change ts dates s i.1 i.2).consistent h) s calls hs

theorem lt_of_mem_grantedIds (table : Table) (s : ContactTables V D)
    (calls : List (DaoCall D × Fate)) :
    ∀ id ∈ grantedIds table calls ((contactSystem ts dates).outputs s calls),
      (s.lastId table : ℤ) < id := by
  induction calls generalizing s with
  | nil => simp [grantedIds]
  | cons i calls ih =>
    obtain ⟨call, fate⟩ := i
    have hchange := contactSystem_change ts dates s call fate
    intro id hid
    rw [Machine.outputs_cons, grantedIds, List.mem_append] at hid
    rcases hid with hnew | hrest
    · exact (hchange.grantedId (Option.mem_toList.mp hnew)).1
    · have hle : (s.lastId table : ℤ) ≤
          ((contactSystem ts dates).step s (call, fate)).1.lastId table := by
        exact_mod_cast hchange.lastId_le table
      exact hle.trans_lt (ih _ id hrest)

theorem grantedIds_pairwise (table : Table) (s : ContactTables V D)
    (calls : List (DaoCall D × Fate)) :
    (grantedIds table calls ((contactSystem ts dates).outputs s calls)).Pairwise (· < ·) := by
  induction calls generalizing s with
  | nil => exact List.Pairwise.nil
  | cons i calls ih =>
    obtain ⟨call, fate⟩ := i
    rw [Machine.outputs_cons, grantedIds, List.pairwise_append]
    refine ⟨?_, ih _, ?_⟩
    · cases grantedId table (DaoCall.table call) _ <;> simp
    · intro id hid next hnext
      obtain ⟨-, rfl⟩ :=
        (contactSystem_change ts dates s call fate).grantedId (Option.mem_toList.mp hid)
      exact lt_of_mem_grantedIds ts dates table _ calls next hnext

theorem keys_run (s : ContactTables V D) (calls : List (DaoCall D × Fate)) {k : RowKey}
    (hk : k ∈ ((contactSystem ts dates).run s calls).rows.map Row.key) :
    k ∈ s.rows.map Row.key ∨
      k.2 ∈ grantedIds k.1 calls ((contactSystem ts dates).outputs s calls) := by
  induction calls generalizing s with
  | nil => exact Or.inl hk
  | cons i calls ih =>
    obtain ⟨call, fate⟩ := i
    rw [Machine.outputs_cons, grantedIds]
    rcases ih _ hk with hbefore | hlater
    · rcases (contactSystem_change ts dates s call fate).keys hbefore with hold | hnew
      · exact Or.inl hold
      · exact Or.inr (List.mem_append_left _ (Option.mem_toList.mpr hnew))
    · exact Or.inr (List.mem_append_right _ hlater)

/-- The tables after those calls. -/
def reached (calls : List (DaoCall D × Fate)) : ContactTables V D :=
  (contactSystem ts dates).run .installed calls

theorem reached_consistent (calls : List (DaoCall D × Fate)) :
    Row.schema.Consistent (reached ts dates calls).rows :=
  consistent_run ts dates _ calls Row.schema.consistent_nil

theorem idsAscend_reached (calls : List (DaoCall D × Fate)) :
    IdsAscend (reached ts dates calls).rows := by
  have hrun := (contactSystem ts dates).run_invariant
    (fun s => (∀ k ∈ s.rows.map Row.key, k.2 ≤ s.lastId k.1) ∧ IdsAscend s.rows)
    (fun s i h => ⟨(contactSystem_change ts dates s i.1 i.2).ids h.1,
      (contactSystem_change ts dates s i.1 i.2).idsAscend h.1 h.2⟩) .installed calls
    ⟨fun k hk => absurd hk List.not_mem_nil, fun _ => List.Pairwise.nil⟩
  exact hrun.2

/-- **The integrity of the database.**  After any calls, every key and every unique value is there
once, every reference leads to a row, and every check holds; the ids that a sequence has handed
out increase, so that none is used again after a remove, and every row has one of them. -/
theorem contactSystem_integrity (calls : List (DaoCall D × Fate)) :
    Row.schema.Consistent (reached ts dates calls).rows ∧
      (∀ table, (grantedIds table calls
        ((contactSystem ts dates).outputs .installed calls)).Pairwise (· < ·)) ∧
      ∀ r ∈ (reached ts dates calls).rows,
        r.key.2 ∈ grantedIds r.key.1 calls ((contactSystem ts dates).outputs .installed calls) := by
  refine ⟨reached_consistent ts dates calls, fun table => grantedIds_pairwise ts dates table _ calls,
    ?_⟩
  intro r hr
  rcases keys_run ts dates _ calls (List.mem_map_of_mem hr) with hold | hnew
  · cases hold
  · exact hnew

end Runs

end Pensar.Analysis
