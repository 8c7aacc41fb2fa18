import Pensar.Computation.AncestorChain
import Pensar.Computation.KeyedRows
import Pensar.Model.OrgDAO

/-!
# Is the organisation a forest?

The foreign key of `parent_id` asks for a unit of that id when the statement ends, and no more:
`OrgDAO::update` can put a unit below itself, and `OrgDAO::insert` makes a unit its own parent if
it is given the id that the sequence hands out next.  Deleting a unit takes its children's
parents away.

Main result: `orgForest_iff` says which calls keep the organisation a forest.
-/

set_option autoImplicit false

namespace Pensar.Analysis

open Pensar.Computation
open Pensar.Model
open OrgDatabase (Keys References Checks Consistent)

variable {V : Type}

/-! ## Parents -/

/-- The ids of units without a parent, and those whose parent is which. -/
def orgDescent (db : OrgDatabase V) : Descent ℤ where
  IsRoot id := ∃ o ∈ db.tOrgUnit, o.id = id ∧ o.parentId = none
  Child p id := ∃ o ∈ db.tOrgUnit, o.id = id ∧ o.parentId = some p

/-- From every unit, following `parent_id` leads to a unit without a parent. -/
def IsForest (db : OrgDatabase V) : Prop :=
  ∀ o ∈ db.tOrgUnit, ∃ path, (orgDescent db).Path path o.id

/-- `parent_id` of the unit of an id. -/
def parentOf (db : OrgDatabase V) (id : ℤ) : Option ℤ :=
  (db.tOrgUnit.find? fun o => o.id = id).bind OrgUnit.parentId

theorem parentOf_eq {db : OrgDatabase V} (hkeys : db.Keys) {o : OrgUnit V}
    (ho : o ∈ db.tOrgUnit) : parentOf db o.id = o.parentId := by
  have hfound : ∃ o', (db.tOrgUnit.find? fun o' => o'.id = o.id) = some o' := by
    rw [← Option.isSome_iff_exists, List.find?_isSome]
    exact ⟨o, ho, by simp⟩
  obtain ⟨o', ho'⟩ := hfound
  have hid : o'.id = o.id := by simpa using List.find?_some ho'
  have hsame := eq_of_key hkeys.orgUnitId (List.mem_of_find?_eq_some ho') ho hid
  rw [parentOf, ho', Option.bind_some, hsame]

theorem parentOf_eq_none {db : OrgDatabase V} {id : ℤ} (h : id ∉ db.tOrgUnit.map OrgUnit.id) :
    parentOf db id = none := by
  have hnone : (db.tOrgUnit.find? fun o => o.id = id) = none := by
    rw [List.find?_eq_none]
    intro o ho hid
    exact h (List.mem_map.mpr ⟨o, ho, by simpa using hid⟩)
  rw [parentOf, hnone]
  rfl

theorem orgDescent_root_iff {db : OrgDatabase V} (hkeys : db.Keys) {id : ℤ} :
    (orgDescent db).IsRoot id ↔ id ∈ db.tOrgUnit.map OrgUnit.id ∧ parentOf db id = none := by
  constructor
  · rintro ⟨o, ho, rfl, hparent⟩
    exact ⟨List.mem_map_of_mem ho, (parentOf_eq hkeys ho).trans hparent⟩
  · rintro ⟨hid, hparent⟩
    obtain ⟨o, ho, rfl⟩ := List.mem_map.mp hid
    exact ⟨o, ho, rfl, (parentOf_eq hkeys ho).symm.trans hparent⟩

theorem orgDescent_child_iff {db : OrgDatabase V} (hkeys : db.Keys) {p id : ℤ} :
    (orgDescent db).Child p id ↔ parentOf db id = some p := by
  constructor
  · rintro ⟨o, ho, rfl, hparent⟩
    exact (parentOf_eq hkeys ho).trans hparent
  · intro hparent
    have hid : id ∈ db.tOrgUnit.map OrgUnit.id := by
      by_contra hnot
      rw [parentOf_eq_none hnot] at hparent
      cases hparent
    obtain ⟨o, ho, rfl⟩ := List.mem_map.mp hid
    exact ⟨o, ho, rfl, (parentOf_eq hkeys ho).symm.trans hparent⟩

/-- The foreign key has every way to a root end at a unit. -/
theorem isForest_iff {db : OrgDatabase V} (hdb : db.Consistent) :
    IsForest db ↔ ∀ id, Rooted (parentOf db) id := by
  have hkeys := hdb.keys
  have hpath : ∀ {path : List ℤ} {id : ℤ},
      (orgDescent db).Path path id → Rooted (parentOf db) id := by
    intro path id h
    induction h with
    | root h => exact rooted_of_none ((orgDescent_root_iff hkeys).mp h).2
    | child _ h ih => exact .of_parent ((orgDescent_child_iff hkeys).mp h) ih
  constructor
  · intro h id
    by_cases hid : id ∈ db.tOrgUnit.map OrgUnit.id
    · obtain ⟨o, ho, rfl⟩ := List.mem_map.mp hid
      obtain ⟨path, hroot⟩ := h o ho
      exact hpath hroot
    · exact rooted_of_none (parentOf_eq_none hid)
  · intro h o ho
    have hmem : ∀ id, Rooted (parentOf db) id → id ∈ db.tOrgUnit.map OrgUnit.id →
        ∃ path, (orgDescent db).Path path id := by
      intro id hid
      refine hid.induction ?_ ?_
      · intro x hx hunit
        exact ⟨[x], .root ((orgDescent_root_iff hkeys).mpr ⟨hunit, hx⟩)⟩
      · intro x y hxy ih _
        have hchild := (orgDescent_child_iff hkeys).mpr hxy
        obtain ⟨u, hu, -, hparent⟩ := hchild
        obtain ⟨path, hy⟩ := ih (hdb.references.parent u hu y hparent)
        exact ⟨path ++ [x], .child hy ((orgDescent_child_iff hkeys).mpr hxy)⟩
    exact hmem o.id (h o.id) (List.mem_map_of_mem ho)

/-- What lies above a unit, or is it, is a unit. -/
theorem mem_of_reaches {db : OrgDatabase V} (hdb : db.Consistent) {p id : ℤ}
    (hp : p ∈ db.tOrgUnit.map OrgUnit.id) (h : Reaches (parentOf db) p id) :
    id ∈ db.tOrgUnit.map OrgUnit.id := by
  induction h with
  | refl => exact hp
  | tail _ hstep _ =>
    obtain ⟨o, ho, -, hparent⟩ := (orgDescent_child_iff hdb.keys).mpr hstep
    exact hdb.references.parent o ho _ hparent

/-- What has a unit above it, or is it, is a unit. -/
theorem mem_of_reaches_unit {db : OrgDatabase V} {p id : ℤ}
    (hid : id ∈ db.tOrgUnit.map OrgUnit.id) (h : Reaches (parentOf db) p id) :
    p ∈ db.tOrgUnit.map OrgUnit.id := by
  induction h using Relation.ReflTransGen.head_induction_on with
  | refl => exact hid
  | head hstep _ _ =>
    by_contra hnot
    rw [parentOf_eq_none hnot] at hstep
    cases hstep

/-- A function that gives the parents of all units, and none for other ids. -/
theorem parentOf_eq_of {db : OrgDatabase V} (hkeys : db.Keys) {f : ℤ → Option ℤ}
    (hunits : ∀ o ∈ db.tOrgUnit, o.parentId = f o.id)
    (hnone : ∀ id, id ∉ db.tOrgUnit.map OrgUnit.id → f id = none) : parentOf db = f := by
  funext id
  by_cases hid : id ∈ db.tOrgUnit.map OrgUnit.id
  · obtain ⟨o, ho, rfl⟩ := List.mem_map.mp hid
    exact (parentOf_eq hkeys ho).trans (hunits o ho)
  · exact (parentOf_eq_none hid).trans (hnone id hid).symm

/-! ## What the statements do to the parents -/

section Statements

variable (ts : TextSearch V) (db : OrgDatabase V)

@[simp] theorem updatedOrgUnit_id (set : OrgUnitUpdate V) (o : OrgUnit V) :
    (db.updatedOrgUnit ts set o).id = set.id.getD o.id := by
  unfold OrgDatabase.updatedOrgUnit
  split <;> rfl

@[simp] theorem updatedOrgUnit_parentId (set : OrgUnitUpdate V) (o : OrgUnit V) :
    (db.updatedOrgUnit ts set o).parentId = set.parentId.getD o.parentId := by
  unfold OrgDatabase.updatedOrgUnit
  split <;> rfl

@[simp] theorem updatedOrgUnit_orgType (set : OrgUnitUpdate V) (o : OrgUnit V) :
    (db.updatedOrgUnit ts set o).orgType = set.orgType.getD o.orgType := by
  unfold OrgDatabase.updatedOrgUnit
  split <;> rfl

@[simp] theorem updatedOrgUnit_federalTaxId (set : OrgUnitUpdate V) (o : OrgUnit V) :
    (db.updatedOrgUnit ts set o).federalTaxId = set.federalTaxId.getD o.federalTaxId := by
  unfold OrgDatabase.updatedOrgUnit
  split <;> rfl

theorem ids_insert (row : OrgUnit V) :
    (db.change ts (.insertOrgUnit row)).tOrgUnit.map OrgUnit.id =
      db.tOrgUnit.map OrgUnit.id ++ [row.id] := by
  simp [OrgDatabase.change, OrgDatabase.fnOrgunitSearchVector]

theorem ids_update (id : ℤ) {set : OrgUnitUpdate V} (hset : set.id = none) :
    (db.change ts (.updateOrgUnit id set)).tOrgUnit.map OrgUnit.id =
      db.tOrgUnit.map OrgUnit.id := by
  simp only [OrgDatabase.change, List.map_map]
  refine List.map_congr_left fun o _ => ?_
  by_cases ho : o.id = id <;> simp [ho, hset]

variable {ts db}

/-- A new unit has its parent, the others keep theirs. -/
theorem parentOf_insert {row : OrgUnit V} (hkeys : db.Keys)
    (hkeys' : (db.change ts (.insertOrgUnit row)).Keys) :
    parentOf (db.change ts (.insertOrgUnit row)) =
      Function.update (parentOf db) row.id row.parentId := by
  have hnew : row.id ∉ db.tOrgUnit.map OrgUnit.id := by
    have hnodup := hkeys'.orgUnitId
    rw [ids_insert, List.nodup_append'] at hnodup
    exact fun hmem => hnodup.2.2 hmem (by simp)
  refine parentOf_eq_of hkeys' ?_ ?_
  · intro o ho
    rcases List.mem_append.mp ho with ho | ho
    · have hne : o.id ≠ row.id := fun h => hnew (h ▸ List.mem_map_of_mem ho)
      rw [Function.update_of_ne hne, parentOf_eq hkeys ho]
    · obtain rfl := List.mem_singleton.mp ho
      exact (Function.update_self row.id row.parentId (parentOf db)).symm
  · intro id hid
    rw [ids_insert, List.mem_append, List.mem_singleton, not_or] at hid
    rw [Function.update_of_ne hid.2, parentOf_eq_none hid.1]

/-- A unit that is updated has another parent, the others keep theirs. -/
theorem parentOf_update {id : ℤ} {set : OrgUnitUpdate V} {parent : Option ℤ}
    (hset : set.id = none) (hparent : set.parentId = some parent) (hkeys : db.Keys)
    (hkeys' : (db.change ts (.updateOrgUnit id set)).Keys)
    (hid : id ∈ db.tOrgUnit.map OrgUnit.id) :
    parentOf (db.change ts (.updateOrgUnit id set)) = Function.update (parentOf db) id parent := by
  refine parentOf_eq_of hkeys' ?_ ?_
  · intro o' ho'
    obtain ⟨o, ho, rfl⟩ := List.mem_map.mp ho'
    by_cases hoid : o.id = id
    · simp [hoid, hset, hparent]
    · simp [hoid, parentOf_eq hkeys ho]
  · intro x hx
    rw [ids_update ts db id hset] at hx
    have hne : x ≠ id := fun h => hx (h ▸ hid)
    rw [Function.update_of_ne hne, parentOf_eq_none hx]

/-- An update of a unit that is not there changes nothing. -/
theorem change_update_missing {id : ℤ} {set : OrgUnitUpdate V}
    (hid : id ∉ db.tOrgUnit.map OrgUnit.id) : db.change ts (.updateOrgUnit id set) = db := by
  have hunits : (db.tOrgUnit.map fun o =>
      if o.id = id then db.updatedOrgUnit ts set o else o) = db.tOrgUnit := by
    refine (List.map_congr_left fun o ho => ?_).trans (List.map_id _)
    have hne : o.id ≠ id := fun h => hid (h ▸ List.mem_map_of_mem ho)
    rw [if_neg hne]
    rfl
  rw [OrgDatabase.change, hunits]

/-- Deleting a unit leaves the others without a parent, or with the one they had. -/
theorem parentOf_delete (id : ℤ) (hkeys : db.Keys)
    (hkeys' : (db.change ts (.deleteOrgUnit id)).Keys) (x : ℤ) :
    parentOf (db.change ts (.deleteOrgUnit id)) x = none ∨
      parentOf (db.change ts (.deleteOrgUnit id)) x = parentOf db x := by
  by_cases hx : x ∈ (db.change ts (.deleteOrgUnit id)).tOrgUnit.map OrgUnit.id
  · obtain ⟨o', ho', rfl⟩ := List.mem_map.mp hx
    rw [parentOf_eq hkeys' ho']
    obtain ⟨o, ho, rfl⟩ := List.mem_map.mp ho'
    have hmem := (List.mem_filter.mp ho).1
    by_cases hparent : o.parentId = some id
    · exact Or.inl (by rw [if_pos hparent])
    · exact Or.inr (by rw [if_neg hparent, parentOf_eq hkeys hmem])
  · exact Or.inl (parentOf_eq_none hx)

/-- A new unit with an id of its own, whose parent is there or is itself, is accepted. -/
theorem consistent_insert {row : OrgUnit V} (hdb : db.Consistent)
    (hnew : row.id ∉ db.tOrgUnit.map OrgUnit.id)
    (hparent : ∀ p ∈ row.parentId, p ∈ db.tOrgUnit.map OrgUnit.id ∨ p = row.id)
    (htype : ORG_TYPES.contains row.orgType) (htax : ∀ t ∈ row.federalTaxId, t.length ≤ 20) :
    (db.change ts (.insertOrgUnit row)).Consistent where
  keys :=
    { hdb.keys with
      orgUnitId := by
        rw [ids_insert]
        exact hdb.keys.orgUnitId.append (List.nodup_singleton _) (by simpa using hnew) }
  references :=
    { hdb.references with
      parent := by
        rw [ids_insert]
        intro o ho p hp
        rw [List.mem_append, List.mem_singleton]
        rcases List.mem_append.mp ho with ho | ho
        · exact Or.inl (hdb.references.parent o ho p hp)
        · obtain rfl := List.mem_singleton.mp ho
          exact hparent p hp
      orgUnit := by
        rw [ids_insert]
        exact fun loc hloc => List.mem_append_left _ (hdb.references.orgUnit loc hloc) }
  checks :=
    { hdb.checks with
      orgType := by
        intro o ho
        rcases List.mem_append.mp ho with ho | ho
        · exact hdb.checks.orgType o ho
        · obtain rfl := List.mem_singleton.mp ho
          exact htype
      federalTaxId := by
        intro o ho
        rcases List.mem_append.mp ho with ho | ho
        · exact hdb.checks.federalTaxId o ho
        · obtain rfl := List.mem_singleton.mp ho
          exact htax }

/-- An update of a unit whose new parent is there is accepted. -/
theorem consistent_update {id : ℤ} {set : OrgUnitUpdate V} {parent : Option ℤ} {orgType : SqlText}
    {taxId : Option SqlText} (hdb : db.Consistent) (hset : set.id = none)
    (hsetParent : set.parentId = some parent) (hsetType : set.orgType = some orgType)
    (hsetTax : set.federalTaxId = some taxId)
    (hparent : ∀ p ∈ parent, p ∈ db.tOrgUnit.map OrgUnit.id)
    (htype : ORG_TYPES.contains orgType) (htax : ∀ t ∈ taxId, t.length ≤ 20) :
    (db.change ts (.updateOrgUnit id set)).Consistent where
  keys :=
    { hdb.keys with
      orgUnitId := by
        rw [ids_update ts db id hset]
        exact hdb.keys.orgUnitId }
  references :=
    { hdb.references with
      parent := by
        rw [ids_update ts db id hset]
        intro o' ho' p hp
        obtain ⟨o, ho, rfl⟩ := List.mem_map.mp ho'
        by_cases hoid : o.id = id
        · rw [if_pos hoid, updatedOrgUnit_parentId, hsetParent] at hp
          exact hparent p hp
        · rw [if_neg hoid] at hp
          exact hdb.references.parent o ho p hp
      orgUnit := by
        rw [ids_update ts db id hset]
        exact hdb.references.orgUnit }
  checks :=
    { hdb.checks with
      orgType := by
        intro o' ho'
        obtain ⟨o, ho, rfl⟩ := List.mem_map.mp ho'
        by_cases hoid : o.id = id
        · rw [if_pos hoid, updatedOrgUnit_orgType, hsetType]
          exact htype
        · rw [if_neg hoid]
          exact hdb.checks.orgType o ho
      federalTaxId := by
        intro o' ho' t ht
        obtain ⟨o, ho, rfl⟩ := List.mem_map.mp ho'
        by_cases hoid : o.id = id
        · rw [if_pos hoid, updatedOrgUnit_federalTaxId, hsetTax] at ht
          exact htax t ht
        · rw [if_neg hoid] at ht
          exact hdb.checks.federalTaxId o ho t ht }

end Statements

/-! ## The calls -/

/-- The store is one that calls lead to: the constraints hold, and the sequence is past all ids. -/
structure SoundStore (s : OrgStore V) : Prop where
  consistent : s.db.Consistent
  lastId : ∀ o ∈ s.db.tOrgUnit, o.id ≤ s.lastId

/-- The columns of the object are of the types and pass the check. -/
def ColumnsFit (o : OrgUnitDTO) : Prop :=
  ∃ c, OrgDAO.columns o = some c ∧ ORG_TYPES.contains c.1

/-- The call is refused, or makes no unit an ancestor of itself: a new unit has not its own id for
parent, and the parent that a unit is given is neither the unit nor below it. -/
def KeepsForest (s : OrgStore V) : OrgCall → Prop
  | .insert o fate => fate.refused ∨ ¬ ColumnsFit o ∨ o.parentId ≠ OrgDAO.nextId s fate
  | .update o fate =>
    fate.refused ∨ ¬ ColumnsFit o ∨ o.id ∉ s.db.tOrgUnit.map OrgUnit.id ∨ o.parentId = 0 ∨
      ¬ Reaches (parentOf s.db) o.parentId o.id
  | .remove _ _ => True

theorem parent_eq_some {o : OrgUnitDTO} {p : ℤ} (h : OrgDAO.parent o = some p) :
    o.parentId = p := by
  unfold OrgDAO.parent at h
  split at h
  · cases h
  · exact Option.some.inj h

theorem length_of_columns {o : OrgUnitDTO} {c : SqlText × Option SqlText}
    (h : OrgDAO.columns o = some c) : ∀ t ∈ c.2, t.length ≤ 20 := by
  unfold OrgDAO.columns at h
  obtain ⟨orgType, -, h⟩ := Option.bind_eq_some_iff.mp h
  cases htax : nullIfEmpty o.federalTaxId with
  | none =>
    simp only [htax, Option.pure_def, Option.some.injEq] at h
    simp [← h]
  | some taxId =>
    simp only [htax] at h
    obtain ⟨stored, hstored, h⟩ := Option.bind_eq_some_iff.mp h
    cases h
    rintro t ⟨⟩
    exact length_varchar hstored

/-- What a statement that is run leaves. -/
theorem run_eq_some {ts : TextSearch V} {db db' : OrgDatabase V}
    {statement : Option (OrgStatement V)} {fate : Fate}
    (h : OrgDAO.run ts db statement fate = some db') :
    ∃ st, statement = some st ∧ db' = db.change ts st ∧ db'.Consistent := by
  unfold OrgDAO.run at h
  split at h
  · cases h
  · obtain ⟨st, hst, hexecute⟩ := Option.bind_eq_some_iff.mp h
    obtain ⟨hconsistent, rfl⟩ := OrgDatabase.checked_eq_some_iff.mp hexecute
    exact ⟨st, hst, rfl, hconsistent⟩

theorem insertStatement_eq {o : OrgUnitDTO} {id : ℤ} {c : SqlText × Option SqlText}
    (h : OrgDAO.columns o = some c) :
    OrgDAO.insertStatement o id = some (.insertOrgUnit (V := V)
      ⟨id, OrgDAO.parent o, c.1, c.2, o.isActive, nullIfEmpty o.keywords, none⟩) := by
  rw [OrgDAO.insertStatement, h]
  rfl

theorem updateStatement_eq {o : OrgUnitDTO} {c : SqlText × Option SqlText}
    (h : OrgDAO.columns o = some c) :
    OrgDAO.updateStatement o = some (.updateOrgUnit (V := V) o.id
      { parentId := some (OrgDAO.parent o)
        orgType := some c.1
        federalTaxId := some c.2
        isActive := some o.isActive
        keywords := some (nullIfEmpty o.keywords) }) := by
  rw [OrgDAO.updateStatement, h]
  rfl

section Steps

variable (ts : TextSearch V) {s : OrgStore V} (hs : SoundStore s)
include hs

theorem nextId_not_mem (fate : Fate) :
    (OrgDAO.nextId s fate : ℤ) ∉ s.db.tOrgUnit.map OrgUnit.id := by
  intro hmem
  obtain ⟨o, ho, hid⟩ := List.mem_map.mp hmem
  have hle := hs.lastId o ho
  unfold OrgDAO.nextId at hid
  omega

/-- A unit with its own id for parent is refused for other reasons only. -/
theorem run_insert_self {o : OrgUnitDTO} {fate : Fate} (hfate : fate.refused = false)
    (hfits : ColumnsFit o) (hself : o.parentId = OrgDAO.nextId s fate) :
    ∃ db', OrgDAO.run ts s.db (OrgDAO.insertStatement o (OrgDAO.nextId s fate)) fate =
      some db' := by
  obtain ⟨c, hc, htype⟩ := hfits
  rw [insertStatement_eq hc, OrgDAO.run, hfate]
  refine ⟨_, OrgDatabase.checked_eq_some_iff.mpr ⟨?_, rfl⟩⟩
  refine consistent_insert hs.consistent (nextId_not_mem hs fate) ?_ htype (length_of_columns hc)
  intro p hp
  simp only [OrgDAO.parent, Option.mem_def] at hp
  split at hp
  · cases hp
  · exact Or.inr ((Option.some.inj hp).symm.trans hself)

/-- A unit put below itself is refused for other reasons only. -/
theorem run_update_cycle {o : OrgUnitDTO} {fate : Fate} (hfate : fate.refused = false)
    (hfits : ColumnsFit o) (hid : o.id ∈ s.db.tOrgUnit.map OrgUnit.id)
    (hcycle : Reaches (parentOf s.db) o.parentId o.id) :
    ∃ db', OrgDAO.run ts s.db (OrgDAO.updateStatement o) fate = some db' := by
  obtain ⟨c, hc, htype⟩ := hfits
  rw [updateStatement_eq hc, OrgDAO.run, hfate]
  refine ⟨_, OrgDatabase.checked_eq_some_iff.mpr ⟨?_, rfl⟩⟩
  refine consistent_update hs.consistent rfl rfl rfl rfl ?_ htype (length_of_columns hc)
  intro p hp
  simp only [OrgDAO.parent, Option.mem_def] at hp
  split at hp
  · cases hp
  · obtain rfl := Option.some.inj hp
    exact mem_of_reaches_unit hid hcycle

/-- What an `insert` that succeeds leaves. -/
theorem insert_done {o : OrgUnitDTO} {fate : Fate} {db' : OrgDatabase V}
    (h : OrgDAO.run ts s.db (OrgDAO.insertStatement o (OrgDAO.nextId s fate)) fate = some db') :
    SoundStore ⟨db', OrgDAO.nextId s fate⟩ ∧ fate.refused = false ∧ ColumnsFit o ∧
      (∀ p ∈ OrgDAO.parent o, p ∈ s.db.tOrgUnit.map OrgUnit.id ∨ p = OrgDAO.nextId s fate) ∧
      parentOf db' = Function.update (parentOf s.db) (OrgDAO.nextId s fate) (OrgDAO.parent o) := by
  have hfate : fate.refused = false := by
    by_contra hrefused
    rw [OrgDAO.run, if_pos (by simpa using hrefused)] at h
    cases h
  obtain ⟨st, hst, rfl, hconsistent⟩ := run_eq_some h
  cases hc : OrgDAO.columns o with
  | none =>
    rw [OrgDAO.insertStatement, hc] at hst
    cases hst
  | some c =>
    rw [insertStatement_eq hc, Option.some.injEq] at hst
    subst hst
    have htype := hconsistent.checks.orgType _ (List.mem_append_right _ (List.mem_singleton_self _))
    refine ⟨⟨hconsistent, ?_⟩, hfate, ⟨c, hc, htype⟩, ?_, ?_⟩
    · intro u hu
      have hmem := List.mem_map_of_mem (f := OrgUnit.id) hu
      rw [ids_insert, List.mem_append, List.mem_singleton] at hmem
      rcases hmem with hmem | hmem
      · obtain ⟨u', hu', hid⟩ := List.mem_map.mp hmem
        have hle := hs.lastId u' hu'
        simp only [OrgDAO.nextId]
        omega
      · exact le_of_eq hmem
    · intro p hp
      have hmem := hconsistent.references.parent _
        (List.mem_append_right _ (List.mem_singleton_self _)) p hp
      rwa [ids_insert, List.mem_append, List.mem_singleton] at hmem
    · exact parentOf_insert hs.consistent.keys hconsistent.keys

/-- What an `update` that succeeds leaves. -/
theorem update_done {o : OrgUnitDTO} {fate : Fate} {db' : OrgDatabase V}
    (h : OrgDAO.run ts s.db (OrgDAO.updateStatement o) fate = some db') :
    SoundStore ⟨db', s.lastId⟩ ∧ fate.refused = false ∧
      (o.id ∈ s.db.tOrgUnit.map OrgUnit.id → ColumnsFit o ∧
        parentOf db' = Function.update (parentOf s.db) o.id (OrgDAO.parent o)) ∧
      (o.id ∉ s.db.tOrgUnit.map OrgUnit.id → parentOf db' = parentOf s.db) := by
  have hfate : fate.refused = false := by
    by_contra hrefused
    rw [OrgDAO.run, if_pos (by simpa using hrefused)] at h
    cases h
  obtain ⟨st, hst, rfl, hconsistent⟩ := run_eq_some h
  cases hc : OrgDAO.columns o with
  | none =>
    rw [OrgDAO.updateStatement, hc] at hst
    cases hst
  | some c =>
    rw [updateStatement_eq hc, Option.some.injEq] at hst
    subst hst
    refine ⟨⟨hconsistent, ?_⟩, hfate, ?_, ?_⟩
    · intro u hu
      have hmem := List.mem_map_of_mem (f := OrgUnit.id) hu
      rw [ids_update _ _ _ rfl] at hmem
      obtain ⟨u', hu', hid⟩ := List.mem_map.mp hmem
      exact hid ▸ hs.lastId u' hu'
    · intro hid
      obtain ⟨u, hu, huid⟩ := List.mem_map.mp hid
      have htype := hconsistent.checks.orgType _ (List.mem_map.mpr ⟨u, hu, rfl⟩)
      rw [if_pos huid, updatedOrgUnit_orgType] at htype
      exact ⟨⟨c, hc, htype⟩, parentOf_update rfl rfl hs.consistent.keys hconsistent.keys hid⟩
    · intro hid
      rw [change_update_missing hid]

/-- Calls keep the store sound. -/
theorem step_sound (i : OrgCall) : SoundStore ((OrgDAO.machine ts).step s i).1 := by
  cases i with
  | insert o fate =>
    simp only [OrgDAO.machine, OrgDAO.insert]
    cases hrun : OrgDAO.run ts s.db (OrgDAO.insertStatement o (OrgDAO.nextId s fate)) fate with
    | none => exact hs
    | some db' => exact (insert_done ts hs hrun).1
  | update o fate =>
    simp only [OrgDAO.machine, OrgDAO.update]
    cases hrun : OrgDAO.run ts s.db (OrgDAO.updateStatement o) fate with
    | none => exact hs
    | some db' => exact (update_done ts hs hrun).1
  | remove id fate =>
    simp only [OrgDAO.machine, OrgDAO.remove]
    cases hrun : OrgDAO.run ts s.db (some (.deleteOrgUnit id)) fate with
    | none => exact hs
    | some db' =>
      obtain ⟨st, hst, rfl, hconsistent⟩ := run_eq_some hrun
      cases hst
      refine ⟨hconsistent, fun u hu => ?_⟩
      obtain ⟨u', hu', rfl⟩ := List.mem_map.mp hu
      have hle := hs.lastId u' (List.mem_filter.mp hu').1
      by_cases hparent : u'.parentId = some id
      · rwa [if_pos hparent]
      · rwa [if_neg hparent]

/-- **One insert.** -/
theorem insert_isForest_iff (o : OrgUnitDTO) (fate : Fate) (hforest : IsForest s.db) :
    IsForest (OrgDAO.insert ts s o fate).1.db ↔ KeepsForest s (.insert o fate) := by
  have hrooted := (isForest_iff hs.consistent).mp hforest
  unfold OrgDAO.insert
  cases hrun : OrgDAO.run ts s.db (OrgDAO.insertStatement o (OrgDAO.nextId s fate)) fate with
  | none =>
    refine iff_of_true hforest ?_
    by_contra hbad
    simp only [KeepsForest, not_or, not_not, Bool.not_eq_true] at hbad
    obtain ⟨db', hdb'⟩ := run_insert_self ts hs hbad.1 hbad.2.1 hbad.2.2
    rw [hdb'] at hrun
    cases hrun
  | some db' =>
    obtain ⟨hsound, hfate, hfits, hthere, hparents⟩ := insert_done ts hs hrun
    rw [isForest_iff hsound.consistent, hparents, forall_rooted_update_iff hrooted]
    simp only [KeepsForest, hfate, hfits, Bool.false_eq_true, not_true, false_or]
    constructor
    · intro h hself
      have hparent : OrgDAO.parent o = some (OrgDAO.nextId s fate : ℤ) := by
        rw [OrgDAO.parent, hself, if_neg (by unfold OrgDAO.nextId; omega)]
      exact h _ hparent .refl
    · intro hne p hp hreaches
      rcases hthere p hp with hp' | rfl
      · exact nextId_not_mem hs fate (mem_of_reaches hs.consistent hp' hreaches)
      · exact hne (parent_eq_some hp)

/-- **One update.** -/
theorem update_isForest_iff (o : OrgUnitDTO) (fate : Fate) (hforest : IsForest s.db) :
    IsForest (OrgDAO.update ts s o fate).1.db ↔ KeepsForest s (.update o fate) := by
  have hrooted := (isForest_iff hs.consistent).mp hforest
  unfold OrgDAO.update
  cases hrun : OrgDAO.run ts s.db (OrgDAO.updateStatement o) fate with
  | none =>
    refine iff_of_true hforest ?_
    by_contra hbad
    simp only [KeepsForest, not_or, not_not, Bool.not_eq_true] at hbad
    obtain ⟨hfate, hfits, hid, -, hcycle⟩ := hbad
    obtain ⟨db', hdb'⟩ := run_update_cycle ts hs hfate hfits hid hcycle
    rw [hdb'] at hrun
    cases hrun
  | some db' =>
    obtain ⟨hsound, hfate, hthere, hmissing⟩ := update_done ts hs hrun
    rw [isForest_iff hsound.consistent]
    by_cases hid : o.id ∈ s.db.tOrgUnit.map OrgUnit.id
    · obtain ⟨hfits, hparents⟩ := hthere hid
      rw [hparents, forall_rooted_update_iff hrooted]
      simp only [KeepsForest, hfate, hfits, hid, Bool.false_eq_true, not_true, false_or]
      constructor
      · intro h
        by_cases hzero : o.parentId = 0
        · exact Or.inl hzero
        · exact Or.inr (h o.parentId (if_neg hzero))
      · rintro h p hp
        have hzero : o.parentId ≠ 0 := by
          intro hzero
          rw [OrgDAO.parent, if_pos hzero] at hp
          cases hp
        rw [← parent_eq_some hp]
        exact h.resolve_left hzero
    · rw [hmissing hid]
      exact iff_of_true hrooted (by simp [KeepsForest, hid])

/-- **One removal.** -/
theorem remove_isForest (id : ℤ) (fate : Fate) (hforest : IsForest s.db) :
    IsForest (OrgDAO.remove ts s id fate).1.db := by
  have hrooted := (isForest_iff hs.consistent).mp hforest
  unfold OrgDAO.remove
  cases hrun : OrgDAO.run ts s.db (some (.deleteOrgUnit id)) fate with
  | none => exact hforest
  | some db' =>
    obtain ⟨st, hst, rfl, hconsistent⟩ := run_eq_some hrun
    cases hst
    refine (isForest_iff hconsistent).mpr fun x => ?_
    exact (hrooted x).detach (parentOf_delete id hs.consistent.keys hconsistent.keys)

/-- **One call.** -/
theorem step_isForest_iff (i : OrgCall) (hforest : IsForest s.db) :
    IsForest ((OrgDAO.machine ts).step s i).1.db ↔ KeepsForest s i := by
  cases i with
  | insert o fate => exact insert_isForest_iff ts hs o fate hforest
  | update o fate => exact update_isForest_iff ts hs o fate hforest
  | remove id fate => exact iff_of_true (remove_isForest ts hs id fate hforest) trivial

end Steps

/-- **The organisation is a forest after every call exactly when every call keeps it one.** -/
theorem orgForest_iff (ts : TextSearch V) (s : OrgStore V) (hs : s.db.Consistent)
    (hempty : s.db.tOrgUnit = []) (calls : List OrgCall) :
    (∀ p, p <+: calls → IsForest ((OrgDAO.machine ts).run s p).db) ↔
      (OrgDAO.machine ts).Along KeepsForest s calls := by
  refine (OrgDAO.machine ts).prefix_invariant_iff SoundStore (fun s => IsForest s.db) KeepsForest
    ?_ ?_ s calls ⟨hs, by simp [hempty]⟩ ?_
  · intro s i hs
    exact step_sound ts hs i
  · intro s i hs hforest
    exact step_isForest_iff ts hs i hforest
  · intro o ho
    rw [hempty] at ho
    cases ho

/-- A store after the installation. -/
def installedStore : OrgStore Unit := ⟨.installed, 0⟩

def noSearch : TextSearch Unit := ⟨fun _ => (), fun _ _ => (), fun _ _ => ()⟩

theorem orgForest_installed :
    (∀ p, p <+: [.insert { orgType := "Group".toList } {},
        .insert { parentId := 1, orgType := "Team".toList } {}, .remove 1 {}] →
      IsForest ((OrgDAO.machine noSearch).run installedStore p).db) ↔
      (OrgDAO.machine noSearch).Along KeepsForest installedStore
        [.insert { orgType := "Group".toList } {},
          .insert { parentId := 1, orgType := "Team".toList } {}, .remove 1 {}] :=
  orgForest_iff noSearch installedStore OrgDatabase.installed_consistent rfl
    [.insert { orgType := "Group".toList } {},
      .insert { parentId := 1, orgType := "Team".toList } {}, .remove 1 {}]

/-- A unit that is updated to be its own parent. -/
theorem not_isForest_update :
    ¬ ∀ (ts : TextSearch Unit) (s : OrgStore Unit), s.db.Consistent → s.db.tOrgUnit = [] →
      ∀ calls, IsForest ((OrgDAO.machine ts).run s calls).db := by
  intro h
  have hforest := h noSearch installedStore OrgDatabase.installed_consistent rfl
    [.insert { orgType := "Group".toList } {},
      .update { id := 1, parentId := 1, orgType := "Group".toList } {}]
  have hsound := (OrgDAO.machine noSearch).run_invariant SoundStore
    (fun s i hs => step_sound noSearch hs i) installedStore
    [.insert { orgType := "Group".toList } {},
      .update { id := 1, parentId := 1, orgType := "Group".toList } {}]
    ⟨OrgDatabase.installed_consistent, by simp [installedStore, OrgDatabase.installed]⟩
  have hcycle : parentOf ((OrgDAO.machine noSearch).run installedStore
      [.insert { orgType := "Group".toList } {},
        .update { id := 1, parentId := 1, orgType := "Group".toList } {}]).db 1 = some 1 := by
    decide
  exact not_rooted_of_cycle hcycle .refl ((isForest_iff hsound.consistent).mp hforest 1)

end Pensar.Analysis
