import Pensar.Model.OrgDAO

/-!
# `VisibilityDAO` (`contact/data/visibility_dao.hpp`)

The rules that say who can see a person's data, and the test for one viewer.  Of a role or a unit
that a person is assigned only the ids are kept here, as nothing else is read.  Persons, roles and
units are in other tables: whether a foreign key refuses a rule is part of the `Fate` of a call.
-/

set_option autoImplicit false

namespace Pensar.Model

/-- A row of `T_DataVisibility`.
SOURCE: contact/db/contact_ddl.sql:587-601 -/
structure DataVisibility where
  id : ℤ
  ownerPersonId : ℤ
  dataCategory : SqlText
  viewerPersonId : Option ℤ
  viewerRoleId : Option ℤ
  viewerOrgUnitId : Option ℤ
  canView : Bool
  canEdit : Bool
  dataCategoryLength : dataCategory.length ≤ 50
  chkSingleViewer :
    viewerPersonId.isSome.toNat + viewerRoleId.isSome.toNat + viewerOrgUnitId.isSome.toNat = 1
  deriving DecidableEq

/-- SOURCE: contact/db/contact_ddl.sql:566-574 -/
structure PersonRole where
  personId : ℤ
  roleId : ℤ
  deriving DecidableEq, Repr

/-- SOURCE: contact/db/contact_ddl.sql:550-559 -/
structure PersonOrgRelation where
  personId : ℤ
  orgUnitId : ℤ
  deriving DecidableEq, Repr

/-- The rows of the three tables. -/
structure VisibilityTables where
  tDataVisibility : List DataVisibility
  tPersonRole : List PersonRole
  tPersonOrgRelation : List PersonOrgRelation

/-- The tables, and the last id that the sequence of `T_DataVisibility` has handed out. -/
structure VisibilityStore where
  tables : VisibilityTables
  lastId : ℕ

/-- SOURCE: contact/data/visibility_dao.hpp:19-29 -/
structure DataVisibilityDTO where
  ownerPersonId : ℤ := 0
  dataCategory : SqlText
  viewerPersonId : ℤ := 0
  viewerRoleId : ℤ := 0
  viewerOrgUnitId : ℤ := 0
  canView : Bool := true
  canEdit : Bool := false

/-- Who a rule is for. -/
inductive Viewer where
  | person (id : ℤ)
  | role (id : ℤ)
  | orgUnit (id : ℤ)
  deriving DecidableEq, Repr

/-- `std::numeric_limits<int>::max ()`. -/
def INT_MAX : ℕ := 2147483647

/-- A count that is fetched into an `int`; one that it cannot hold is refused with an exception. -/
def intoInt (count : ℕ) : Option ℕ := if count ≤ INT_MAX then some count else none

namespace VisibilityDAO

/-- The viewer field that is used: the first that is not 0.
SOURCE: contact/data/visibility_dao.hpp:47, 63, 79 -/
def viewer (v : DataVisibilityDTO) : Option Viewer :=
  if v.viewerPersonId ≠ 0 then some (.person v.viewerPersonId)
  else if v.viewerRoleId ≠ 0 then some (.role v.viewerRoleId)
  else if v.viewerOrgUnitId ≠ 0 then some (.orgUnit v.viewerOrgUnitId)
  else none

/-- The row of the statement; `none` if the category is too long for its column.
SOURCE: contact/data/visibility_dao.hpp:49-61, 65-77, 81-93 -/
def row (v : DataVisibilityDTO) (id : ℤ) (viewer : Viewer) : Option DataVisibility :=
  match h : varchar 50 v.dataCategory with
  | none => none
  | some dataCategory =>
    have hlength := length_varchar h
    match viewer with
    | .person p =>
      some ⟨id, v.ownerPersonId, dataCategory, some p, none, none, v.canView, v.canEdit, hlength,
        rfl⟩
    | .role r =>
      some ⟨id, v.ownerPersonId, dataCategory, none, some r, none, v.canView, v.canEdit, hlength,
        rfl⟩
    | .orgUnit u =>
      some ⟨id, v.ownerPersonId, dataCategory, none, none, some u, v.canView, v.canEdit, hlength,
        rfl⟩

/-- The id that the sequence hands out next. -/
def nextId (s : VisibilityStore) (fate : Fate) : ℕ := s.lastId + fate.skipped + 1

/-- The answer is the id of the rule, 0 if no viewer is given, and `none` if the call throws.
SOURCE: contact/data/visibility_dao.hpp:37-97 -/
def insert (s : VisibilityStore) (v : DataVisibilityDTO) (fate : Fate) :
    VisibilityStore × Option ℤ :=
  match viewer v with
  | none => (s, some 0)
  | some viewer =>
    if fate.refused then (s, none)
    else
      match row v (nextId s fate) viewer with
      | none => (s, none)
      | some rule =>
        ({ tables :=
            { s.tables with tDataVisibility := s.tables.tDataVisibility ++ [rule] }
           lastId := nextId s fate }, some rule.id)

/-- The rules that are counted.
SOURCE: contact/data/visibility_dao.hpp:140-144 -/
def counted (db : VisibilityTables) (ownerPersonId viewerPersonId : ℤ) (dataCategory : SqlText) :
    List DataVisibility :=
  db.tDataVisibility.filter fun v =>
    v.ownerPersonId = ownerPersonId && v.viewerPersonId = some viewerPersonId &&
      (v.dataCategory = dataCategory || v.dataCategory = "All".toList) && v.canView

/-- The answer; `none` if the call throws.
SOURCE: contact/data/visibility_dao.hpp:130-151 -/
def canView (db : VisibilityTables) (ownerPersonId viewerPersonId : ℤ) (dataCategory : SqlText) :
    Option Bool := do
  let count ← intoInt (counted db ownerPersonId viewerPersonId dataCategory).length
  pure (0 < count)

end VisibilityDAO

end Pensar.Model
