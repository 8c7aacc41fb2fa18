import Pensar.Computation.OrderBy
import Mathlib.Data.Prod.Lex
import Mathlib.Order.BooleanAlgebra.Basic
import Pensar.Model.ContactTables

/-!
# `RoleDAO` (`contact/data/role_dao.hpp`)

Roles and their names, the relations of persons with units, and the roles that persons are
assigned.
-/

set_option autoImplicit false

namespace Pensar.Model

open Pensar.Computation

variable {V D : Type}

/-- struct `RoleDTO`.
SOURCE: contact/data/role_dao.hpp:19-24 -/
structure RoleDTO where
  id : ℤ := 0
  orgUnitId : ℤ := 0
  isActive : Bool := true
  deriving DecidableEq, Repr

/-- struct `LocalizedRoleDTO`.
SOURCE: contact/data/role_dao.hpp:27-34 -/
structure LocalizedRoleDTO where
  id : ℤ := 0
  roleId : ℤ := 0
  localeId : ℤ := 0
  name : SqlText
  description : SqlText := []

/-- struct `PersonOrgRelationDTO`.
SOURCE: contact/data/role_dao.hpp:37-46 -/
structure PersonOrgRelationDTO where
  id : ℤ := 0
  personId : ℤ := 0
  orgUnitId : ℤ := 0
  relationship : SqlText
  startDate : SqlText
  endDate : SqlText := []
  isActive : Bool := true
  deriving DecidableEq, Repr

/-- struct `PersonRoleDTO`.
SOURCE: contact/data/role_dao.hpp:49-57 -/
structure PersonRoleDTO where
  id : ℤ := 0
  personId : ℤ := 0
  roleId : ℤ := 0
  assignedDate : SqlText := []
  endDate : SqlText := []
  isPrimary : Bool := false
  deriving DecidableEq, Repr

namespace RoleDAO

variable (dates : DateText D)

/-! ## Roles -/

/-- SOURCE: contact/data/role_dao.hpp:67-95 -/
def insertRole (s : ContactTables V D) (r : RoleDTO) (fate : Fate) :
    ContactTables V D × ContactAnswer :=
  s.insertRow .tRole (fun id => some (.role
    { id
      orgUnitId := if r.orgUnitId = 0 then none else some r.orgUnitId
      isActive := r.isActive })) id fate

/-- SOURCE: contact/data/role_dao.hpp:97-115 -/
def insertLocalizedRole (s : ContactTables V D) (lr : LocalizedRoleDTO) (fate : Fate) :
    ContactTables V D × ContactAnswer :=
  s.insertRow .tLocalizedRole (fun id =>
    (varchar 100 lr.name).map fun name => .localizedRole
      { id
        roleId := lr.roleId
        localeId := lr.localeId
        name
        description := nullIfEmpty lr.description }) id fate

/-- SOURCE: contact/data/role_dao.hpp:117-137 -/
def findRoleById (s : ContactTables V D) (id : ℤ) : Option RoleDTO :=
  ((Row.select Row.role? s.rows).find? fun r => r.id = id).map fun r =>
    ⟨r.id, r.orgUnitId.getD 0, r.isActive⟩

/-- SOURCE: contact/data/role_dao.hpp:139-150 -/
def removeRole (s : ContactTables V D) (id : ℤ) (fate : Fate) :
    ContactTables V D × ContactAnswer :=
  s.removeRow (.tRole, id) fate

/-! ## Relations -/

/-- The row of the statement; `none` if the kind of the relation or a date is none.
SOURCE: contact/data/role_dao.hpp:163-176 -/
def relationRow (por : PersonOrgRelationDTO) (id : ℤ) : Option (RelationRow D) := do
  let relationship ← RelationshipType.ofText por.relationship
  let startDate ← dates.dateIn por.startDate
  let endDate ← nullable dates.dateIn por.endDate
  pure
    { id
      personId := por.personId
      orgUnitId := por.orgUnitId
      relationship, startDate, endDate
      isActive := por.isActive }

/-- SOURCE: contact/data/role_dao.hpp:154-179 -/
def insertPersonOrgRelation (s : ContactTables V D) (por : PersonOrgRelationDTO) (fate : Fate) :
    ContactTables V D × ContactAnswer :=
  s.insertRow .tPersonOrgRelation
    (fun id => (relationRow dates por id).map .personOrgRelation) id fate

/-- SOURCE: contact/data/role_dao.hpp:187-188, 195-202 -/
def relationDto (r : RelationRow D) : PersonOrgRelationDTO where
  id := r.id
  personId := r.personId
  orgUnitId := r.orgUnitId
  relationship := r.relationship.text
  startDate := dates.dateOut r.startDate
  endDate := (r.endDate.map dates.dateOut).getD []
  isActive := r.isActive

/-- SOURCE: contact/data/role_dao.hpp:181-206 -/
def relationsForPerson [LinearOrder D]
    (order : OrderBy (Descending fun r : RelationRow D => r.startDate)) (s : ContactTables V D)
    (personId : ℤ) : List PersonOrgRelationDTO :=
  (order.sort ((Row.select Row.personOrgRelation? s.rows).filter fun r =>
    r.personId = personId)).map (relationDto dates)

/-! ## Assigned roles -/

/-- The row of the statement; `today` is `CURRENT_DATE`.
SOURCE: contact/data/role_dao.hpp:218-231 -/
def personRoleRow (pr : PersonRoleDTO) (today : D) (id : ℤ) : Option (PersonRoleRow D) := do
  let assignedDate ← dates.dateIn ((nullIfEmpty pr.assignedDate).getD (dates.dateOut today))
  let endDate ← nullable dates.dateIn pr.endDate
  pure
    { id
      personId := pr.personId
      roleId := pr.roleId
      assignedDate := some assignedDate
      endDate
      isPrimary := pr.isPrimary }

/-- SOURCE: contact/data/role_dao.hpp:210-234 -/
def assignRole (s : ContactTables V D) (pr : PersonRoleDTO) (today : D) (fate : Fate) :
    ContactTables V D × ContactAnswer :=
  s.insertRow .tPersonRole (fun id => (personRoleRow dates pr today id).map .personRole) id fate

/-- The columns of a result; `none` if the date of the assignment is `NULL`, which a text cannot
be.
SOURCE: contact/data/role_dao.hpp:242-243, 250-257 -/
def personRoleDto (r : PersonRoleRow D) : Option PersonRoleDTO :=
  r.assignedDate.map fun assignedDate =>
    { id := r.id
      personId := r.personId
      roleId := r.roleId
      assignedDate := dates.dateOut assignedDate
      endDate := (r.endDate.map dates.dateOut).getD []
      isPrimary := r.isPrimary }

/-- `ORDER BY is_primary DESC, id`. -/
def primaryFirst (r : PersonRoleRow D) : Bool ×ₗ ℤ := toLex (!r.isPrimary, r.id)

/-- The answer; `none` if the call throws.
SOURCE: contact/data/role_dao.hpp:236-260 -/
def rolesForPerson (order : OrderBy (Ascending (primaryFirst (D := D)))) (s : ContactTables V D)
    (personId : ℤ) : Option (List PersonRoleDTO) :=
  (order.sort ((Row.select Row.personRole? s.rows).filter fun r =>
    r.personId = personId)).mapM (personRoleDto dates)

/-- SOURCE: contact/data/role_dao.hpp:262-273 -/
def unassignRole (s : ContactTables V D) (personRoleId : ℤ) (fate : Fate) :
    ContactTables V D × ContactAnswer :=
  s.removeRow (.tPersonRole, personRoleId) fate

end RoleDAO

end Pensar.Model
