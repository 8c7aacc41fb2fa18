import Pensar.Interface.PersonRegister

/-!
# A book of roles and rules

What `RoleDAO` and `VisibilityDAO` are for: roles, relations, assigned roles and rules are in the
book from the call that inserts them until a call removes them, or something that they name.  A unit
takes its roles along, and a role its assignments and the rules for it.

The book is kept from the calls and their answers alone.  In a DTO the id 0 stands for none.
-/

set_option autoImplicit false

namespace Pensar.Interface

open Pensar.Computation
open Pensar.Model

variable {D : Type}

structure AccessBook where
  roles : List RoleDTO
  relations : List PersonOrgRelationDTO
  assignments : List PersonRoleDTO
  rules : List (ℤ × DataVisibilityDTO)

namespace AccessBook

def empty : AccessBook := ⟨[], [], [], []⟩

def append (a b : AccessBook) : AccessBook :=
  ⟨a.roles ++ b.roles, a.relations ++ b.relations, a.assignments ++ b.assignments,
    a.rules ++ b.rules⟩

/-! ## What is kept -/

section Kept

variable (dates : DateText D)

/-- A text of a date as it is read back; an empty one stays empty. -/
def keptDate (text : SqlText) : Option SqlText :=
  PersonRegister.optional (fun text => (dates.dateIn text).map dates.dateOut) text

/-- `none` if there is no such kind of relation, or no such date. -/
def keptRelation (por : PersonOrgRelationDTO) (id : ℤ) : Option PersonOrgRelationDTO := do
  let kind ← RelationshipType.ofText por.relationship
  let startDate ← (dates.dateIn por.startDate).map dates.dateOut
  let endDate ← keptDate dates por.endDate
  pure { por with id, relationship := kind.text, startDate, endDate }

/-- Without a date, a role is assigned on the day of the call. -/
def keptAssignment (pr : PersonRoleDTO) (today : D) (id : ℤ) : Option PersonRoleDTO := do
  let given := if pr.assignedDate = [] then dates.dateOut today else pr.assignedDate
  let assignedDate ← (dates.dateIn given).map dates.dateOut
  let endDate ← keptDate dates pr.endDate
  pure { pr with id, assignedDate, endDate }

/-- A rule is for one viewer, the first that is given. -/
def keptRule (v : DataVisibilityDTO) (id : ℤ) : Option (ℤ × DataVisibilityDTO) := do
  let dataCategory ← varchar 50 v.dataCategory
  if v.viewerPersonId ≠ 0 then
    pure (id, { v with dataCategory, viewerRoleId := 0, viewerOrgUnitId := 0 })
  else if v.viewerRoleId ≠ 0 then pure (id, { v with dataCategory, viewerOrgUnitId := 0 })
  else if v.viewerOrgUnitId ≠ 0 then pure (id, { v with dataCategory })
  else none

/-- What a call enters under the id that it is answered with. -/
def entered (id : ℤ) : DaoCall D → AccessBook
  | .insertRole r => { empty with roles := [{ r with id }] }
  | .insertPersonOrgRelation por => { empty with relations := (keptRelation dates por id).toList }
  | .assignRole pr today => { empty with assignments := (keptAssignment dates pr today id).toList }
  | .insertVisibility v => { empty with rules := (keptRule v id).toList }
  | _ => empty

end Kept

/-! ## What is struck out -/

variable (book : AccessBook)

/-- A role of that unit has the id. -/
def ofUnit (unit id : ℤ) : Bool := book.roles.any fun r => r.id = id && r.orgUnitId = unit

/-- The book after a call that has removed something. -/
def struck : DaoCall D → AccessBook
  | .removePerson id =>
    { book with
      relations := book.relations.filter fun r => r.personId ≠ id
      assignments := book.assignments.filter fun a => a.personId ≠ id
      rules := book.rules.filter fun v => v.2.ownerPersonId ≠ id ∧ v.2.viewerPersonId ≠ id }
  | .removeOrgUnit id =>
    { roles := book.roles.filter fun r => r.orgUnitId ≠ id
      relations := book.relations.filter fun r => r.orgUnitId ≠ id
      assignments := book.assignments.filter fun a => !book.ofUnit id a.roleId
      rules := book.rules.filter fun v =>
        v.2.viewerOrgUnitId ≠ id ∧ book.ofUnit id v.2.viewerRoleId = false }
  | .removeRole id =>
    { book with
      roles := book.roles.filter fun r => r.id ≠ id
      assignments := book.assignments.filter fun a => a.roleId ≠ id
      rules := book.rules.filter fun v => v.2.viewerRoleId ≠ id }
  | .unassignRole id =>
    { book with assignments := book.assignments.filter fun a => a.id ≠ id }
  | .removeVisibility id => { book with rules := book.rules.filter fun v => v.1 ≠ id }
  | _ => book

/-! ## The book -/

/-- A call that throws, or that finds nothing to remove, leaves the book as it is. -/
def noted (dates : DateText D) (call : DaoCall D) : ContactAnswer → AccessBook
  | .inserted id => book.append (entered dates id call)
  | .found true => book.struck call
  | _ => book

/-- The book after calls and their answers. -/
def after (dates : DateText D) (history : List (DaoCall D × ContactAnswer)) : AccessBook :=
  history.foldl (fun book call => book.noted dates call.1 call.2) empty

/-! ## Looking up -/

def role? (id : ℤ) : Option RoleDTO := book.roles.find? fun r => r.id = id

/-- The roles of a person, those that are primary first. -/
def rolesOf (personId : ℤ) : List PersonRoleDTO :=
  let assignments := book.assignments.filter fun a => a.personId = personId
  assignments.filter PersonRoleDTO.isPrimary ++ assignments.filter fun a => !a.isPrimary

def relationsOf (personId : ℤ) : List PersonOrgRelationDTO :=
  book.relations.filter fun r => r.personId = personId

def rulesOf (ownerPersonId : ℤ) : List (ℤ × DataVisibilityDTO) :=
  book.rules.filter fun v => v.2.ownerPersonId = ownerPersonId

/-- The rules that let that person see data of that category. -/
def granting (ownerPersonId viewerPersonId : ℤ) (dataCategory : SqlText) :
    List (ℤ × DataVisibilityDTO) :=
  (book.rulesOf ownerPersonId).filter fun v =>
    viewerPersonId ≠ 0 ∧ v.2.viewerPersonId = viewerPersonId ∧
      (v.2.dataCategory = dataCategory ∨ v.2.dataCategory = "All".toList) ∧ v.2.canView = true

end AccessBook

end Pensar.Interface
