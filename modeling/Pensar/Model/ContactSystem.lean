import Pensar.Model.PersonDAO
import Pensar.Model.RoleDAO

/-!
# The DAO classes over one database

The calls of `ContactDAO`, `OrgDAO` and `VisibilityDAO` over all tables (`contact/data/*.hpp`), with
those of `PersonDAO` and `RoleDAO` as the inputs of one machine.

A `PhoneDTO`, `EmailDTO` or `DataVisibilityDTO` of a result stands beside its id.
-/

set_option autoImplicit false

namespace Pensar.Model

open Pensar.Computation

variable {V D : Type}

/-- struct `AddressDTO`.  A coordinate is the number that the driver passes on for the `double`.
SOURCE: contact/data/contact_dao.hpp:49-64 -/
structure AddressDTO where
  id : ℤ := 0
  personId : ℤ := 0
  orgUnitId : ℤ := 0
  streetLine1 : SqlText
  streetLine2 : SqlText := []
  city : SqlText
  stateProvince : SqlText := []
  postalCode : SqlText := []
  country : SqlText
  qualifierId : ℤ := 3
  isPreferred : Bool := false
  latitude : ℚ := 0
  longitude : ℚ := 0
  deriving DecidableEq, Repr

/-- struct `LocalizedOrgUnitDTO`.
SOURCE: contact/data/org_dao.hpp:30-36 -/
structure LocalizedOrgUnitDTO where
  id : ℤ := 0
  orgUnitId : ℤ := 0
  localeId : ℤ := 0
  name : SqlText

/-- `ORDER BY is_preferred DESC, id`. -/
def preferredFirst {α : Type} (isPreferred : α → Bool) (id : α → ℤ) (r : α) : Bool ×ₗ ℤ :=
  toLex (!isPreferred r, id r)

/-! ## `ContactDAO` -/

namespace ContactDAO

/-- The row of the statement; `none` if a value does not fit.
SOURCE: contact/data/contact_dao.hpp:268-290, 294-316 -/
def addressRow (a : AddressDTO) (id : ℤ) (o : ContactOwner) : Option AddressRow := do
  let streetLine1 ← varchar 200 a.streetLine1
  let streetLine2 ← nullable (varchar 200) a.streetLine2
  let city ← varchar 100 a.city
  let stateProvince ← nullable (varchar 100) a.stateProvince
  let postalCode ← nullable (varchar 20) a.postalCode
  let country ← char 2 a.country
  let latitude ← decimal96 a.latitude
  let longitude ← decimal96 a.longitude
  pure
    { id
      personId := o.personId
      orgUnitId := o.orgUnitId
      streetLine1, streetLine2, city, stateProvince, postalCode, country
      qualifierId := a.qualifierId
      isPreferred := a.isPreferred
      latitude := some latitude
      longitude := some longitude
      chkAddressOwner := o.oneOwner }

/-- What the columns hold if every value fits. -/
theorem phoneRow_eq_some_iff {p : PhoneDTO} {id : ℤ} {o : ContactOwner} {r : PhoneRow} :
    phoneRow p id o = some r ↔
      r.id = id ∧ r.personId = o.personId ∧ r.orgUnitId = o.orgUnitId ∧
        varchar 5 p.countryCode = some r.countryCode ∧
        (varchar 5 p.areaCode).map some = some r.areaCode ∧
        varchar 20 p.number = some r.number ∧
        nullable (varchar 10) p.extension = some r.extension ∧ p.isMobile = r.isMobile ∧
        p.qualifierId = r.qualifierId ∧ p.isPreferred = r.isPreferred := by
  have hdo : phoneRow p id o = (do
      let countryCode ← varchar 5 p.countryCode
      let areaCode ← varchar 5 p.areaCode
      let number ← varchar 20 p.number
      let extension ← nullable (varchar 10) p.extension
      pure ⟨id, o.personId, o.orgUnitId, countryCode, some areaCode, number, extension, p.isMobile,
        p.qualifierId, p.isPreferred, o.oneOwner⟩) := by
    unfold phoneRow nullable
    cases nullIfEmpty p.extension <;> rfl
  simp only [hdo, Option.bind_eq_bind, Option.bind_eq_some_iff, Option.pure_def,
    Option.some.injEq, Option.map_eq_some_iff]
  constructor
  · rintro ⟨_, h₁, _, h₂, _, h₃, _, h₄, rfl⟩
    exact ⟨rfl, rfl, rfl, h₁, ⟨_, h₂, rfl⟩, h₃, h₄, rfl, rfl, rfl⟩
  · cases r
    rintro ⟨rfl, rfl, rfl, h₁, ⟨_, h₂, rfl⟩, h₃, h₄, rfl, rfl, rfl⟩
    exact ⟨_, h₁, _, h₂, _, h₃, _, h₄, rfl⟩

/-- SOURCE: contact/data/contact_dao.hpp:135-138, 144-154 -/
def phoneDto (r : PhoneRow) : ℤ × PhoneDTO :=
  (r.id,
    { personId := r.personId.getD 0
      orgUnitId := r.orgUnitId.getD 0
      countryCode := r.countryCode
      areaCode := r.areaCode.getD []
      number := r.number
      extension := r.extension.getD []
      isMobile := r.isMobile
      qualifierId := r.qualifierId
      isPreferred := r.isPreferred })

/-- SOURCE: contact/data/contact_dao.hpp:223-225, 231-238 -/
def emailDto (r : EmailRow) : ℤ × EmailDTO :=
  (r.id,
    { personId := r.personId.getD 0
      orgUnitId := r.orgUnitId.getD 0
      email := r.email
      qualifierId := r.qualifierId
      isPreferred := r.isPreferred
      isVerified := r.isVerified })

/-- SOURCE: contact/data/contact_dao.hpp:328-333, 339-352 -/
def addressDto (r : AddressRow) : AddressDTO where
  id := r.id
  personId := r.personId.getD 0
  orgUnitId := r.orgUnitId.getD 0
  streetLine1 := r.streetLine1
  streetLine2 := r.streetLine2.getD []
  city := r.city
  stateProvince := r.stateProvince.getD []
  postalCode := r.postalCode.getD []
  country := r.country
  qualifierId := r.qualifierId
  isPreferred := r.isPreferred
  latitude := r.latitude.getD 0 / 1000000
  longitude := r.longitude.getD 0 / 1000000

end ContactDAO

namespace ContactTables

/-- A call of `ContactDAO` that inserts something for a person or a unit; without an owner, or with
two, it sends no statement.
SOURCE: contact/data/contact_dao.hpp:83-126, 183-214, 266-319 -/
def insertOwned (s : ContactTables V D) (table : Table) (personId orgUnitId : ℤ)
    (build : ℤ → ContactOwner → Option (Row V D)) (fate : Fate) :
    ContactTables V D × ContactAnswer :=
  match ContactDAO.owner personId orgUnitId with
  | none => (s, .inserted 0)
  | some o => s.insertRow table (fun id => build id o) id fate

/-- SOURCE: contact/data/contact_dao.hpp:75-127 -/
def insertPhone (s : ContactTables V D) (p : PhoneDTO) (fate : Fate) :
    ContactTables V D × ContactAnswer :=
  s.insertOwned .tPhone p.personId p.orgUnitId
    (fun id o => (ContactDAO.phoneRow p id o).map .phone) fate

/-- SOURCE: contact/data/contact_dao.hpp:175-215 -/
def insertEmail (s : ContactTables V D) (e : EmailDTO) (fate : Fate) :
    ContactTables V D × ContactAnswer :=
  s.insertOwned .tEmail e.personId e.orgUnitId
    (fun id o => (ContactDAO.emailRow e id o).map .email) fate

/-- SOURCE: contact/data/contact_dao.hpp:259-320 -/
def insertAddress (s : ContactTables V D) (a : AddressDTO) (fate : Fate) :
    ContactTables V D × ContactAnswer :=
  s.insertOwned .tAddress a.personId a.orgUnitId
    (fun id o => (ContactDAO.addressRow a id o).map .address) fate

/-- SOURCE: contact/data/contact_dao.hpp:160-171 -/
def removePhone (s : ContactTables V D) (id : ℤ) (fate : Fate) :
    ContactTables V D × ContactAnswer :=
  s.removeRow (.tPhone, id) fate

/-- SOURCE: contact/data/contact_dao.hpp:244-255 -/
def removeEmail (s : ContactTables V D) (id : ℤ) (fate : Fate) :
    ContactTables V D × ContactAnswer :=
  s.removeRow (.tEmail, id) fate

/-- SOURCE: contact/data/contact_dao.hpp:358-369 -/
def removeAddress (s : ContactTables V D) (id : ℤ) (fate : Fate) :
    ContactTables V D × ContactAnswer :=
  s.removeRow (.tAddress, id) fate

/-- SOURCE: contact/data/contact_dao.hpp:129-158 -/
def phonesForPerson
    (order : OrderBy (Ascending (preferredFirst PhoneRow.isPreferred PhoneRow.id)))
    (s : ContactTables V D) (personId : ℤ) : List (ℤ × PhoneDTO) :=
  (order.sort ((Row.select Row.phone? s.rows).filter fun r =>
    r.personId = some personId)).map ContactDAO.phoneDto

/-- SOURCE: contact/data/contact_dao.hpp:217-242 -/
def emailsForPerson
    (order : OrderBy (Ascending (preferredFirst EmailRow.isPreferred EmailRow.id)))
    (s : ContactTables V D) (personId : ℤ) : List (ℤ × EmailDTO) :=
  (order.sort ((Row.select Row.email? s.rows).filter fun r =>
    r.personId = some personId)).map ContactDAO.emailDto

/-- SOURCE: contact/data/contact_dao.hpp:322-356 -/
def addressesForPerson
    (order : OrderBy (Ascending (preferredFirst AddressRow.isPreferred AddressRow.id)))
    (s : ContactTables V D) (personId : ℤ) : List AddressDTO :=
  (order.sort ((Row.select Row.address? s.rows).filter fun r =>
    r.personId = some personId)).map ContactDAO.addressDto

/-! ## `OrgDAO` -/

section OrgDAO

variable (ts : TextSearch V)

/-- The row that a call stores: the search vector is computed from the row and from the names that
the tables hold for its id.
SOURCE: contact/data/org_dao.hpp:64-86, 150-182 -/
def orgUnitRow (s : ContactTables V D) (o : OrgUnitDTO) (id : ℤ) : Option (Row V D) :=
  (OrgDAO.columns o).map fun (orgType, taxId) =>
    .orgUnit ((Row.orgDatabase s.rows).fnOrgunitSearchVector ts
      { id
        parentId := OrgDAO.parent o
        orgType
        federalTaxId := taxId
        isActive := o.isActive
        keywords := nullIfEmpty o.keywords
        searchVector := none })

/-- SOURCE: contact/data/org_dao.hpp:56-90 -/
def insertOrgUnit (s : ContactTables V D) (o : OrgUnitDTO) (fate : Fate) :
    ContactTables V D × ContactAnswer :=
  s.insertRow .tOrgUnit (s.orgUnitRow ts o) id fate

/-- SOURCE: contact/data/org_dao.hpp:93-110 -/
def insertLocalized (s : ContactTables V D) (loc : LocalizedOrgUnitDTO) (fate : Fate) :
    ContactTables V D × ContactAnswer :=
  s.insertRow .tLocalizedOrgUnit
    (fun id => (varchar 200 loc.name).map fun name =>
      .localizedOrgUnit ⟨id, loc.orgUnitId, loc.localeId, name⟩)
    (Row.refreshSearch ts loc.orgUnitId) fate

/-- SOURCE: contact/data/org_dao.hpp:141-186 -/
def updateOrgUnit (s : ContactTables V D) (o : OrgUnitDTO) (fate : Fate) :
    ContactTables V D × ContactAnswer :=
  s.updateRow (.tOrgUnit, o.id) (fun _ => s.orgUnitRow ts o o.id) fate

/-- SOURCE: contact/data/org_dao.hpp:189-200 -/
def removeOrgUnit (s : ContactTables V D) (id : ℤ) (fate : Fate) :
    ContactTables V D × ContactAnswer :=
  s.removeRow (.tOrgUnit, id) fate

end OrgDAO

/-- SOURCE: contact/data/org_dao.hpp:119-136, 237-252 -/
def orgUnitDto (o : OrgUnit V) : OrgUnitDTO where
  id := o.id
  parentId := o.parentId.getD 0
  orgType := o.orgType
  federalTaxId := o.federalTaxId.getD []
  isActive := o.isActive
  keywords := o.keywords.getD []

/-- SOURCE: contact/data/org_dao.hpp:113-138 -/
def findOrgUnitById (s : ContactTables V D) (id : ℤ) : Option OrgUnitDTO :=
  ((Row.select Row.orgUnit? s.rows).find? fun o => o.id = id).map orgUnitDto

/-- SOURCE: contact/data/org_dao.hpp:230-255 -/
def findChildren (order : OrderBy (Ascending (OrgUnit.id (V := V)))) (s : ContactTables V D)
    (parentId : ℤ) : List OrgUnitDTO :=
  (order.sort ((Row.select Row.orgUnit? s.rows).filter fun o =>
    o.parentId = some parentId)).map orgUnitDto

/-! ## `VisibilityDAO` -/

/-- SOURCE: contact/data/visibility_dao.hpp:37-97 -/
def insertVisibility (s : ContactTables V D) (v : DataVisibilityDTO) (fate : Fate) :
    ContactTables V D × ContactAnswer :=
  match VisibilityDAO.viewer v with
  | none => (s, .inserted 0)
  | some viewer =>
    s.insertRow .tDataVisibility
      (fun id => (VisibilityDAO.row v id viewer).map .dataVisibility) id fate

/-- SOURCE: contact/data/visibility_dao.hpp:154-165 -/
def removeVisibility (s : ContactTables V D) (id : ℤ) (fate : Fate) :
    ContactTables V D × ContactAnswer :=
  s.removeRow (.tDataVisibility, id) fate

/-- SOURCE: contact/data/visibility_dao.hpp:105-109, 115-123 -/
def visibilityDto (r : DataVisibility) : ℤ × DataVisibilityDTO :=
  (r.id,
    { ownerPersonId := r.ownerPersonId
      dataCategory := r.dataCategory
      viewerPersonId := r.viewerPersonId.getD 0
      viewerRoleId := r.viewerRoleId.getD 0
      viewerOrgUnitId := r.viewerOrgUnitId.getD 0
      canView := r.canView
      canEdit := r.canEdit })

/-- SOURCE: contact/data/visibility_dao.hpp:100-127 -/
def rulesForOwner (order : OrderBy (Ascending DataVisibility.id)) (s : ContactTables V D)
    (ownerPersonId : ℤ) : List (ℤ × DataVisibilityDTO) :=
  (order.sort ((Row.select Row.dataVisibility? s.rows).filter fun r =>
    r.ownerPersonId = ownerPersonId)).map visibilityDto

/-- The tables that `can_view` reads.
SOURCE: contact/data/visibility_dao.hpp:130-151 -/
def visibilityTables (s : ContactTables V D) : VisibilityTables where
  tDataVisibility := Row.select Row.dataVisibility? s.rows
  tPersonRole := (Row.select Row.personRole? s.rows).map fun r => ⟨r.personId, r.roleId⟩
  tPersonOrgRelation :=
    (Row.select Row.personOrgRelation? s.rows).map fun r => ⟨r.personId, r.orgUnitId⟩

end ContactTables

/-! ## All the calls -/

/-- A call that changes the tables. -/
inductive DaoCall (D : Type) where
  | insertPerson (p : PersonDTO)
  | updatePerson (p : PersonDTO)
  | removePerson (id : ℤ)
  | insertOrgUnit (o : OrgUnitDTO)
  | insertLocalized (loc : LocalizedOrgUnitDTO)
  | updateOrgUnit (o : OrgUnitDTO)
  | removeOrgUnit (id : ℤ)
  | insertPhone (p : PhoneDTO)
  | removePhone (id : ℤ)
  | insertEmail (e : EmailDTO)
  | removeEmail (id : ℤ)
  | insertAddress (a : AddressDTO)
  | removeAddress (id : ℤ)
  | insertRole (r : RoleDTO)
  | insertLocalizedRole (lr : LocalizedRoleDTO)
  | removeRole (id : ℤ)
  | insertPersonOrgRelation (por : PersonOrgRelationDTO)
  | assignRole (pr : PersonRoleDTO) (today : D)
  | unassignRole (personRoleId : ℤ)
  | insertVisibility (v : DataVisibilityDTO)
  | removeVisibility (id : ℤ)

/-- The database under the calls of the DAO classes, one after another, each with its fate. -/
def contactSystem (ts : TextSearch V) (dates : DateText D) :
    Machine (ContactTables V D) (DaoCall D × Fate) ContactAnswer where
  step s := fun (call, fate) =>
    match call with
    | .insertPerson p => PersonDAO.insert ts dates s p fate
    | .updatePerson p => PersonDAO.update ts dates s p fate
    | .removePerson id => PersonDAO.remove s id fate
    | .insertOrgUnit o => s.insertOrgUnit ts o fate
    | .insertLocalized loc => s.insertLocalized ts loc fate
    | .updateOrgUnit o => s.updateOrgUnit ts o fate
    | .removeOrgUnit id => s.removeOrgUnit id fate
    | .insertPhone p => s.insertPhone p fate
    | .removePhone id => s.removePhone id fate
    | .insertEmail e => s.insertEmail e fate
    | .removeEmail id => s.removeEmail id fate
    | .insertAddress a => s.insertAddress a fate
    | .removeAddress id => s.removeAddress id fate
    | .insertRole r => RoleDAO.insertRole s r fate
    | .insertLocalizedRole lr => RoleDAO.insertLocalizedRole s lr fate
    | .removeRole id => RoleDAO.removeRole s id fate
    | .insertPersonOrgRelation por => RoleDAO.insertPersonOrgRelation dates s por fate
    | .assignRole pr today => RoleDAO.assignRole dates s pr today fate
    | .unassignRole id => RoleDAO.unassignRole s id fate
    | .insertVisibility v => s.insertVisibility v fate
    | .removeVisibility id => s.removeVisibility id fate

end Pensar.Model
