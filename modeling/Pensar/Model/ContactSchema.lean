import Mathlib.Algebra.Order.Round
import Mathlib.Data.Rat.Floor
import Pensar.Computation.ForeignKeys
import Pensar.Model.ContactDAO
import Pensar.Model.VisibilityDAO

/-!
# The tables of the contact database (`contact/db/contact_ddl.sql`)

The rows of the tables that the DAO classes write, with the constraints that the schema declares
for them.  The rows of all tables are kept in one list, in the order in which they were inserted.

`V` is the type `tsvector` and `D` the type `date`.  The rows of `T_Locale` and
`T_ContactQualifier` are those of the installation, as no call writes them; a reference to one of
them is a check of the row.  `T_SocialMedia` and `T_Website`, which no call writes either, are
empty.  Columns that no statement of a DAO names (`photo`) are left out.
-/

set_option autoImplicit false

namespace Pensar.Model

open Pensar.Computation

variable {V D : Type}

/-! ## Types of columns -/

/-- Assignment to a column of type `CHAR(n)`, which is filled up with blanks. -/
def char (n : ℕ) (text : SqlText) : Option SqlText :=
  (varchar n text).map fun stored => stored ++ List.replicate (n - stored.length) ' '

/-- `NULLIF (text, '')`, assigned to a column that can be `NULL`. -/
def nullable {α : Type} (assign : SqlText → Option α) (text : SqlText) : Option (Option α) :=
  match nullIfEmpty text with
  | none => some none
  | some text => (assign text).map some

/-- The input and output of the type `date`. -/
structure DateText (D : Type) where
  dateIn : SqlText → Option D
  dateOut : D → SqlText
  dateIn_dateOut : ∀ d, dateIn (dateOut d) = some d
  dateOut_ne_nil : ∀ d, dateOut d ≠ []

/-- Assignment to a column of type `DECIMAL(9,6)`, kept in millionths: halves are rounded away
from zero, and there are three digits before the point.
SOURCE: contact/db/contact_ddl.sql:53 -/
def decimal96 (x : ℚ) : Option ℤ :=
  let rounded := if 0 ≤ x then ⌊x * 1000000 + 1 / 2⌋ else -⌊-x * 1000000 + 1 / 2⌋
  if rounded.natAbs < 1000000000 then some rounded else none

/-- SOURCE: contact/db/contact_ddl.sql:545-547 -/
inductive RelationshipType where
  | employee
  | trainee
  | minorApprentice
  | thirdParty
  deriving DecidableEq, Repr

namespace RelationshipType

def text : RelationshipType → SqlText
  | employee => "Employee".toList
  | trainee => "Trainee".toList
  | minorApprentice => "MinorApprentice".toList
  | thirdParty => "ThirdParty".toList

/-- The cast of a text; one that is no label is an error. -/
def ofText (text : SqlText) : Option RelationshipType :=
  [employee, trainee, minorApprentice, thirdParty].find? fun label => label.text = text

end RelationshipType

/-! ## Rows -/

/-- SOURCE: contact/db/contact_ddl.sql:268-282 -/
@[ext] structure PersonRecord (V D : Type) where
  id : ℤ
  firstName : SqlText
  middleName : Option SqlText
  lastName : SqlText
  federalTaxId : Option SqlText
  identificationNumber : Option SqlText
  passportNumber : Option SqlText
  passportCountry : Option SqlText
  passportExpiry : Option D
  dateOfBirth : Option D
  keywords : Option SqlText
  searchVector : Option V

/-- SOURCE: contact/db/contact_ddl.sql:456-474 -/
structure AddressRow where
  id : ℤ
  personId : Option ℤ
  orgUnitId : Option ℤ
  streetLine1 : SqlText
  streetLine2 : Option SqlText
  city : SqlText
  stateProvince : Option SqlText
  postalCode : Option SqlText
  country : SqlText
  qualifierId : ℤ
  isPreferred : Bool
  latitude : Option ℤ
  longitude : Option ℤ
  chkAddressOwner : OneOwner personId orgUnitId

/-- SOURCE: contact/db/contact_ddl.sql:522-526 -/
structure RoleRow where
  id : ℤ
  orgUnitId : Option ℤ
  isActive : Bool
  deriving DecidableEq, Repr

/-- SOURCE: contact/db/contact_ddl.sql:533-540 -/
structure LocalizedRoleRow where
  id : ℤ
  roleId : ℤ
  localeId : ℤ
  name : SqlText
  description : Option SqlText
  deriving DecidableEq, Repr

/-- SOURCE: contact/db/contact_ddl.sql:550-559 -/
structure RelationRow (D : Type) where
  id : ℤ
  personId : ℤ
  orgUnitId : ℤ
  relationship : RelationshipType
  startDate : D
  endDate : Option D
  isActive : Bool

/-- SOURCE: contact/db/contact_ddl.sql:567-575 -/
structure PersonRoleRow (D : Type) where
  id : ℤ
  personId : ℤ
  roleId : ℤ
  assignedDate : Option D
  endDate : Option D
  isPrimary : Bool

/-- A row of one of the tables. -/
inductive Row (V D : Type) where
  | person (r : PersonRecord V D)
  | orgUnit (r : OrgUnit V)
  | localizedOrgUnit (r : LocalizedOrgUnit)
  | phone (r : PhoneRow)
  | email (r : EmailRow)
  | address (r : AddressRow)
  | role (r : RoleRow)
  | localizedRole (r : LocalizedRoleRow)
  | personOrgRelation (r : RelationRow D)
  | personRole (r : PersonRoleRow D)
  | dataVisibility (r : DataVisibility)

inductive Table where
  | tPerson
  | tOrgUnit
  | tLocalizedOrgUnit
  | tPhone
  | tEmail
  | tAddress
  | tRole
  | tLocalizedRole
  | tPersonOrgRelation
  | tPersonRole
  | tDataVisibility
  deriving DecidableEq, Repr

/-- A row of a table is known by its id. -/
abbrev RowKey : Type := Table × ℤ

namespace Row

open Table

def key : Row V D → RowKey
  | person r => (tPerson, r.id)
  | orgUnit r => (tOrgUnit, r.id)
  | localizedOrgUnit r => (tLocalizedOrgUnit, r.id)
  | phone r => (tPhone, r.id)
  | email r => (tEmail, r.id)
  | address r => (tAddress, r.id)
  | role r => (tRole, r.id)
  | localizedRole r => (tLocalizedRole, r.id)
  | personOrgRelation r => (tPersonOrgRelation, r.id)
  | personRole r => (tPersonRole, r.id)
  | dataVisibility r => (tDataVisibility, r.id)

def persons (ids : Option ℤ) : List RowKey := ids.toList.map fun id => (tPerson, id)

def orgUnits (ids : Option ℤ) : List RowKey := ids.toList.map fun id => (tOrgUnit, id)

def roles (ids : Option ℤ) : List RowKey := ids.toList.map fun id => (tRole, id)

/-- The columns with `ON DELETE CASCADE`.
SOURCE: contact/db/contact_ddl.sql:312, 415-416, 438-439, 458-459, 524, 535, 552-553, 569-570,
589-593 -/
def cascade : Row V D → List RowKey
  | person _ => []
  | orgUnit _ => []
  | localizedOrgUnit r => [(tOrgUnit, r.orgUnitId)]
  | phone r => persons r.personId ++ orgUnits r.orgUnitId
  | email r => persons r.personId ++ orgUnits r.orgUnitId
  | address r => persons r.personId ++ orgUnits r.orgUnitId
  | role r => orgUnits r.orgUnitId
  | localizedRole r => [(tRole, r.roleId)]
  | personOrgRelation r => [(tPerson, r.personId), (tOrgUnit, r.orgUnitId)]
  | personRole r => [(tPerson, r.personId), (tRole, r.roleId)]
  | dataVisibility r =>
    (tPerson, r.ownerPersonId) ::
      (persons r.viewerPersonId ++ roles r.viewerRoleId ++ orgUnits r.viewerOrgUnitId)

/-- The column with `ON DELETE SET NULL`.
SOURCE: contact/db/contact_ddl.sql:294 -/
def weak : Row V D → List RowKey
  | orgUnit r => orgUnits r.parentId
  | _ => []

def setNull (p : RowKey → Bool) : Row V D → Row V D
  | orgUnit r => orgUnit { r with parentId := r.parentId.filter fun id => !p (tOrgUnit, id) }
  | r => r

/-- A value that a unique index keeps. -/
inductive UniqueValue where
  | personTaxId (taxId : SqlText)
  | localizedOrgUnit (orgUnitId localeId : ℤ)
  | email (email : SqlText)
  | localizedRole (roleId localeId : ℤ)
  | personOrgRelation (personId orgUnitId : ℤ) (relationship : RelationshipType)
  | personRole (personId roleId : ℤ)
  deriving DecidableEq, Repr

/-- SOURCE: contact/db/contact_ddl.sql:285-286, 315, 450, 539, 558, 574 -/
def unique : Row V D → List UniqueValue
  | person r => r.federalTaxId.toList.map .personTaxId
  | localizedOrgUnit r => [.localizedOrgUnit r.orgUnitId r.localeId]
  | email r => [.email r.email]
  | localizedRole r => [.localizedRole r.roleId r.localeId]
  | personOrgRelation r => [.personOrgRelation r.personId r.orgUnitId r.relationship]
  | personRole r => [.personRole r.personId r.roleId]
  | _ => []

/-- The lengths of the columns, the checks, and the references to rows of the installation.
SOURCE: contact/db/contact_ddl.sql:33-55, 270-276, 295-297, 313-314, 417-422, 440-441, 460-469,
536-537 -/
def check : Row V D → Bool
  | person r =>
    r.firstName.length ≤ 50 && r.middleName.all (·.length ≤ 50) && r.lastName.length ≤ 100 &&
      r.federalTaxId.all (·.length ≤ 20) && r.identificationNumber.all (·.length ≤ 30) &&
      r.passportNumber.all (·.length ≤ 30) && r.passportCountry.all (·.length = 2)
  | orgUnit r =>
    r.orgType.length ≤ 20 && ORG_TYPES.contains r.orgType && r.federalTaxId.all (·.length ≤ 20)
  | localizedOrgUnit r =>
    (INSTALLED_LOCALES.map Locale.id).contains r.localeId && r.name.length ≤ 200
  | phone r =>
    r.countryCode.length ≤ 5 && r.areaCode.all (·.length ≤ 5) && r.number.length ≤ 20 &&
      r.extension.all (·.length ≤ 10) && CONTACT_QUALIFIERS.contains r.qualifierId
  | email r => r.email.length ≤ 254 && CONTACT_QUALIFIERS.contains r.qualifierId
  | address r =>
    r.streetLine1.length ≤ 200 && r.streetLine2.all (·.length ≤ 200) && r.city.length ≤ 100 &&
      r.stateProvince.all (·.length ≤ 100) && r.postalCode.all (·.length ≤ 20) &&
      r.country.length = 2 && r.latitude.all (·.natAbs < 1000000000) &&
      r.longitude.all (·.natAbs < 1000000000) && CONTACT_QUALIFIERS.contains r.qualifierId
  | role _ => true
  | localizedRole r =>
    (INSTALLED_LOCALES.map Locale.id).contains r.localeId && r.name.length ≤ 100
  | personOrgRelation _ => true
  | personRole _ => true
  | dataVisibility _ => true

theorem weak_setNull (p : RowKey → Bool) (r : Row V D) :
    (r.setNull p).weak = r.weak.filter fun k => !p k := by
  cases r with
  | orgUnit r =>
    cases h : r.parentId with
    | none => simp [setNull, weak, orgUnits, h]
    | some id => cases hp : p (tOrgUnit, id) <;> simp [setNull, weak, orgUnits, h, hp]
  | _ => rfl

theorem setNull_setNull (p q : RowKey → Bool) (r : Row V D) :
    (r.setNull q).setNull p = r.setNull fun k => q k || p k := by
  cases r with
  | orgUnit r =>
    cases h : r.parentId with
    | none => simp [setNull, h]
    | some id => cases hq : q (tOrgUnit, id) <;> simp [setNull, h]
  | _ => rfl

theorem setNull_eq_self (p : RowKey → Bool) (r : Row V D) (h : ∀ k ∈ r.weak, p k = false) :
    r.setNull p = r := by
  cases r with
  | orgUnit r =>
    have hparent : r.parentId.filter (fun id => !p (tOrgUnit, id)) = r.parentId := by
      cases hid : r.parentId with
      | none => rfl
      | some id =>
        have hp : p (tOrgUnit, id) = false := h _ (by simp [weak, orgUnits, hid])
        simp [hp]
    exact congrArg (fun parentId => orgUnit { r with parentId }) hparent
  | _ => rfl

/-- The constraints of the tables. -/
def schema : Schema (Row V D) RowKey UniqueValue where
  key := key
  cascade := cascade
  weak := weak
  unique := unique
  check := check
  setNull := setNull
  unique_nodup r := by
    cases r with
    | person r => cases h : r.federalTaxId <;> simp [unique, h]
    | _ => simp [unique]
  key_setNull p r := by cases r <;> rfl
  cascade_setNull p r := by cases r <;> rfl
  weak_setNull := weak_setNull
  unique_setNull p r := by cases r <;> rfl
  check_setNull p r := by cases r <;> rfl
  setNull_setNull := setNull_setNull
  setNull_eq_self := setNull_eq_self

end Row

end Pensar.Model
