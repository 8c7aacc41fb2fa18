import Pensar.Computation.LeftJoin
import Pensar.Computation.Machine
import Pensar.Model.OrgDAO

/-!
# Phones and e-mails (`contact/data/contact_dao.hpp`)

The rows of `T_Person`, `T_Phone` and `T_Email`, the calls of `ContactDAO` that insert and remove
phones and e-mails, the statements that insert and delete persons, and the view
`V_PersonContactSummary` over the three tables.

Of a person only the columns are kept that the view lists or that have to be unique.  Units and
their rows are in other tables: a unit that is not there, or a column of the wrong form that is not
kept, has the call refused, which is part of its `Fate`.
-/

set_option autoImplicit false

namespace Pensar.Model

open Pensar.Computation

/-! ## The rows -/

/-- SOURCE: contact/db/contact_ddl.sql:268-282 -/
structure PersonRow where
  id : ℤ
  firstName : SqlText
  middleName : Option SqlText
  lastName : SqlText
  federalTaxId : Option SqlText
  photo : Option (List (Fin 256))
  keywords : Option SqlText
  deriving DecidableEq, Repr

/-- `chk_phone_owner`, `chk_email_owner`. -/
def OneOwner (personId orgUnitId : Option ℤ) : Prop :=
  (personId.isSome ∧ orgUnitId.isNone) ∨ (personId.isNone ∧ orgUnitId.isSome)

/-- SOURCE: contact/db/contact_ddl.sql:413-428 -/
structure PhoneRow where
  id : ℤ
  personId : Option ℤ
  orgUnitId : Option ℤ
  countryCode : SqlText
  areaCode : Option SqlText
  number : SqlText
  extension : Option SqlText
  isMobile : Bool
  qualifierId : ℤ
  isPreferred : Bool
  chkPhoneOwner : OneOwner personId orgUnitId

/-- SOURCE: contact/db/contact_ddl.sql:436-448 -/
structure EmailRow where
  id : ℤ
  personId : Option ℤ
  orgUnitId : Option ℤ
  email : SqlText
  qualifierId : ℤ
  isPreferred : Bool
  isVerified : Bool
  chkEmailOwner : OneOwner personId orgUnitId

structure ContactDatabase where
  tPerson : List PersonRow
  tPhone : List PhoneRow
  tEmail : List EmailRow

/-- SOURCE: contact/db/contact_ddl.sql:395 -/
def CONTACT_QUALIFIERS : List ℤ := [1, 2, 3]

namespace ContactDatabase

/-! ## The constraints of a new row -/

/-- SOURCE: contact/db/contact_ddl.sql:33-38, 269-273, 285-286 -/
def acceptsPerson (db : ContactDatabase) (row : PersonRow) : Bool :=
  !(db.tPerson.map PersonRow.id).contains row.id &&
    row.firstName.length ≤ 50 && row.middleName.all (·.length ≤ 50) && row.lastName.length ≤ 100 &&
    row.federalTaxId.all fun taxId =>
      taxId.length ≤ 20 && !db.tPerson.any fun p => p.federalTaxId == some taxId

/-- SOURCE: contact/db/contact_ddl.sql:414-422 -/
def acceptsPhone (db : ContactDatabase) (row : PhoneRow) : Bool :=
  !(db.tPhone.map PhoneRow.id).contains row.id &&
    row.personId.all (db.tPerson.map PersonRow.id).contains &&
    CONTACT_QUALIFIERS.contains row.qualifierId

/-- SOURCE: contact/db/contact_ddl.sql:437-441, 450 -/
def acceptsEmail (db : ContactDatabase) (row : EmailRow) : Bool :=
  !(db.tEmail.map EmailRow.id).contains row.id &&
    row.personId.all (db.tPerson.map PersonRow.id).contains &&
    CONTACT_QUALIFIERS.contains row.qualifierId &&
    !(db.tEmail.map EmailRow.email).contains row.email

/-! ## Statements -/

def insertPerson (db : ContactDatabase) (row : PersonRow) : Option ContactDatabase :=
  if db.acceptsPerson row then some { db with tPerson := db.tPerson ++ [row] } else none

/-- `ON DELETE CASCADE` takes the person's phones and e-mails along.
SOURCE: contact/db/contact_ddl.sql:415, 438 -/
def deletePerson (db : ContactDatabase) (id : ℤ) : ContactDatabase where
  tPerson := db.tPerson.filter fun p => p.id ≠ id
  tPhone := db.tPhone.filter fun ph => ph.personId ≠ some id
  tEmail := db.tEmail.filter fun e => e.personId ≠ some id

def insertPhone (db : ContactDatabase) (row : PhoneRow) : Option ContactDatabase :=
  if db.acceptsPhone row then some { db with tPhone := db.tPhone ++ [row] } else none

def deletePhone (db : ContactDatabase) (id : ℤ) : ContactDatabase :=
  { db with tPhone := db.tPhone.filter fun ph => ph.id ≠ id }

def insertEmail (db : ContactDatabase) (row : EmailRow) : Option ContactDatabase :=
  if db.acceptsEmail row then some { db with tEmail := db.tEmail ++ [row] } else none

def deleteEmail (db : ContactDatabase) (id : ℤ) : ContactDatabase :=
  { db with tEmail := db.tEmail.filter fun e => e.id ≠ id }

/-! ## The view -/

/-- The phones that are joined with a person.
SOURCE: contact/db/contact_ddl.sql:719 -/
def preferredMobiles (db : ContactDatabase) (person : ℤ) : List PhoneRow :=
  db.tPhone.filter fun ph => ph.personId = some person && ph.isPreferred && ph.isMobile

/-- The e-mails that are joined with a person.
SOURCE: contact/db/contact_ddl.sql:720 -/
def preferredEmails (db : ContactDatabase) (person : ℤ) : List EmailRow :=
  db.tEmail.filter fun e => e.personId = some person && e.isPreferred

end ContactDatabase

/-- A row of the view. -/
structure PersonContactSummary where
  id : ℤ
  firstName : SqlText
  middleName : Option SqlText
  lastName : SqlText
  photo : Option (List (Fin 256))
  keywords : Option SqlText
  preferredPhone : Option SqlText
  preferredEmail : Option SqlText
  deriving DecidableEq, Repr

/-- `country_code || area_code || number`. -/
def PhoneRow.text (ph : PhoneRow) : Option SqlText :=
  ph.areaCode.map fun areaCode => ph.countryCode ++ areaCode ++ ph.number

/-- SOURCE: contact/db/contact_ddl.sql:708-720 -/
def ContactDatabase.vPersonContactSummary (db : ContactDatabase) : List PersonContactSummary :=
  (leftJoin (fun r => db.preferredEmails r.1.id)
    (leftJoin (fun p => db.preferredMobiles p.id) db.tPerson)).map fun ((p, ph), e) =>
      { id := p.id
        firstName := p.firstName
        middleName := p.middleName
        lastName := p.lastName
        photo := p.photo
        keywords := p.keywords
        preferredPhone := ph.bind PhoneRow.text
        preferredEmail := e.map EmailRow.email }

/-! ## The calls -/

/-- SOURCE: contact/data/contact_dao.hpp:20-32 -/
structure PhoneDTO where
  personId : ℤ := 0
  orgUnitId : ℤ := 0
  countryCode : SqlText
  areaCode : SqlText
  number : SqlText
  extension : SqlText := []
  isMobile : Bool := false
  qualifierId : ℤ := 3
  isPreferred : Bool := false

/-- SOURCE: contact/data/contact_dao.hpp:36-45 -/
structure EmailDTO where
  personId : ℤ := 0
  orgUnitId : ℤ := 0
  email : SqlText
  qualifierId : ℤ := 3
  isPreferred : Bool := false
  isVerified : Bool := false

/-- The tables, and the last ids that the sequences of `T_Phone` and `T_Email` have handed out. -/
structure ContactStore where
  db : ContactDatabase
  lastPhoneId : ℕ
  lastEmailId : ℕ

/-- A call of `ContactDAO`, or a statement that inserts or deletes a person. -/
inductive ContactCall where
  | insertPerson (row : PersonRow) (refused : Bool)
  | deletePerson (id : ℤ) (refused : Bool)
  | insertPhone (p : PhoneDTO) (fate : Fate)
  | removePhone (id : ℤ) (fate : Fate)
  | insertEmail (e : EmailDTO) (fate : Fate)
  | removeEmail (id : ℤ) (fate : Fate)

/-- What a call returns: the id of the new row, 0 if no row is inserted, or whether there was one
to delete. -/
inductive ContactAnswer where
  | inserted (id : ℤ)
  | found (b : Bool)
  | threw
  deriving DecidableEq, Repr

/-- Whose a phone or an e-mail is. -/
inductive ContactOwner where
  | person (id : ℤ)
  | orgUnit (id : ℤ)
  deriving DecidableEq, Repr

namespace ContactOwner

def personId : ContactOwner → Option ℤ
  | person id => some id
  | orgUnit _ => none

def orgUnitId : ContactOwner → Option ℤ
  | person _ => none
  | orgUnit id => some id

theorem oneOwner (o : ContactOwner) : OneOwner o.personId o.orgUnitId := by
  cases o with
  | person id => exact Or.inl ⟨rfl, rfl⟩
  | orgUnit id => exact Or.inr ⟨rfl, rfl⟩

end ContactOwner

namespace ContactDAO

/-- The branch that is taken; `none` if no statement is sent.
SOURCE: contact/data/contact_dao.hpp:83, 104, 183, 198 -/
def owner (personId orgUnitId : ℤ) : Option ContactOwner :=
  if personId ≠ 0 ∧ orgUnitId = 0 then some (.person personId)
  else if personId = 0 ∧ orgUnitId ≠ 0 then some (.orgUnit orgUnitId)
  else none

/-- The row of the statement; `none` if a text is too long for its column.
SOURCE: contact/data/contact_dao.hpp:85-102, 106-123 -/
def phoneRow (p : PhoneDTO) (id : ℤ) (o : ContactOwner) : Option PhoneRow := do
  let countryCode ← varchar 5 p.countryCode
  let areaCode ← varchar 5 p.areaCode
  let number ← varchar 20 p.number
  let extension ←
    match nullIfEmpty p.extension with
    | none => some none
    | some extension => (varchar 10 extension).map some
  pure
    { id
      personId := o.personId
      orgUnitId := o.orgUnitId
      countryCode
      areaCode := some areaCode
      number
      extension
      isMobile := p.isMobile
      qualifierId := p.qualifierId
      isPreferred := p.isPreferred
      chkPhoneOwner := o.oneOwner }

/-- SOURCE: contact/data/contact_dao.hpp:185-196, 200-211 -/
def emailRow (e : EmailDTO) (id : ℤ) (o : ContactOwner) : Option EmailRow := do
  let email ← varchar 254 e.email
  pure
    { id
      personId := o.personId
      orgUnitId := o.orgUnitId
      email
      qualifierId := e.qualifierId
      isPreferred := e.isPreferred
      isVerified := e.isVerified
      chkEmailOwner := o.oneOwner }

/-- The id that the sequence of `T_Phone` hands out next. -/
def nextPhoneId (s : ContactStore) (fate : Fate) : ℕ := s.lastPhoneId + fate.skipped + 1

/-- The id that the sequence of `T_Email` hands out next. -/
def nextEmailId (s : ContactStore) (fate : Fate) : ℕ := s.lastEmailId + fate.skipped + 1

/-- The tables after the statement that inserts a row, if it is not refused. -/
def run {ρ : Type} (row : Option ρ) (insert : ρ → Option ContactDatabase) (fate : Fate) :
    Option ContactDatabase :=
  if fate.refused then none else row.bind insert

/-- SOURCE: contact/data/contact_dao.hpp:75-127 -/
def insertPhone (s : ContactStore) (p : PhoneDTO) (fate : Fate) : ContactStore × ContactAnswer :=
  match owner p.personId p.orgUnitId with
  | none => (s, .inserted 0)
  | some o =>
    match run (phoneRow p (nextPhoneId s fate) o) s.db.insertPhone fate with
    | some db => ({ s with db, lastPhoneId := nextPhoneId s fate }, .inserted (nextPhoneId s fate))
    | none => (s, .threw)

/-- SOURCE: contact/data/contact_dao.hpp:160-171 -/
def removePhone (s : ContactStore) (id : ℤ) (fate : Fate) : ContactStore × ContactAnswer :=
  if fate.refused then (s, .threw)
  else ({ s with db := s.db.deletePhone id }, .found (s.db.tPhone.any fun ph => ph.id = id))

/-- SOURCE: contact/data/contact_dao.hpp:175-215 -/
def insertEmail (s : ContactStore) (e : EmailDTO) (fate : Fate) : ContactStore × ContactAnswer :=
  match owner e.personId e.orgUnitId with
  | none => (s, .inserted 0)
  | some o =>
    match run (emailRow e (nextEmailId s fate) o) s.db.insertEmail fate with
    | some db => ({ s with db, lastEmailId := nextEmailId s fate }, .inserted (nextEmailId s fate))
    | none => (s, .threw)

/-- SOURCE: contact/data/contact_dao.hpp:244-255 -/
def removeEmail (s : ContactStore) (id : ℤ) (fate : Fate) : ContactStore × ContactAnswer :=
  if fate.refused then (s, .threw)
  else ({ s with db := s.db.deleteEmail id }, .found (s.db.tEmail.any fun e => e.id = id))

def insertPerson (s : ContactStore) (row : PersonRow) (refused : Bool) :
    ContactStore × ContactAnswer :=
  match if refused then none else s.db.insertPerson row with
  | some db => ({ s with db }, .inserted row.id)
  | none => (s, .threw)

def deletePerson (s : ContactStore) (id : ℤ) (refused : Bool) : ContactStore × ContactAnswer :=
  if refused then (s, .threw)
  else ({ s with db := s.db.deletePerson id }, .found (s.db.tPerson.any fun p => p.id = id))

/-- One call after another. -/
def machine : Machine ContactStore ContactCall ContactAnswer where
  step s
    | .insertPerson row refused => insertPerson s row refused
    | .deletePerson id refused => deletePerson s id refused
    | .insertPhone p fate => insertPhone s p fate
    | .removePhone id fate => removePhone s id fate
    | .insertEmail e fate => insertEmail s e fate
    | .removeEmail id fate => removeEmail s id fate

/-- After the installation. -/
def installed : ContactStore := ⟨⟨[], [], []⟩, 0, 0⟩

end ContactDAO

end Pensar.Model
