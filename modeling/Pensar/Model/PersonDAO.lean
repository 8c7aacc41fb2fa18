import Pensar.Computation.LikePattern
import Pensar.Computation.OrderBy
import Mathlib.Data.Prod.Lex
import Pensar.Model.ContactTables

/-!
# `PersonDAO` (`contact/data/person_dao.hpp`)

The calls that insert, update and remove a person, and the queries that find persons.  An empty
text of a `PersonDTO` stands for `NULL`, and a date is a text.
-/

set_option autoImplicit false

namespace Pensar.Model

open Pensar.Computation

variable {V D : Type}

/-- struct `PersonDTO`.
SOURCE: contact/data/person_dao.hpp:19-37 -/
@[ext] structure PersonDTO where
  id : ℤ := 0
  firstName : SqlText
  middleName : SqlText := []
  lastName : SqlText
  federalTaxId : SqlText := []
  identificationNumber : SqlText := []
  passportNumber : SqlText := []
  passportCountry : SqlText := []
  passportExpiry : SqlText := []
  dateOfBirth : SqlText := []
  keywords : SqlText := []
  deriving DecidableEq, Repr

variable (ts : TextSearch V) (dates : DateText D)

/-- SOURCE: contact/db/contact_ddl.sql:329-335 -/
def PersonRecord.vector (new : PersonRecord V D) : V :=
  [ts.setweight (ts.toTsvector (new.middleName.getD [])) 'B',
    ts.setweight (ts.toTsvector new.lastName) 'A',
    ts.setweight (ts.toTsvector (new.federalTaxId.getD [])) 'C',
    ts.setweight (ts.toTsvector (new.identificationNumber.getD [])) 'C',
    ts.setweight (ts.toTsvector (new.keywords.getD [])) 'B'].foldl ts.concat
      (ts.setweight (ts.toTsvector new.firstName) 'A')

/-- SOURCE: contact/db/contact_ddl.sql:326-338 -/
def fnPersonSearchVector (new : PersonRecord V D) : PersonRecord V D :=
  { new with searchVector := some (new.vector ts) }

namespace PersonDAO

/-- The values that the statement assigns, and the search vector that the trigger computes; `none`
if a value does not fit.
SOURCE: contact/data/person_dao.hpp:51-73, 124-148 -/
def row (p : PersonDTO) (id : ℤ) : Option (PersonRecord V D) := do
  let firstName ← varchar 50 p.firstName
  let middleName ← nullable (varchar 50) p.middleName
  let lastName ← varchar 100 p.lastName
  let federalTaxId ← nullable (varchar 20) p.federalTaxId
  let identificationNumber ← nullable (varchar 30) p.identificationNumber
  let passportNumber ← nullable (varchar 30) p.passportNumber
  let passportCountry ← nullable (char 2) p.passportCountry
  let passportExpiry ← nullable dates.dateIn p.passportExpiry
  let dateOfBirth ← nullable dates.dateIn p.dateOfBirth
  pure (fnPersonSearchVector ts
    { id, firstName, middleName, lastName, federalTaxId, identificationNumber, passportNumber,
      passportCountry, passportExpiry, dateOfBirth
      keywords := nullIfEmpty p.keywords
      searchVector := none })

/-- What the columns hold if every value fits. -/
theorem row_eq_some_iff {p : PersonDTO} {id : ℤ} {r : PersonRecord V D} :
    row ts dates p id = some r ↔
      r.id = id ∧ varchar 50 p.firstName = some r.firstName ∧
        nullable (varchar 50) p.middleName = some r.middleName ∧
        varchar 100 p.lastName = some r.lastName ∧
        nullable (varchar 20) p.federalTaxId = some r.federalTaxId ∧
        nullable (varchar 30) p.identificationNumber = some r.identificationNumber ∧
        nullable (varchar 30) p.passportNumber = some r.passportNumber ∧
        nullable (char 2) p.passportCountry = some r.passportCountry ∧
        nullable dates.dateIn p.passportExpiry = some r.passportExpiry ∧
        nullable dates.dateIn p.dateOfBirth = some r.dateOfBirth ∧
        nullIfEmpty p.keywords = r.keywords ∧ r.searchVector = some (r.vector ts) := by
  simp only [row, Option.bind_eq_bind, Option.bind_eq_some_iff, Option.pure_def,
    Option.some.injEq]
  constructor
  · rintro ⟨_, h₁, _, h₂, _, h₃, _, h₄, _, h₅, _, h₆, _, h₇, _, h₈, _, h₉, rfl⟩
    exact ⟨rfl, h₁, h₂, h₃, h₄, h₅, h₆, h₇, h₈, h₉, rfl, rfl⟩
  · rintro ⟨hid, h₁, h₂, h₃, h₄, h₅, h₆, h₇, h₈, h₉, h₁₀, h₁₁⟩
    refine ⟨_, h₁, _, h₂, _, h₃, _, h₄, _, h₅, _, h₆, _, h₇, _, h₈, _, h₉, ?_⟩
    rw [h₁₀, ← hid]
    exact PersonRecord.ext rfl rfl rfl rfl rfl rfl rfl rfl rfl rfl rfl h₁₁.symm

/-- The columns of a result, without `NULL`.
SOURCE: contact/data/person_dao.hpp:86-93, 101-112 -/
def dto (r : PersonRecord V D) : PersonDTO where
  id := r.id
  firstName := r.firstName
  middleName := r.middleName.getD []
  lastName := r.lastName
  federalTaxId := r.federalTaxId.getD []
  identificationNumber := r.identificationNumber.getD []
  passportNumber := r.passportNumber.getD []
  passportCountry := r.passportCountry.getD []
  passportExpiry := (r.passportExpiry.map dates.dateOut).getD []
  dateOfBirth := (r.dateOfBirth.map dates.dateOut).getD []
  keywords := r.keywords.getD []

/-- SOURCE: contact/data/person_dao.hpp:46-76 -/
def insert (s : ContactTables V D) (p : PersonDTO) (fate : Fate) :
    ContactTables V D × ContactAnswer :=
  s.insertRow .tPerson (fun id => (row ts dates p id).map .person) id fate

/-- SOURCE: contact/data/person_dao.hpp:79-115 -/
def findById (s : ContactTables V D) (id : ℤ) : Option PersonDTO :=
  ((Row.select Row.person? s.rows).find? fun r => r.id = id).map (dto dates)

/-- SOURCE: contact/data/person_dao.hpp:118-151 -/
def update (s : ContactTables V D) (p : PersonDTO) (fate : Fate) :
    ContactTables V D × ContactAnswer :=
  s.updateRow (.tPerson, p.id) (fun _ => (row ts dates p p.id).map .person) fate

/-- SOURCE: contact/data/person_dao.hpp:154-165 -/
def remove (s : ContactTables V D) (id : ℤ) (fate : Fate) :
    ContactTables V D × ContactAnswer :=
  s.removeRow (.tPerson, id) fate

/-! ## Lists -/

section Lists

variable {κ : Type} [LinearOrder κ] (collate : SqlText → κ)

/-- `ORDER BY last_name, first_name`, where `collate` says how the server orders texts. -/
def nameKey (r : PersonRecord V D) : κ ×ₗ κ := toLex (collate r.lastName, collate r.firstName)

abbrev ByName (V D : Type) : Type := OrderBy (Ascending (nameKey (V := V) (D := D) collate))

/-- The answer; `none` if the call throws, as it does for a limit or an offset below zero.
SOURCE: contact/data/person_dao.hpp:168-200 -/
def listAll (order : ByName collate V D) (s : ContactTables V D) (limit offset : ℤ) :
    Option (List PersonDTO) :=
  if limit < 0 ∨ offset < 0 then none
  else some ((((order.sort (Row.select Row.person? s.rows)).drop offset.toNat).take
    limit.toNat).map (dto dates))

end Lists

end PersonDAO

end Pensar.Model
