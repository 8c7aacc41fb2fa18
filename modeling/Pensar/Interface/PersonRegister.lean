import Pensar.Model.ContactSystem

/-!
# A register of persons

What `PersonDAO` is for: persons are kept under the ids that they are given, as they were handed
over, except that a text is cut to the size of its column.  There is no `NULL` here, and no row:
an empty text says that nothing is known.
-/

set_option autoImplicit false

namespace Pensar.Interface

open Pensar.Computation
open Pensar.Model

variable {D : Type}

/-- The persons by their ids, and the last id that was given. -/
@[ext] structure PersonRegister where
  find : ℤ → Option PersonDTO
  lastId : ℕ

namespace PersonRegister

def empty : PersonRegister := ⟨fun _ => none, 0⟩

/-- A text that need not be given. -/
def optional (assign : SqlText → Option SqlText) (text : SqlText) : Option SqlText :=
  if text = [] then some [] else assign text

/-- The person as it is kept; `none` if a text is too long, or a date none. -/
def kept (dates : DateText D) (p : PersonDTO) (id : ℤ) : Option PersonDTO := do
  let firstName ← varchar 50 p.firstName
  let middleName ← varchar 50 p.middleName
  let lastName ← varchar 100 p.lastName
  let federalTaxId ← varchar 20 p.federalTaxId
  let identificationNumber ← varchar 30 p.identificationNumber
  let passportNumber ← varchar 30 p.passportNumber
  let passportCountry ← optional (char 2) p.passportCountry
  let passportExpiry ← optional (fun text => (dates.dateIn text).map dates.dateOut) p.passportExpiry
  let dateOfBirth ← optional (fun text => (dates.dateIn text).map dates.dateOut) p.dateOfBirth
  pure { id, firstName, middleName, lastName, federalTaxId, identificationNumber, passportNumber,
         passportCountry, passportExpiry, dateOfBirth, keywords := p.keywords }

/-- Another person has that number. -/
def Taken (m : PersonRegister) (id : ℤ) (taxId : SqlText) : Prop :=
  taxId ≠ [] ∧ ∃ j q, j ≠ id ∧ m.find j = some q ∧ q.federalTaxId = taxId

variable (dates : DateText D)

open scoped Classical in
/-- What is kept of the person under that id, if it can be: no two persons have the same tax
number. -/
noncomputable def admitted (m : PersonRegister) (p : PersonDTO) (id : ℤ) : Option PersonDTO :=
  (kept dates p id).filter fun q => ¬ m.Taken id q.federalTaxId

noncomputable def insert (m : PersonRegister) (p : PersonDTO) (fate : Fate) :
    PersonRegister × ContactAnswer :=
  let id := m.lastId + fate.skipped + 1
  match if fate.refused then none else m.admitted dates p id with
  | some q => (⟨Function.update m.find id (some q), id⟩, .inserted id)
  | none => (m, .threw)

noncomputable def update (m : PersonRegister) (p : PersonDTO) (fate : Fate) :
    PersonRegister × ContactAnswer :=
  if fate.refused then (m, .threw)
  else if m.find p.id = none then (m, .found false)
  else
    match m.admitted dates p p.id with
    | some q => ({ m with find := Function.update m.find p.id (some q) }, .found true)
    | none => (m, .threw)

def remove (m : PersonRegister) (id : ℤ) (fate : Fate) : PersonRegister × ContactAnswer :=
  if fate.refused then (m, .threw)
  else ({ m with find := Function.update m.find id none }, .found (m.find id).isSome)

/-- The register under the calls of all DAO classes: it answers those of `PersonDAO`. -/
noncomputable def machine :
    Machine PersonRegister (DaoCall D × Fate) (Option ContactAnswer) where
  step m := fun (call, fate) =>
    match call with
    | .insertPerson p => (m.insert dates p fate).map (fun m => m) some
    | .updatePerson p => (m.update dates p fate).map (fun m => m) some
    | .removePerson id => (m.remove id fate).map (fun m => m) some
    | _ => (m, none)

end PersonRegister

end Pensar.Interface
