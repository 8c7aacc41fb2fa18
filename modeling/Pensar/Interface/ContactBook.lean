import Pensar.Model.ContactSystem

/-!
# A contact book

What `ContactDAO` is for: a phone, an e-mail or an address is in the book of its person or unit from
the call that inserts it until a call removes it, or its owner.  The book is kept from the calls and
their answers alone.
-/

set_option autoImplicit false

namespace Pensar.Interface

open Pensar.Computation
open Pensar.Model

variable {D : Type}

inductive Contact where
  | phone (p : PhoneDTO)
  | email (e : EmailDTO)
  | address (a : AddressDTO)

structure BookEntry where
  id : ℤ
  owner : ContactOwner
  contact : Contact

namespace BookEntry

def phone? : BookEntry → Option (ℤ × PhoneDTO)
  | ⟨id, _, .phone p⟩ => some (id, p)
  | _ => none

def email? : BookEntry → Option (ℤ × EmailDTO)
  | ⟨id, _, .email e⟩ => some (id, e)
  | _ => none

def address? : BookEntry → Option AddressDTO
  | ⟨_, _, .address a⟩ => some a
  | _ => none

end BookEntry

/-! ## What is kept -/

/-- A phone as it was handed over, with its texts cut to the size of their columns; `none` if one
is too long. -/
def keptPhone (p : PhoneDTO) : Option PhoneDTO := do
  let countryCode ← varchar 5 p.countryCode
  let areaCode ← varchar 5 p.areaCode
  let number ← varchar 20 p.number
  let extension ← varchar 10 p.extension
  pure { p with countryCode, areaCode, number, extension }

def keptEmail (e : EmailDTO) : Option EmailDTO := do
  let email ← varchar 254 e.email
  pure { e with email }

/-- Coordinates are rounded to six digits. -/
def keptAddress (a : AddressDTO) (id : ℤ) : Option AddressDTO := do
  let streetLine1 ← varchar 200 a.streetLine1
  let streetLine2 ← varchar 200 a.streetLine2
  let city ← varchar 100 a.city
  let stateProvince ← varchar 100 a.stateProvince
  let postalCode ← varchar 20 a.postalCode
  let country ← char 2 a.country
  let latitude ← decimal96 a.latitude
  let longitude ← decimal96 a.longitude
  pure
    { a with
      id, streetLine1, streetLine2, city, stateProvince, postalCode, country
      latitude := latitude / 1000000
      longitude := longitude / 1000000 }

/-! ## The book -/

/-- What a call enters under the id that it is answered with. -/
def entered (id : ℤ) : DaoCall D → Option BookEntry
  | .insertPhone p => do
    let owner ← ContactDAO.owner p.personId p.orgUnitId
    let kept ← keptPhone p
    pure ⟨id, owner, .phone kept⟩
  | .insertEmail e => do
    let owner ← ContactDAO.owner e.personId e.orgUnitId
    let kept ← keptEmail e
    pure ⟨id, owner, .email kept⟩
  | .insertAddress a => do
    let owner ← ContactDAO.owner a.personId a.orgUnitId
    let kept ← keptAddress a id
    pure ⟨id, owner, .address kept⟩
  | _ => none

/-- The call takes the entry out. -/
def struck : DaoCall D → BookEntry → Bool
  | .removePhone id, ⟨entry, _, .phone _⟩ => entry = id
  | .removeEmail id, ⟨entry, _, .email _⟩ => entry = id
  | .removeAddress id, ⟨entry, _, .address _⟩ => entry = id
  | .removePerson id, ⟨_, owner, _⟩ => owner = .person id
  | .removeOrgUnit id, ⟨_, owner, _⟩ => owner = .orgUnit id
  | _, _ => false

/-- A call that throws leaves the book as it is. -/
def noted (book : List BookEntry) (call : DaoCall D) : ContactAnswer → List BookEntry
  | .inserted id => book ++ (entered id call).toList
  | .found _ => book.filter fun entry => !struck call entry
  | .threw => book

/-- The book after calls and their answers. -/
def contactBook (history : List (DaoCall D × ContactAnswer)) : List BookEntry :=
  history.foldl (fun book call => noted book call.1 call.2) []

/-- What a book has of one kind for an owner: what is preferred comes first, otherwise what was
entered first. -/
def listed {α : Type} (kind : BookEntry → Option α) (isPreferred : α → Bool)
    (owner : ContactOwner) (book : List BookEntry) : List α :=
  let entries := (book.filter fun entry => entry.owner = owner).filterMap kind
  entries.filter isPreferred ++ entries.filter fun a => !isPreferred a

end Pensar.Interface
