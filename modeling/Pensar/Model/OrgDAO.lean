import Pensar.Model.OrgDatabase

/-!
# `OrgDAO` (`contact/data/org_dao.hpp`)

The calls that insert, update and remove a unit.  Each is one statement; a call throws if the
statement is refused, and then the tables are as before.

The id of a new unit comes from the sequence of the column.  A statement that fails has used up
the id it was given, so that ids can be skipped; and it can fail for a reason outside these
tables, as when the trigger cannot write the audit log.  Both is the `Fate` of a call.
-/

set_option autoImplicit false

namespace Pensar.Model

open Pensar.Computation

variable {V : Type}

/-- struct `OrgUnitDTO`.
SOURCE: contact/data/org_dao.hpp:19-27 -/
structure OrgUnitDTO where
  id : ℤ := 0
  parentId : ℤ := 0
  orgType : SqlText
  federalTaxId : SqlText := []
  isActive : Bool := true
  keywords : SqlText := []

/-- Assignment to a column of type `VARCHAR(n)`; what is too long has to be blanks. -/
def varchar (n : ℕ) (text : SqlText) : Option SqlText :=
  if (text.drop n).all (· = ' ') then some (text.take n) else none

/-- `NULLIF (text, '')`. -/
def nullIfEmpty (text : SqlText) : Option SqlText := if text = [] then none else some text

theorem length_varchar {n : ℕ} {text stored : SqlText} (h : varchar n text = some stored) :
    stored.length ≤ n := by
  unfold varchar at h
  split at h
  · cases h
    rw [List.length_take]
    exact min_le_left _ _
  · cases h

/-- The tables, and the last id that the sequence of `T_OrgUnit` has handed out. -/
structure OrgStore (V : Type) where
  db : OrgDatabase V
  lastId : ℕ

/-- What happens to a call from outside: how many ids were skipped before it, and whether its
statement is refused. -/
structure Fate where
  skipped : ℕ := 0
  refused : Bool := false

inductive OrgCall where
  | insert (o : OrgUnitDTO) (fate : Fate)
  | update (o : OrgUnitDTO) (fate : Fate)
  | remove (id : ℤ) (fate : Fate)

/-- What a call returns: the id of the new unit, or whether there was a unit. -/
inductive OrgAnswer where
  | inserted (id : ℤ)
  | found (b : Bool)
  | threw
  deriving DecidableEq, Repr

namespace OrgDAO

/-- The values of the two columns of a limited length. -/
def columns (o : OrgUnitDTO) : Option (SqlText × Option SqlText) := do
  let orgType ← varchar 20 o.orgType
  match nullIfEmpty o.federalTaxId with
  | none => pure (orgType, none)
  | some taxId => do
    let taxId ← varchar 20 taxId
    pure (orgType, some taxId)

/-- `parent_id`: 0 stands for `NULL`.
SOURCE: contact/data/org_dao.hpp:62,148 -/
def parent (o : OrgUnitDTO) : Option ℤ := if o.parentId = 0 then none else some o.parentId

/-- The id that the sequence hands out next. -/
def nextId (s : OrgStore V) (fate : Fate) : ℕ := s.lastId + fate.skipped + 1

variable (ts : TextSearch V)

/-- SOURCE: contact/data/org_dao.hpp:56-90 -/
def insertStatement (o : OrgUnitDTO) (id : ℤ) : Option (OrgStatement V) := do
  let (orgType, taxId) ← columns o
  pure (.insertOrgUnit
    { id
      parentId := parent o
      orgType
      federalTaxId := taxId
      isActive := o.isActive
      keywords := nullIfEmpty o.keywords
      searchVector := none })

/-- SOURCE: contact/data/org_dao.hpp:141-183 -/
def updateStatement (o : OrgUnitDTO) : Option (OrgStatement V) := do
  let (orgType, taxId) ← columns o
  pure (.updateOrgUnit o.id
    { parentId := some (parent o)
      orgType := some orgType
      federalTaxId := some taxId
      isActive := some o.isActive
      keywords := some (nullIfEmpty o.keywords) })

/-- The database after the statement of a call, if it is not refused. -/
def run (db : OrgDatabase V) (statement : Option (OrgStatement V)) (fate : Fate) :
    Option (OrgDatabase V) :=
  if fate.refused then none else statement.bind (db.execute ts)

/-- SOURCE: contact/data/org_dao.hpp:56-90 -/
def insert (s : OrgStore V) (o : OrgUnitDTO) (fate : Fate) : OrgStore V × OrgAnswer :=
  match run ts s.db (insertStatement o (nextId s fate)) fate with
  | some db => (⟨db, nextId s fate⟩, .inserted (nextId s fate))
  | none => (s, .threw)

/-- SOURCE: contact/data/org_dao.hpp:141-186 -/
def update (s : OrgStore V) (o : OrgUnitDTO) (fate : Fate) : OrgStore V × OrgAnswer :=
  match run ts s.db (updateStatement o) fate with
  | some db => (⟨db, s.lastId⟩, .found (s.db.tOrgUnit.any fun u => u.id = o.id))
  | none => (s, .threw)

/-- SOURCE: contact/data/org_dao.hpp:189-200 -/
def remove (s : OrgStore V) (id : ℤ) (fate : Fate) : OrgStore V × OrgAnswer :=
  match run ts s.db (some (.deleteOrgUnit id)) fate with
  | some db => (⟨db, s.lastId⟩, .found (s.db.tOrgUnit.any fun u => u.id = id))
  | none => (s, .threw)

/-- One call after another. -/
def machine : Machine (OrgStore V) OrgCall OrgAnswer where
  step s
    | .insert o fate => insert ts s o fate
    | .update o fate => update ts s o fate
    | .remove id fate => remove ts s id fate

end OrgDAO

end Pensar.Model
