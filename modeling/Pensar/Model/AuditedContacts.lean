import Pensar.Computation.RowTriggers
import Pensar.Model.AuditLog
import Pensar.Model.ContactSystem

/-!
# The DAO classes over an audited database (`contact/db/contact_ddl.sql`)

The calls of the DAO classes with the logs that the installation makes: `create_audit_log` is called
for nine tables, and for each row that a statement inserts, updates or deletes in one of them the
trigger `fn_audit_log` writes a row to its log.

A statement updates more rows than the one that it names: the children of a removed unit lose their
parent, and a localized name has its unit updated.  It deletes more, too, by `ON DELETE CASCADE`.
If the trigger fails for one row, the whole call does.

Each call is a transaction of its own, and `NOW()` is the time at which it begins.
-/

set_option autoImplicit false

namespace Pensar.Model

open Pensar.Computation

/-- The tables with a log.  `T_SocialMedia` and `T_Website` are empty.
SOURCE: contact/db/contact_ddl.sql:289, 307, 433, 453, 479, 497, 514, 530, 564, 580, 608 -/
def AUDITED : List Table :=
  [.tPerson, .tOrgUnit, .tPhone, .tEmail, .tAddress, .tRole, .tPersonOrgRelation, .tPersonRole,
    .tDataVisibility]

/-- What the schema and the calls leave to the server.  `idOf` is `(data->>'id')::bigint`, and the
rows of a statement come to the trigger in any order. -/
structure Server (V D J : Type) where
  ts : TextSearch V
  dates : DateText D
  toJsonb : Row V D → J
  idOf : J → Option ℤ
  idOf_toJsonb : ∀ r, idOf (toJsonb r) = some r.key.2
  databaseUser : SqlText
  order : OrderBy fun _ _ : Change (Row V D) => True

/-- The ids that a sequence hands out; one that is lost with a failed statement leaves a gap. -/
structure Serial where
  id : ℕ → ℕ
  strictMono : StrictMono id

/-- A call of a method that writes, with the user that it is given, and the time at which it
begins. -/
structure UserCall (D : Type) where
  call : DaoCall D
  fate : Fate := {}
  username : SqlText := []
  now : Timestamp

/-- The rows of the contact tables, and what the triggers have written to the logs. -/
structure AuditedContacts (V D J : Type) where
  tables : ContactTables V D
  logs : Table → List (LogValues J)

variable {V D J : Type}

/-- The rows of a table. -/
def rowsOf (table : Table) (rows : List (Row V D)) : List (Row V D) :=
  rows.filter fun r => r.key.1 = table

/-- The row that the statement of a call updates, or the trigger behind it.
SOURCE: contact/db/contact_ddl.sql:365-384 -/
def DaoCall.updated : DaoCall D → Option RowKey
  | .updatePerson p => some (.tPerson, p.id)
  | .updateOrgUnit o => some (.tOrgUnit, o.id)
  | .insertLocalized loc => some (.tOrgUnit, loc.orgUnitId)
  | _ => none

/-- The rows that are updated or deleted: the one that is named, those that are gone, and those
that have lost a reference. -/
def DaoCall.hit (call : DaoCall D) (after : List (Row V D)) (r : Row V D) : Bool :=
  call.updated = some r.key || r.key ∉ after.map Row.key ||
    r.weak.any fun k => k ∉ after.map Row.key

namespace AuditedContacts

def installed : AuditedContacts V D J := ⟨.installed, fun _ => []⟩

/-- The session that the method opens.
SOURCE: contact/data/db_connection.hpp:42-60 -/
def session (server : Server V D J) (username : SqlText) : SessionUser where
  appUser := if username.isEmpty then none else some username
  databaseUser := server.databaseUser

/-- What the trigger of a table sees. -/
def triggered (server : Server V D J) (call : DaoCall D) (before after : List (Row V D))
    (table : Table) : List (Change (Row V D)) :=
  server.order.sort (rowChanges Row.key (call.hit after) (rowsOf table before) (rowsOf table after))

/-- What it writes; `none` if it fails.
SOURCE: contact/db/contact_ddl.sql:92-124 -/
def written (server : Server V D J) (c : UserCall D) (before after : List (Row V D))
    (table : Table) : Option (List (LogValues J)) :=
  (triggered server c.call before after table).mapM
    (fnAuditLog server.toJsonb (session server c.username) c.now)

/-- The rows of a log table. -/
def logTable (s : AuditedContacts V D J) (serial : Serial) (table : Table) : List (LogRow J) :=
  (s.logs table).zipIdx.map fun (values, i) => { values with logId := serial.id i }

end AuditedContacts

/-- The audited database under the calls of the DAO classes. -/
def auditedContacts (server : Server V D J) :
    Machine (AuditedContacts V D J) (UserCall D) ContactAnswer where
  step s c :=
    match (contactSystem server.ts server.dates).step s.tables (c.call, c.fate) with
    | (_, .threw) => (s, .threw)
    | (tables, answer) =>
      let written := AuditedContacts.written server c s.tables.rows tables.rows
      if AUDITED.all fun table => (written table).isSome then
        ({ tables
           logs := fun table =>
            if table ∈ AUDITED then s.logs table ++ (written table).getD [] else s.logs table },
          answer)
      else
        (s, .threw)

end Pensar.Model
