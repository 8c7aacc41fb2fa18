import Pensar.Computation.LikePattern
import Pensar.Computation.OrderBy
import Pensar.Computation.Replay
import Mathlib.Data.Char
import Mathlib.Data.List.Lex

/-!
# Audit logs (`contact/db/contact_ddl.sql`)

Every audited table has a log table, and a trigger that writes one row there for each row of the
table that is inserted, updated or deleted.  `create_audit_log` makes the log table and the
trigger; both names come from the name of the table.

`R` is the type of the rows of a table and `J` that of JSON values.  A query that fails has the
value `none`.
-/

set_option autoImplicit false

namespace Pensar.Model

open Pensar.Computation

abbrev SqlText := List Char

/-- Times are in microseconds. -/
abbrev Timestamp := ℤ

variable {R J : Type}

/-! ## Names -/

def lower (text : SqlText) : SqlText := text.map Char.toLower

/-- The characters that fit into `n` bytes. -/
def clip : ℕ → SqlText → SqlText
  | n, c :: cs => if c.utf8Size ≤ n then c :: clip (n - c.utf8Size) cs else []
  | _, [] => []

/-- A name as the server keeps it: what is over 63 bytes is cut off. -/
def identifier (name : SqlText) : SqlText := clip 63 name

namespace CreateAuditLog

/-- SOURCE: contact/db/contact_ddl.sql:132 -/
def vTbl (pTable : SqlText) : SqlText := lower pTable

/-- SOURCE: contact/db/contact_ddl.sql:133 -/
def vBase (pTable : SqlText) : SqlText := (vTbl pTable).drop 2

/-- SOURCE: contact/db/contact_ddl.sql:134 -/
def vLog (pTable : SqlText) : SqlText := "t_log_".toList ++ vBase pTable

/-- The table that a call is about. -/
def tableName (pTable : SqlText) : SqlText := identifier (vTbl pTable)

/-- The log table of a call. -/
def logName (pTable : SqlText) : SqlText := identifier (vLog pTable)

end CreateAuditLog

/-! ## The rows of a log table -/

inductive AuditAction where
  | C
  | U
  | D
  deriving DecidableEq, Repr

def AuditAction.char : AuditAction → Char
  | .C => 'C'
  | .U => 'U'
  | .D => 'D'

/-- The columns that the trigger fills in.
SOURCE: contact/db/contact_ddl.sql:138-143 -/
structure LogValues (J : Type) where
  action : AuditAction
  actionBy : SqlText
  actionAt : Timestamp
  oldData : Option J
  newData : Option J
  deriving DecidableEq, Repr

structure LogRow (J : Type) extends LogValues J where
  logId : ℕ
  deriving DecidableEq, Repr

/-- The user of a session: `app.current_user`, if it was ever set, and the database user. -/
structure SessionUser where
  appUser : Option SqlText
  databaseUser : SqlText
  deriving DecidableEq, Repr

/-- SOURCE: contact/db/contact_ddl.sql:98-102 -/
def SessionUser.vUser (session : SessionUser) : SqlText :=
  match session.appUser with
  | none => session.databaseUser
  | some user => if user.isEmpty then session.databaseUser else user

/-- The trigger function: the row that it inserts, `none` if the user does not fit into
`D_AuditUser`.
SOURCE: contact/db/contact_ddl.sql:92-124 -/
def fnAuditLog (toJsonb : R → J) (session : SessionUser) (now : Timestamp) (op : Change R) :
    Option (LogValues J) :=
  let vUser := session.vUser
  let values : LogValues J :=
    match op with
    | .created new => ⟨.C, vUser, now, none, some (toJsonb new)⟩
    | .updated old new => ⟨.U, vUser, now, some (toJsonb old), some (toJsonb new)⟩
    | .deleted old => ⟨.D, vUser, now, some (toJsonb old), none⟩
  if vUser.length ≤ 100 then some values else none

/-! ## Queries -/

/-- The parameters of a search; `none` is NULL. -/
structure SearchFilters where
  pAction : Option Char
  pActionBy : Option SqlText
  pFrom : Option Timestamp
  pTo : Option Timestamp

/-- SOURCE: contact/db/contact_ddl.sql:242-245 -/
def SearchFilters.accepts (filters : SearchFilters) (row : LogRow J) : Bool :=
  filters.pAction.all (fun pAction => row.action.char = pAction) &&
    filters.pActionBy.all (fun pActionBy => row.actionBy = pActionBy) &&
    filters.pFrom.all (fun pFrom => pFrom ≤ row.actionAt) &&
    filters.pTo.all fun pTo => row.actionAt < pTo

/-- A table or view of the schema `public`: a log table that `create_audit_log` made, with its
rows, or another one, with what the query of a search would read in it.  The query fails on a
table that does not have the columns of a log table. -/
inductive PublicTable (J : Type) where
  | log (pTable : SqlText) (rows : List (LogRow J))
  | other (name : SqlText) (rows : Option (List (LogRow J)))

namespace PublicTable

def name : PublicTable J → SqlText
  | log pTable _ => CreateAuditLog.logName pTable
  | other name _ => name

def rows? : PublicTable J → Option (List (LogRow J))
  | log _ rows => some rows
  | other _ rows => rows

end PublicTable

/-- A row of the result of a search. -/
structure FoundRow (J : Type) where
  sourceTable : SqlText
  row : LogRow J
  deriving DecidableEq, Repr

/-- `ORDER BY action_at DESC`. -/
abbrev NewestFirst (J : Type) := OrderBy (Descending fun found : FoundRow J => found.row.actionAt)

/-- The pattern of the names of log tables.
SOURCE: contact/db/contact_ddl.sql:235 -/
def logTablePattern : SqlText := "T_LOG_%".toList

/-- The part of the query about one table.
SOURCE: contact/db/contact_ddl.sql:238-246 -/
def selectFrom (filters : SearchFilters) (table : PublicTable J) : Option (List (FoundRow J)) :=
  table.rows?.map fun rows => (rows.filter filters.accepts).map (FoundRow.mk table.name)

/-- SOURCE: contact/db/contact_ddl.sql:213-256 -/
def fnSearchAllAuditLogs (order : NewestFirst J) (tables : List (PublicTable J))
    (filters : SearchFilters) (pLimit : Option ℤ) : Option (List (FoundRow J)) := do
  let vTbls := (tables.filter fun table => like table.name logTablePattern).mergeSort
    fun table other => decide (table.name ≤ other.name)
  if vTbls.isEmpty then
    return []
  let selected ← vTbls.mapM (selectFrom filters)
  -- a limit below zero is an error of the server
  if pLimit.any (· < 0) then
    none
  return limited (pLimit.map Int.toNat) (order.sort selected.flatten)

end Pensar.Model
