import Pensar.Computation.Transactions
import Pensar.Model.AuditLog
import Mathlib.Logic.Function.Basic

/-!
# A database with audited tables (`contact/db/contact_ddl.sql`)

The server keeps the rows of the tables and of the log tables, and for each audited table the
argument of its trigger.  The trigger runs in the transaction that changes a row: the row that
it inserts into the log table is committed or rolled back with the change.

A transaction that changes a row holds it until it ends.  A statement that would have to wait
for another transaction, or that fails, has the value `none`.
-/

set_option autoImplicit false

namespace Pensar.Model

open Pensar.Computation

abbrev Xid := ℕ

/-- A log table: the last value of the sequence of `log_id`, and the rows in the order in which
they were inserted. -/
structure LogTable (J : Type) where
  lastId : ℕ
  entries : List (Tentative Xid (LogRow J))

variable {R J : Type}

/-- SOURCE: contact/db/contact_ddl.sql:116-120 -/
def LogTable.insert (x : Xid) (values : LogValues J) (log : LogTable J) : LogTable J :=
  ⟨log.lastId + 1, log.entries ++ [⟨some x, ⟨values, log.lastId + 1⟩⟩]⟩

structure Database (R J : Type) where
  /-- The open transactions and when they started. -/
  active : List (Xid × Timestamp)
  /-- The tables that can be audited. -/
  tables : List SqlText
  /-- The audited tables and the arguments of their triggers. -/
  triggers : List (SqlText × SqlText)
  rows : SqlText → List (Cell Xid R)
  logs : SqlText → LogTable J

/-- What a name has unquoted. -/
def isNameChar (c : Char) : Bool := c.isAlphanum || c = '_' || c = '$' || 128 ≤ c.toNat

namespace Database

/-- A database in which nothing has been stored yet. -/
def start (tables : List SqlText) : Database R J :=
  ⟨[], tables, [], fun _ => [], fun _ => ⟨0, []⟩⟩

/-- The rows of a log table that other sessions see. -/
def committedLog (db : Database R J) (log : SqlText) : List (LogRow J) :=
  Tentative.visible (fun _ => false) (db.logs log).entries

/-- The rows of a table that other sessions see. -/
def committedRows (db : Database R J) (table : SqlText) : List R :=
  Cell.versions (fun _ => false) (db.rows table)

/-- `create_audit_log`.  The indexes fail on a table that does not have the columns of a log table,
and where the name does not fit into theirs; the trigger fails without the table and where it
already exists, and it waits for the transactions that have changed the table.
SOURCE: contact/db/contact_ddl.sql:129-159 -/
def createAuditLog (db : Database R J) (pTable : SqlText) : Option (Database R J) :=
  let table := CreateAuditLog.tableName pTable
  if (CreateAuditLog.vBase pTable).all isNameChar ∧ table ∈ db.tables ∧
      CreateAuditLog.logName pTable ∉ db.tables ∧ db.triggers.lookup table = none ∧
      (db.rows table).all (·.pending.isNone) then
    some { db with triggers := (table, CreateAuditLog.vLog pTable) :: db.triggers }
  else
    none

/-- Transaction `x`, which started at `now`, changes the row in `cell`, the one at `i` of `cells`,
and the trigger runs if the table has one.
SOURCE: contact/db/contact_ddl.sql:116-120, 153-157 -/
def changeRow (toJsonb : R → J) (db : Database R J) (x : Xid) (now : Timestamp)
    (session : SessionUser) (table : SqlText) (cells : List (Cell Xid R)) (i : ℕ)
    (cell : Cell Xid R) (op : Change R) : Option (Database R J) :=
  if cell.freeFor x then
    let changed := { db with
      rows := Function.update db.rows table (cells.set i (cell.write x op.new?)) }
    match db.triggers.lookup table with
    | none => some changed
    | some vLog =>
      (fnAuditLog toJsonb session now op).map fun values =>
        { changed with
          logs := Function.update db.logs (identifier vLog)
            ((db.logs (identifier vLog)).insert x values) }
  else
    none

def begin (db : Database R J) (x : Xid) (now : Timestamp) : Option (Database R J) :=
  if (db.active.lookup x).isSome then none else some { db with active := (x, now) :: db.active }

def commit (db : Database R J) (x : Xid) : Option (Database R J) :=
  if (db.active.lookup x).isSome then
    some { db with
      active := db.active.filter fun open_ => open_.1 ≠ x
      rows := fun table => (db.rows table).map (Cell.commit x)
      logs := fun log => { db.logs log with entries := Tentative.commit x (db.logs log).entries } }
  else
    none

def rollback (db : Database R J) (x : Xid) : Option (Database R J) :=
  if (db.active.lookup x).isSome then
    some { db with
      active := db.active.filter fun open_ => open_.1 ≠ x
      rows := fun table => (db.rows table).map (Cell.rollback x)
      logs := fun log => { db.logs log with entries := Tentative.rollback x (db.logs log).entries } }
  else
    none

/-- `fn_purge_audit_log`, in a transaction of its own.
SOURCE: contact/db/contact_ddl.sql:195-207 -/
def fnPurgeAuditLog (db : Database R J) (pLogTable : SqlText) (pBefore : Timestamp) :
    Database R J :=
  let log := identifier pLogTable
  let kept := (db.logs log).entries.filter fun entry =>
    entry.writer.isSome || decide (pBefore ≤ entry.item.actionAt)
  { db with logs := Function.update db.logs log { db.logs log with entries := kept } }

/-- What `fn_purge_audit_log` answers: how many rows it deletes.
SOURCE: contact/db/contact_ddl.sql:202-206 -/
def vCount (db : Database R J) (pLogTable : SqlText) (pBefore : Timestamp) : ℕ :=
  (db.logs (identifier pLogTable)).entries.countP fun entry =>
    entry.writer.isNone && decide (entry.item.actionAt < pBefore)

end Database

end Pensar.Model
