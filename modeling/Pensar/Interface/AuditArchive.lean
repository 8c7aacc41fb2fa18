import Pensar.Interface.AuditHistory

/-!
# Archives of audited tables

The log of a table is purged from time to time.  What it holds then is the history of the table
without the changes that the purges have taken: those that were committed when the purge ran, in a
transaction that had begun before the time it was called with.
-/

set_option autoImplicit false

namespace Pensar.Interface

open Pensar.Computation
open Pensar.Model

variable {R J : Type}

/-- A call, what the sessions learn from it, and what it answers if it is a purge. -/
structure AuditReply (R : Type) where
  call : AuditCall R
  event : AuditEvent R
  deleted : ℕ

def deletedBy (db : Database R J) : AuditCall R → ℕ
  | .purge pLogTable pBefore => db.vCount pLogTable pBefore
  | _ => 0

def replyMachine (toJsonb : R → J) : Machine (Database R J) (AuditCall R) (AuditReply R) where
  step db call :=
    (((auditMachine toJsonb).step db call).1,
      ⟨call, ((auditMachine toJsonb).step db call).2, deletedBy db call⟩)

/-- What a log is to hold, and what the purges have taken. -/
structure Archive (R : Type) where
  kept : History R
  purged : List (Deed R)

namespace Archive

def empty : Archive R := ⟨[], []⟩

/-- A purge takes the committed changes of the transactions that began before a time. -/
def purge (archive : Archive R) (pBefore : Timestamp) : Archive R :=
  ⟨archive.kept.filter fun entry => !entry.expired fun deed => deed.startedAt < pBefore,
    archive.purged ++
      (archive.kept.filter (Tentative.expired fun deed => deed.startedAt < pBefore)).map
        Tentative.item⟩

def note (table log : SqlText) (archive : Archive R) (reply : AuditReply R) : Archive R :=
  match reply.call with
  | .purge pLogTable pBefore =>
    if identifier pLogTable = log then archive.purge pBefore else archive
  | _ => { archive with kept := record table archive.kept reply.event }

end Archive

/-- The archive of a table over a run. -/
def archiveOf (table log : SqlText) (replies : List (AuditReply R)) : Archive R :=
  replies.foldl (Archive.note table log) .empty

/-- How many rows of a log a call says it has deleted. -/
def deletedFrom (log : SqlText) (reply : AuditReply R) : ℕ :=
  match reply.call with
  | .purge pLogTable _ => if identifier pLogTable = log then reply.deleted else 0
  | _ => 0

/-! ## A table from its registration on -/

section Registered

variable (toJsonb : R → J) (tables : List SqlText) (before after : List (AuditCall R))
  (pTable : SqlText)

def repliesAfter : List (AuditReply R) :=
  (replyMachine toJsonb).outputs (databaseAfter toJsonb tables (before ++ [.createAuditLog pTable]))
    after

def archiveAfter : Archive R :=
  archiveOf (CreateAuditLog.tableName pTable) (CreateAuditLog.logName pTable)
    (repliesAfter toJsonb tables before after pTable)

def historyAfter : History R :=
  historyOf (CreateAuditLog.tableName pTable)
    ((repliesAfter toJsonb tables before after pTable).map AuditReply.event)

/-- How many rows the purges of the log say they have deleted. -/
def deletedAfter : ℕ :=
  ((repliesAfter toJsonb tables before after pTable).map
    (deletedFrom (CreateAuditLog.logName pTable))).sum

end Registered

/-- No call registers another table with the same log. -/
def Apart (table log : SqlText) : AuditCall R → Prop
  | .createAuditLog pTable =>
    CreateAuditLog.logName pTable = log → CreateAuditLog.tableName pTable = table
  | _ => True

theorem outputs_replyMachine (toJsonb : R → J) (db : Database R J) (calls : List (AuditCall R)) :
    ((replyMachine toJsonb).outputs db calls).map AuditReply.event =
      (auditMachine toJsonb).outputs db calls := by
  induction calls generalizing db with
  | nil => rfl
  | cons call calls ih => exact congrArg _ (ih _)

end Pensar.Interface
