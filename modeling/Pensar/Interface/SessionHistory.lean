import Pensar.Computation.Machine
import Pensar.Model.DbConnection

/-!
# Histories of sessions

Clients open sessions, run statements in them and close them, in any order.  A call is about
one position of the pool: `lease` gives any that is free, and afterwards only the session
there uses its connection, so that what the constructor and the destructor do to it is one
step.  A call for a session that does not exist, or a position that is not free, does nothing.
-/

set_option autoImplicit false

namespace Pensar.Interface

open Pensar.Computation
open Pensar.Model

/-- What a client runs in a session.  `work` stands for any statement that neither sets a
variable nor ends or begins a transaction. -/
inductive ClientStatement where
  | begin
  | commit
  | rollback
  | work
  deriving DecidableEq, Repr

def ClientStatement.statement : ClientStatement → SessionVariables.Statement SessionVariable S
  | .begin => .begin
  | .commit => .commit
  | .rollback => .rollback
  | .work => .work

inductive SessionAct where
  | openSession (username locale : S) (fault : Option Fault)
  | execute (statement : ClientStatement) (fails : Bool)
  | closeSession (fault : Option Fault)

structure SessionCall where
  slot : ℕ
  act : SessionAct

def slotStep (act : SessionAct) (slot : Slot) : Slot :=
  match act with
  | .openSession username locale fault =>
    if slot.leased then slot else ScopedSession.constructAt slot username locale fault
  | .execute statement fails =>
    if slot.session.isSome then
      { slot with
        connection := (SessionVariables.execute slot.connection statement.statement fails).1 }
    else
      slot
  | .closeSession fault =>
    if slot.session.isSome then ScopedSession.destructAt slot fault else slot

/-- The pool of the sessions. -/
def sessionMachine : Machine (List Slot) SessionCall Unit where
  step pool call := (pool.modify call.slot (slotStep call.act), ())

/-- A pool of new connections.
SOURCE: contact/data/db_connection.hpp:97-106 -/
def newPool (poolSize : ℕ) : List Slot := List.replicate poolSize ⟨.new, false, none⟩

/-- `P` of the position of a call, if the pool has it. -/
def AtSlot (P : SessionAct → Slot → Prop) (pool : List Slot) (call : SessionCall) : Prop :=
  ∀ slot, pool[call.slot]? = some slot → P call.act slot

/-! ## The slots -/

def leasedCount (pool : List Slot) : ℕ := pool.countP fun slot => slot.leased

/-- The number of live sessions. -/
def liveCount (pool : List Slot) : ℕ := pool.countP fun slot => slot.session.isSome

/-- No position is lost: as many are leased as sessions are alive, and with none alive every
position can be leased. -/
def NoSlotLost (pool : List Slot) : Prop :=
  leasedCount pool = liveCount pool ∧
    (liveCount pool = 0 → ∀ slot ∈ pool, slot.leased = false)

/-- A `SET` of the constructor throws: the server rejects it while a transaction is aborted,
or it fails by itself. -/
def SetThrows (c : Connection) (username locale : S) (fault : Option Fault) : Prop :=
  (username ≠ [] ∧ (c.transaction = .aborted ∨ fault = some .first)) ∨
    (locale ≠ [] ∧ (c.transaction = .aborted ∨ fault = some .second))

/-- No session is opened with a `SET` that throws. -/
def OpensWhole : SessionAct → Slot → Prop
  | .openSession username locale fault, slot =>
    slot.leased = false → ¬ SetThrows slot.connection username locale fault
  | _, _ => True

/-! ## The identities -/

/-- The variables that a session is to have. -/
def given (session : S × S) : SessionVariable → Option S
  | .currentUser => if session.1.isEmpty then none else some session.1
  | .locale => if session.2.isEmpty then none else some session.2

/-- A statement of a session that the server takes runs with the variables of the session. -/
def RunsAsGiven : SessionAct → Slot → Prop
  | .execute _ _, slot => ∀ session, slot.session = some session →
      slot.connection.transaction ≠ .aborted → slot.connection.vars = given session
  | _, _ => True

/-- A session is closed with no transaction open on its connection, and the two `RESET`s do
not fail by themselves; or else a rollback has left nothing to reset. -/
def ClosesClean : SessionAct → Slot → Prop
  | .closeSession fault, slot => slot.session.isSome →
    match slot.connection.transaction with
    | .idle =>
      match fault with
      | none => True
      | some .first => slot.connection.vars = SessionVariables.unset
      | some .second => slot.connection.vars .locale = none
    | .started saved => fault.isSome ∧ saved = SessionVariables.unset
    | .aborted => slot.connection.vars = SessionVariables.unset
  | _, _ => True

end Pensar.Interface
