import Pensar.Computation.Machine
import Pensar.Model.Factory

/-!
# Histories of a pool factory and its clients

Clients call `get`, copy the handles they hold and release them; handles are numbered in
the order in which they come into being.  A pool factory can also be reset.

The histories run `get` up to a depth of its recursion.  A `get` that does not return within
it, and one that fails its assertion, leave everything as it was.
-/

set_option autoImplicit false

namespace Pensar.Interface

open Pensar.Computation
open Pensar.Model

variable {T Args : Type}

inductive ClientCall (Args : Type) where
  | get (args : Args)
  | copy (handle : ℕ)
  | release (handle : ℕ)
  deriving DecidableEq

def ClientCall.IsGet : ClientCall Args → Prop
  | get _ => True
  | copy _ => False
  | release _ => False

inductive PoolCall (Args : Type) where
  | client (call : ClientCall Args)
  | reset (initialPoolSize aRefillSize : ℕ) (args : Args)
  deriving DecidableEq

inductive PoolAnswer where
  | returned (a : Address)
  | assertFailed
  | deeper
  | done
  deriving DecidableEq

/-! ## The handles of the clients -/

def hold (a : Address) (s : PoolState T) : PoolState T :=
  { s with memory := { s.memory with handles := s.memory.handles ++ [some a] } }

def copyHandle (handle : ℕ) (s : PoolState T) : PoolState T :=
  match s.memory.handles[handle]? with
  | some (some a) => hold a s
  | _ => s

def releaseHandle (handle : ℕ) (s : PoolState T) : PoolState T :=
  { s with memory := { s.memory with handles := s.memory.handles.set handle none } }

/-- Some client holds a handle of the object. -/
def Held (s : PoolState T) (a : Address) : Prop := some a ∈ s.memory.handles

instance (s : PoolState T) (a : Address) : Decidable (Held s a) :=
  inferInstanceAs (Decidable (_ ∈ _))

/-! ## The steps -/

/-- A call by a client of a factory with the given `get`. -/
def clientStep (get : Args → PoolState T → GetResult (PoolState T)) (s : PoolState T) :
    ClientCall Args → PoolState T × PoolAnswer
  | .get args =>
    match get args s with
    | .returned a s' => (hold a s', .returned a)
    | .assertFailed => (s, .assertFailed)
    | .deeper => (s, .deeper)
  | .copy handle => (copyHandle handle s, .done)
  | .release handle => (releaseHandle handle s, .done)

def poolStep (C : Pooled T Args) (depth : ℕ) (s : PoolState T) :
    PoolCall Args → PoolState T × PoolAnswer
  | .client call => clientStep (fun args => PoolFactory.get C args depth) s call
  | .reset initialPoolSize aRefillSize args =>
    (PoolFactory.reset C initialPoolSize aRefillSize args s, .done)

def poolHistory (C : Pooled T Args) (depth : ℕ) :
    Machine (PoolState T) (PoolCall Args) PoolAnswer :=
  ⟨poolStep C depth⟩

/-! ## What the calls are meant to keep -/

/-- The object can be handed out. -/
def Available (s : PoolState T) (a : Address) : Prop := PoolFactory.useCount s a < 2

instance (s : PoolState T) (a : Address) : Decidable (Available s a) :=
  inferInstanceAs (Decidable (_ < _))

/-- `available_count` is the number of entries of the pool that are available. -/
def Accounted (s : PoolState T) : Prop :=
  s.factory.availableCount = s.factory.pool.countP fun a => Available s a

/-- `get` returns, after at most one refill, an object of the pool that no client holds. -/
def ReturnsUnheld (C : Pooled T Args) (args : Args) (s : PoolState T) : Prop :=
  ∃ (a : Address) (s' : PoolState T),
    (∀ depth : ℕ, PoolFactory.get C args (depth + 2) s = .returned a s') ∧
      (s' = PoolFactory.take C args a s ∨
        s' = PoolFactory.take C args a (PoolFactory.add C s.factory.refillSize args s)) ∧
      a ∈ s'.factory.pool ∧ ¬ Held s a

/-- The objects of the pool that no client holds are available. -/
def Recycled (s : PoolState T) : Prop :=
  ∀ a ∈ s.factory.pool, ¬ Held s a → Available s a

/-- A `get` that adds objects to the pool finds all of the pool held by clients. -/
def AddsOnlyWhenHeld (C : Pooled T Args) (s : PoolState T) : Prop :=
  ∀ (args : Args) (depth : ℕ) (a : Address) (s' : PoolState T),
    PoolFactory.get C args depth s = .returned a s' →
      s.factory.pool.length < s'.factory.pool.length →
        ∀ b ∈ s.factory.pool, Held s b

/-- The call is not the release of the last handle of an object of the pool. -/
def KeepsHandle (s : PoolState T) : PoolCall Args → Prop
  | .client (.release handle) =>
    ∀ a ∈ s.factory.pool, s.memory.handles[handle]? = some (some a) →
      2 ≤ s.memory.handles.count (some a)
  | _ => True

/-! ## The facade and the pool -/

/-- What a client can see of a `get`. -/
structure GetReport (T : Type) where
  availableCount : ℕ
  poolSize : ℕ
  entry : Option ℕ
  object : Option T
  deriving DecidableEq

inductive FactoryAnswer (T : Type) where
  | returned (report : GetReport T)
  | assertFailed
  | deeper
  | done
  deriving DecidableEq

/-- The counts of the pool after the call, the position of the object in it, and its value. -/
def report (s : PoolState T) (a : Address) : GetReport T where
  availableCount := s.factory.getAvailableCount
  poolSize := s.factory.getPoolSize
  entry := s.factory.pool.idxOf? a
  object := s.memory.objects[a]?

def observe (s : PoolState T) : PoolAnswer → FactoryAnswer T
  | .returned a => .returned (report s a)
  | .assertFailed => .assertFailed
  | .deeper => .deeper
  | .done => .done

/-- The history of a client of a factory with the given `get`. -/
def clientHistory (get : Args → PoolState T → GetResult (PoolState T)) :
    Machine (PoolState T) (ClientCall Args) (FactoryAnswer T) where
  step s call :=
    let (s, answer) := clientStep get s call
    (s, observe s answer)

def factoryHistory (C : Pooled T Args) (depth : ℕ) :
    Machine (PoolState T) (ClientCall Args) (FactoryAnswer T) :=
  clientHistory fun args => Factory.get C args depth

/-- A `PoolFactory` used directly. -/
def directHistory (C : Pooled T Args) (depth : ℕ) :
    Machine (PoolState T) (ClientCall Args) (FactoryAnswer T) :=
  clientHistory fun args => PoolFactory.get C args depth

end Pensar.Interface
