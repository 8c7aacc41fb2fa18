import Mathlib.Tactic

/-!
# `Factory` (`cpp/src/factory.hpp`)

`NewFactory`, `PoolFactory` and the `Factory` in front of them, for any class `T` with a
constructor and an `initialize` that take `Args`.

Objects are numbered by the order in which they are made; an object that is destroyed keeps
its number.  A shared pointer is the number of the object it owns, so the use count of an
object is the number of its occurrences among the shared pointers there are.
-/

set_option autoImplicit false

namespace Pensar.Model

/-- What the factories use of a class. -/
structure Pooled (T Args : Type) where
  make : Args → T
  initialized : Args → T → T

abbrev Address := ℕ

/-- The objects, and the shared pointers to them that no factory has: those on the heap
that nobody deletes, and those of the clients. -/
structure Memory (T : Type) where
  objects : List T := []
  leaked : List Address := []
  handles : List (Option Address) := []

namespace Memory

variable {T Args : Type}

/-- `std::make_shared`. -/
def makeShared (m : Memory T) (object : T) : Address × Memory T :=
  (m.objects.length, { m with objects := m.objects ++ [object] })

/-- `ptr->initialize (args ...)`. -/
def initializeAt (C : Pooled T Args) (args : Args) (a : Address) (m : Memory T) : Memory T :=
  { m with objects := m.objects.modify a (C.initialized args) }

/-- `new (std::shared_ptr<T>) (ptr)`. -/
def newShared (a : Address) (m : Memory T) : Memory T := { m with leaked := m.leaked ++ [a] }

end Memory

/-- SOURCE: cpp/src/factory.hpp:119-121 -/
structure PoolFactory where
  pool : List Address := []
  availableCount : ℕ := 0
  refillSize : ℕ
  deriving DecidableEq

/-- A pool factory and the memory it works in. -/
structure PoolState (T : Type) where
  factory : PoolFactory
  memory : Memory T

/-- How a call of `get` ends, up to some depth of its recursion. -/
inductive GetResult (σ : Type) where
  | returned (a : Address) (s : σ)
  | assertFailed
  | deeper

/-- `value--` of a `size_t`. -/
def decrement (value : ℕ) : ℕ := if value = 0 then 2 ^ 64 - 1 else value - 1

/-! ## `NewFactory` -/

/-- SOURCE: cpp/src/factory.hpp:24 -/
def NewFactory.get {T Args : Type} (C : Pooled T Args) (args : Args) (m : Memory T) :
    Address × Memory T :=
  m.makeShared (C.make args)

/-! ## `PoolFactory` -/

namespace PoolFactory

variable {T Args : Type}

/-- `ptr.use_count ()`. -/
def useCount (s : PoolState T) (a : Address) : ℕ :=
  s.factory.pool.count a + s.memory.leaked.count a + s.memory.handles.count (some a)

/-- The loop of `fill_pool` and `add`. -/
def pushNew (C : Pooled T Args) (args : Args) : ℕ → PoolState T → PoolState T
  | 0, s => s
  | count + 1, s =>
    let (ptr, m) := s.memory.makeShared (C.make args)
    pushNew C args count ⟨{ s.factory with pool := s.factory.pool ++ [ptr] }, m⟩

/-- SOURCE: cpp/src/factory.hpp:54-62 -/
def fillPool (C : Pooled T Args) (poolSize : ℕ) (args : Args) (s : PoolState T) : PoolState T :=
  let s := pushNew C args poolSize s
  { s with factory := { s.factory with availableCount := poolSize } }

/-- SOURCE: cpp/src/factory.hpp:63-71 -/
def add (C : Pooled T Args) (count : ℕ) (args : Args) (s : PoolState T) : PoolState T :=
  let s := pushNew C args count s
  { s with factory := { s.factory with availableCount := s.factory.availableCount + count } }

/-- The constructor.
SOURCE: cpp/src/factory.hpp:74-79 -/
def new (C : Pooled T Args) (initialPoolSize aRefillSize : ℕ) (args : Args) (m : Memory T) :
    PoolState T :=
  fillPool C initialPoolSize args ⟨{ refillSize := aRefillSize }, m⟩

/-- What `get` does with the first pointer that nobody else shares. -/
def take (C : Pooled T Args) (args : Args) (a : Address) (s : PoolState T) : PoolState T :=
  { factory := { s.factory with availableCount := decrement s.factory.availableCount }
    memory := (s.memory.initializeAt C args a).newShared a }

/-- With a bound on the depth of the recursion.
SOURCE: cpp/src/factory.hpp:85-102 -/
def get (C : Pooled T Args) (args : Args) : ℕ → PoolState T → GetResult (PoolState T)
  | 0, _ => .deeper
  | depth + 1, s =>
    match s.factory.pool.find? (fun ptr => useCount s ptr < 2) with
    | some ptr => .returned ptr (take C args ptr s)
    | none =>
      if s.factory.availableCount ≤ 0 then
        get C args depth (add C s.factory.refillSize args s)
      else .assertFailed

/-- SOURCE: cpp/src/factory.hpp:103 -/
def getAvailableCount (f : PoolFactory) : ℕ := f.availableCount

/-- SOURCE: cpp/src/factory.hpp:105 -/
def getPoolSize (f : PoolFactory) : ℕ := f.pool.length

/-- SOURCE: cpp/src/factory.hpp:111-117 -/
def reset (C : Pooled T Args) (initialPoolSize aRefillSize : ℕ) (args : Args)
    (s : PoolState T) : PoolState T :=
  let s := fillPool C initialPoolSize args { s with factory := { s.factory with pool := [] } }
  { s with factory := { s.factory with
      availableCount := initialPoolSize
      refillSize := aRefillSize } }

end PoolFactory

/-! ## `Factory` -/

/-- A virtual function of a class; `isConst` is part of what it is found by. -/
structure MemberFunction (β : Type) where
  isConst : Bool
  body : β

/-- What a call through the base class runs, when the class of the object declares a
function of the same name and parameters: that one overrides only if it is as `const`. -/
def MemberFunction.overriddenBy {β : Type} (base derived : MemberFunction β) :
    MemberFunction β :=
  if derived.isConst = base.isConst then derived else base

namespace Factory

variable {T Args : Type}

/-- `NewFactory<T, Args...>::get`, which is `const`, on the object that `mfactory_ptr`
points to.
SOURCE: cpp/src/factory.hpp:24 -/
def newFactoryGet (C : Pooled T Args) (args : Args) :
    MemberFunction (ℕ → PoolState T → GetResult (PoolState T)) where
  isConst := true
  body _ s :=
    let (ptr, m) := NewFactory.get C args s.memory
    .returned ptr { s with memory := m }

/-- `PoolFactory<T, Args...>::get`, which is not.
SOURCE: cpp/src/factory.hpp:85 -/
def poolFactoryGet (C : Pooled T Args) (args : Args) :
    MemberFunction (ℕ → PoolState T → GetResult (PoolState T)) where
  isConst := false
  body := PoolFactory.get C args

/-- The constructor; the state is the pool factory that `mfactory_ptr` points to.
SOURCE: cpp/src/factory.hpp:146-149 -/
def new (C : Pooled T Args) (poolSize refillSize : ℕ) (args : Args) (m : Memory T) :
    PoolState T :=
  PoolFactory.new C poolSize refillSize args m

/-- `mfactory_ptr->get(args ...)`.
SOURCE: cpp/src/factory.hpp:153 -/
def get (C : Pooled T Args) (args : Args) : ℕ → PoolState T → GetResult (PoolState T) :=
  ((newFactoryGet C args).overriddenBy (poolFactoryGet C args)).body

end Factory

end Pensar.Model
