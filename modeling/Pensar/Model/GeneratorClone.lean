import Pensar.Model.Factory
import Pensar.Model.Generator

/-!
# Changing and cloning a generator (`cpp/src/generator.hpp`)

`get` is static and makes a generator through the factory of the class.
-/

set_option autoImplicit false

namespace Pensar.Model.Generator

/-- SOURCE: cpp/src/generator.hpp:98-105 -/
def initialized (g : Generator) (aid : Id := NULL_ID) (initialValue : Id := 0) (step : Id := 1) :
    Generator :=
  { g with
    object := ⟨if aid = NULL_ID then 0 else aid⟩
    mdata := ⟨initialValue, initialValue, step⟩ }

/-- SOURCE: cpp/src/generator.hpp:138 -/
def setValue (g : Generator) (val : Id) : Generator :=
  { g with mdata := { g.mdata with mvalue := val } }

/-- SOURCE: cpp/src/generator.hpp:140 -/
def setId (g : Generator) (aid : Id) : Generator := { g with object := ⟨aid⟩ }

/-- `pd::Factory<G, T, T, T>`. -/
def pooled : Pooled Generator (Id × Id × Id) where
  make := fun (aid, initialValue, step) => new aid initialValue step
  initialized := fun (aid, initialValue, step) g => g.initialized aid initialValue step

/-- `mfactory`.
SOURCE: cpp/src/generator.hpp:49 -/
def mfactory : PoolState Generator := Factory.new pooled 3 10 (NULL_ID, 0, 1) {}

/-- SOURCE: cpp/src/generator.hpp:143-146 -/
def get (depth : ℕ) (aid initialValue step : Id) (s : PoolState Generator) :
    GetResult (PoolState Generator) :=
  Factory.get pooled (aid, initialValue, step) depth s

/-- The statements that change the generator at an address. -/
def changeAt (f : Generator → Generator) (self : Address) (s : PoolState Generator) :
    PoolState Generator :=
  { s with memory := { s.memory with objects := s.memory.objects.modify self f } }

/-- `clone` of the generator `g` at the address `self`.
SOURCE: cpp/src/generator.hpp:148-151 -/
def clone (depth : ℕ) (self : Address) (g : Generator) (s : PoolState Generator) :
    GetResult (PoolState Generator) :=
  let (aid, g) := g.getId
  get depth aid g.mdata.minitialValue g.mdata.mstep (changeAt (fun _ => g) self s)

end Pensar.Model.Generator
