import Pensar.Computation.Machine
import Pensar.Model.GeneratorClone

/-!
# Generators in use

Any number of generators, made through the factory of the class and by cloning, with the calls
that change them; a call on an address at which there is none does nothing.
-/

set_option autoImplicit false

namespace Pensar.Interface

open Pensar.Computation
open Pensar.Model

inductive GeneratorUse where
  | get (aid initialValue step : Id)
  | getId (self : Address)
  | setValue (self : Address) (val : Id)
  | setId (self : Address) (aid : Id)
  | initialized (self : Address) (aid initialValue step : Id)
  | clone (self : Address)

inductive GeneratorUseAnswer where
  | issued (id : Id)
  | returned (a : Address)
  | done
  deriving DecidableEq

/-- How a call of the factory ends. -/
def returnedBy (s : PoolState Generator) :
    GetResult (PoolState Generator) → PoolState Generator × GeneratorUseAnswer
  | .returned a s' => (s', .returned a)
  | _ => (s, .done)

def generatorUseStep (depth : ℕ) (s : PoolState Generator) :
    GeneratorUse → PoolState Generator × GeneratorUseAnswer
  | .get aid initialValue step => returnedBy s (Generator.get depth aid initialValue step s)
  | .getId self =>
    match s.memory.objects[self]? with
    | none => (s, .done)
    | some g => (Generator.changeAt (fun g => g.getId.2) self s, .issued g.getId.1)
  | .setValue self val => (Generator.changeAt (fun g => g.setValue val) self s, .done)
  | .setId self aid => (Generator.changeAt (fun g => g.setId aid) self s, .done)
  | .initialized self aid initialValue step =>
    (Generator.changeAt (fun g => g.initialized aid initialValue step) self s, .done)
  | .clone self =>
    match s.memory.objects[self]? with
    | none => (s, .done)
    | some g => returnedBy s (Generator.clone depth self g s)

def generatorUses (depth : ℕ) : Machine (PoolState Generator) GeneratorUse GeneratorUseAnswer :=
  ⟨generatorUseStep depth⟩

/-- The answers to that many calls of `get_id`. -/
def issuedNext (depth : ℕ) (s : PoolState Generator) (self : Address) (count : ℕ) :
    List GeneratorUseAnswer :=
  (generatorUses depth).outputs s (List.replicate count (.getId self))

/-- What a clone of the generator `g` is meant to do: it leaves `g` as it was, and the new
generator is like it and issues the same ids. -/
def ClonesPurely (depth : ℕ) (s : PoolState Generator) (self : Address) (g : Generator) : Prop :=
  ∃ copy s', Generator.clone depth self g s = .returned copy s' ∧
    s'.memory.objects[self]? = some g ∧ s'.memory.objects[copy]? = some g ∧
    ∀ count, issuedNext depth s' copy count = issuedNext depth s' self count

/-- `P` holds of the generator that the call clones, if it clones one. -/
def OfCloned (P : PoolState Generator → Address → Generator → Prop) (s : PoolState Generator)
    (use : GeneratorUse) : Prop :=
  ∀ self g, use = .clone self → s.memory.objects[self]? = some g → P s self g

/-- It hands out one and the same id, which is its initial value and its own id (0 if it is
the null id). -/
structure Constant (g : Generator) : Prop where
  step_eq : g.mdata.mstep = 0
  value_eq : g.mdata.mvalue = g.mdata.minitialValue
  id_eq : g.object.mid = if g.mdata.mvalue = NULL_ID then 0 else g.mdata.mvalue

end Pensar.Interface
