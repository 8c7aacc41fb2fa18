import Pensar.Computation.Machine
import Pensar.Model.Generator

/-!
# Histories of a generator that is saved and restored

Every save writes the generator into an empty buffer.  A restore reads one of these buffers
into a new generator, which takes the place of the one in use; what the buffer held has
then been read.

`UpToDate` follows which of these are in the state that the last id left: the generator
in use, and what is still to be read in each buffer.
-/

set_option autoImplicit false

namespace Pensar.Interface

open Pensar.Computation
open Pensar.Model

/-- A buffer that is new or cleared. -/
structure EmptyBuffer where
  buffer : BinaryBuffer
  writePos_eq : buffer.writePos = 0
  readPos_eq : buffer.readPos = 0

def EmptyBuffer.new : EmptyBuffer := ⟨BinaryBuffer.new, rfl, rfl⟩

/-- A call; `buffer` numbers the saves, and the other arguments of `restore` are those of
the constructor of the new generator. -/
inductive GeneratorCall where
  | getId
  | next
  | current
  | save (empty : EmptyBuffer)
  | restore (buffer : ℕ) (aid initialValue step : Id)

inductive GeneratorAnswer where
  | issued (id : Id)
  | value (id : Id)
  | done
  deriving DecidableEq

def GeneratorAnswer.id? : GeneratorAnswer → Option Id
  | issued id => some id
  | value _ => none
  | done => none

structure GeneratorState where
  generator : Generator
  buffers : List BinaryBuffer := []

def generatorStep (s : GeneratorState) : GeneratorCall → GeneratorState × GeneratorAnswer
  | .getId =>
    let (id, g) := s.generator.getId
    ({ s with generator := g }, .issued id)
  | .next => (s, .value s.generator.next)
  | .current => (s, .value s.generator.current)
  | .save empty =>
    ({ s with buffers := s.buffers ++ [s.generator.write empty.buffer] }, .done)
  | .restore buffer aid initialValue step =>
    match s.buffers[buffer]? with
    | none => (s, .done)
    | some bb =>
      let (g, bb, _) := (Generator.new aid initialValue step).read bb
      ({ generator := g, buffers := s.buffers.set buffer bb }, .done)

def generatorHistory : Machine GeneratorState GeneratorCall GeneratorAnswer := ⟨generatorStep⟩

/-- The ids that `get_id` returned. -/
def issuedIds (answers : List GeneratorAnswer) : List Id := answers.filterMap GeneratorAnswer.id?

/-- No id is issued twice. -/
def IdsDistinct (g : Generator) (calls : List GeneratorCall) : Prop :=
  (issuedIds (generatorHistory.outputs { generator := g } calls)).Nodup

/-- `next` answers what the following `get_id` returns. -/
def NextIsFollowing (g : Generator) (calls : List GeneratorCall) : Prop :=
  ∀ before between after : List GeneratorCall, .getId ∉ between →
    calls = before ++ .next :: (between ++ .getId :: after) →
    ∃ id, (generatorHistory.outputs { generator := g } calls)[before.length]? =
        some (.value id) ∧
      (generatorHistory.outputs { generator := g } calls)[before.length + 1 + between.length]? =
        some (.issued id)

/-- `get_id` and `next` compute a value. -/
def GeneratorCall.Computes (call : GeneratorCall) : Prop := call = .getId ∨ call = .next

/-- The values that the call computes stay in the range of the id type. -/
def StaysInRange (s : GeneratorState) (call : GeneratorCall) : Prop :=
  call.Computes →
    -2 ^ 63 ≤ s.generator.mdata.mvalue.toInt + s.generator.mdata.mstep.toInt ∧
      s.generator.mdata.mvalue.toInt + s.generator.mdata.mstep.toInt < 2 ^ 63

structure UpToDate where
  generator : Bool := true
  saves : List Bool := []

namespace UpToDate

def step (u : UpToDate) : GeneratorCall → UpToDate
  | .getId => { u with saves := u.saves.map fun _ => false }
  | .next => u
  | .current => u
  | .save _ => { u with saves := u.saves ++ [u.generator] }
  | .restore buffer _ _ _ =>
    match u.saves[buffer]? with
    | none => u
    | some save => { generator := save, saves := u.saves.set buffer false }

def history : Machine UpToDate GeneratorCall Unit := ⟨fun u call => (u.step call, ())⟩

/-- A call that computes a value finds the generator in the state that the last id left. -/
def Allows (u : UpToDate) (call : GeneratorCall) : Prop := call.Computes → u.generator = true

end UpToDate

end Pensar.Interface
