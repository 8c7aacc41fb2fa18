import Pensar.Computation.Undoable
import Pensar.Model.Generator

/-!
# Commands (`cpp/src/command.hpp`, `cpp/src/bool.hpp`)

`Command L` is a command object: of a class that derives from `Command` directly and
brings its own `_run`, `_undo` and nothing else (`leaf`; `L` is what such classes bring),
a `NullCommand`, or a `CompositeCommand`.  All of them contain the part that class
`Command` declares, the id and the run flag (`CommandBase`).

A `CompositeCommand` holds its children in an array of ten raw pointers, of which it
counts the first `mindex` as its own.  The loops over them are modelled as the code runs
them: `mindex` says how often, the array says where, and a pointer that is null or
dangling, or that lies past the array, is undefined behaviour.
-/

set_option autoImplicit false

namespace Pensar.Model

open Pensar.Computation

/-- struct `Bool`: an `int_fast8_t` with three named values.
SOURCE: cpp/src/bool.hpp:13-20 -/
@[ext] structure Bool8 where
  mvalue : Byte
  deriving DecidableEq, Repr

namespace Bool8

def UNKNOWN : Bool8 := ⟨-1⟩
def F : Bool8 := ⟨0⟩
def T : Bool8 := ⟨1⟩

/-- SOURCE: cpp/src/bool.hpp:48 -/
def toBool (b : Bool8) : Bool := b = T

def layout : Layout Bool8 :=
  Layout.byte.map
    { toFun := fun b => ⟨b⟩
      invFun := fun b => b.mvalue
      left_inv := fun _ => rfl
      right_inv := fun _ => rfl }

end Bool8

/-! ## Class `Command` -/

/-- The part of an object that class `Command` declares: `Object`'s id and the run flag
`mok`, the one member of `Command::Data`.
SOURCE: cpp/src/command.hpp:58-64 -/
abbrev CommandBase := Derived Bool8

namespace CommandBase

/-- SOURCE: cpp/src/command.hpp:75 -/
def INFO : ClassInfo := .make CPPLIB_NAMESPACE (W "Command") 2 1 1 cpplibNamespace_length

def record : RecordType Bool8 where
  info := INFO
  layout := Bool8.layout
  mismatch := "ClassInfo mismatch in Command::read"
  info_ne_null := ClassInfo.make_ne_null (by decide)
  width_pos := by decide

/-- The constructor; `g` is the static `mgenerator`.
SOURCE: cpp/src/command.hpp:101 -/
def new (g : Generator) (aid : Id := NULL_ID) : CommandBase × Generator :=
  if aid = NULL_ID then
    let (id, g) := g.getId
    (⟨⟨id⟩, .UNKNOWN⟩, g)
  else
    (⟨⟨aid⟩, .UNKNOWN⟩, g)

def mok (base : CommandBase) : Bool8 := base.mdata

def setOk (base : CommandBase) : CommandBase := { base with mdata := .T }

/-- SOURCE: cpp/src/command.hpp:136-142 -/
def write (base : CommandBase) (bb : BinaryBuffer) : BinaryBuffer :=
  Derived.write record base bb

/-- SOURCE: cpp/src/command.hpp:143-158 -/
def read (base : CommandBase) (bb : BinaryBuffer) : CommandBase × BinaryBuffer × Log :=
  Derived.read record base bb

end CommandBase

/-! ## Command objects -/

/-- A raw pointer. -/
inductive Ptr (α : Type) where
  | null
  | dangling
  | live (a : α)

/-- class `CompositeCommand`; `K` is the type of what its pointers point to.
SOURCE: cpp/src/command.hpp:262-266 -/
structure CompositeCommand (K : Type) where
  base : CommandBase
  mcommands : List (Ptr K)
  mindex : ℕ

/-- An object of a class derived from `Command`. -/
inductive Command (L : Type) where
  | leaf (base : CommandBase) (cmd : L)
  | null (base : CommandBase)
  | composite (cc : CompositeCommand (Command L))

def Command.base {L : Type} : Command L → CommandBase
  | .leaf base _ => base
  | .null base => base
  | .composite cc => cc.base

def Command.setOk {L : Type} : Command L → Command L
  | .leaf base cmd => .leaf base.setOk cmd
  | .null base => .null base.setOk
  | .composite cc => .composite { cc with base := cc.base.setOk }

namespace NullCommand

/-- SOURCE: cpp/src/command.hpp:214 -/
def INFO : ClassInfo := .make CPPLIB_NAMESPACE (W "NullCommand") 2 1 1 cpplibNamespace_length

/-- SOURCE: cpp/src/command.hpp:210 -/
def new (g : Generator) : CommandBase × Generator := CommandBase.new g NULL_ID

end NullCommand

namespace CompositeCommand

variable {K : Type}

/-- SOURCE: cpp/src/command.hpp:258 -/
def MAX_COMMANDS : ℕ := 10

/-- SOURCE: cpp/src/command.hpp:295 -/
def INFO : ClassInfo := .make CPPLIB_NAMESPACE (W "CompositeCommand") 2 1 1 cpplibNamespace_length

/-- SOURCE: cpp/src/command.hpp:315-318 -/
def new (g : Generator) (aid : Id := NULL_ID) : CompositeCommand K × Generator :=
  let (base, g) := CommandBase.new g aid
  (⟨base, List.replicate MAX_COMMANDS .null, 0⟩, g)

/-- The error that is thrown, or the composite with the command in it.
SOURCE: cpp/src/command.hpp:268-275,363 -/
def add (cc : CompositeCommand K) (cmd : Ptr K) : Except String (CompositeCommand K) :=
  if cc.mindex ≥ MAX_COMMANDS then
    .error "CompositeCommand::Data::add(Command* cmd) : Maximum number of commands reached."
  else
    .ok { cc with mcommands := cc.mcommands.set cc.mindex cmd, mindex := cc.mindex + 1 }

end CompositeCommand

/-! ## Running and undoing -/

/-- What a call of `run` leaves: the objects, the state they act on, and the exception. -/
structure RunResult (K σ ε : Type) where
  cmd : K
  state : σ
  thrown : Option ε

section Run

variable {σ ε : Type}

/-- `_run` of a class that brings its own. -/
def runLeaf (base : CommandBase) (a : Undoable σ ε) (s : σ) :
    RunResult (Command (Undoable σ ε)) σ ε :=
  match a.run s with
  | .done t => ⟨.leaf base a, t, none⟩
  | .threw e t => ⟨.leaf base a, t, some e⟩

/-- `mdata.mok = true` after `_run`, unless it threw.
SOURCE: cpp/src/command.hpp:166-170 -/
def afterRun (r : RunResult (Command (Undoable σ ε)) σ ε) :
    RunResult (Command (Undoable σ ε)) σ ε :=
  match r.thrown with
  | none => { r with cmd := r.cmd.setOk }
  | some _ => r

mutual

/-- `Command::run` with the `_run` of the class.
SOURCE: cpp/src/command.hpp:166-170,211,343-349 -/
def Command.run : Command (Undoable σ ε) → σ → Outcome (RunResult (Command (Undoable σ ε)) σ ε)
  | .leaf base a, s => .value (afterRun (runLeaf base a s))
  | .null base, s => .value (afterRun ⟨.null base, s, none⟩)
  | .composite ⟨base, mcommands, mindex⟩, s => do
    let r ← runFrom mcommands mindex s
    pure (afterRun ⟨.composite ⟨base, r.cmd, mindex⟩, r.state, r.thrown⟩)

/-- `todo` more rounds of the loop of `CompositeCommand::_run`; the list is the rest of
the array. -/
def runFrom : List (Ptr (Command (Undoable σ ε))) → ℕ → σ →
    Outcome (RunResult (List (Ptr (Command (Undoable σ ε)))) σ ε)
  | ps, 0, s => .value ⟨ps, s, none⟩
  | .live c :: ps, todo + 1, s => do
    let r ← c.run s
    match r.thrown with
    | some e => pure ⟨.live r.cmd :: ps, r.state, some e⟩
    | none => do
      let rest ← runFrom ps todo r.state
      pure ⟨.live r.cmd :: rest.cmd, rest.state, rest.thrown⟩
  | _, _ + 1, _ => .undefined

end

mutual

/-- `Command::undo` with the `_undo` of the class; neither changes an object.
SOURCE: cpp/src/command.hpp:172-178,212,350-356 -/
def Command.undo : Command (Undoable σ ε) → σ → Outcome (Attempt σ ε)
  | .leaf base a, s => .value (if base.mok.toBool then a.undo s else .done s)
  | .null _, s => .value (.done s)
  | .composite ⟨base, mcommands, mindex⟩, s =>
    if base.mok.toBool then undoFrom mcommands mindex s else .value (.done s)

/-- `todo` more rounds of the loop of `CompositeCommand::_undo`. -/
def undoFrom : List (Ptr (Command (Undoable σ ε))) → ℕ → σ → Outcome (Attempt σ ε)
  | _, 0, s => .value (.done s)
  | .live c :: ps, todo + 1, s => do
    match ← c.undo s with
    | .done t => undoFrom ps todo t
    | .threw e t => pure (.threw e t)
  | _, _ + 1, _ => .undefined

end

end Run

end Pensar.Model
