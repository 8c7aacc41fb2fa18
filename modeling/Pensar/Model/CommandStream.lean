import Pensar.Model.Command

/-!
# Commands in binary streams, and clones (`cpp/src/command.hpp`)

A `NullCommand` and a `CompositeCommand` write their own `ClassInfo` in front, so that
whoever reads the stream knows which class comes next; the reader takes that `ClassInfo`
off and asks `CommandRegistry` for an object of the class, whose `read` does the rest.
Classes register themselves, and in the library only `NullCommand` does.

`clone` and `read` fill the array of a composite by themselves, so each of them sets
`mindex` and the pointers in an order of its own.
-/

set_option autoImplicit false

namespace Pensar.Model

open Pensar.Computation

/-- `std::size_t`. -/
abbrev SizeT := BitVec 64

def SizeT.layout : Layout SizeT := Layout.int64

@[simp] theorem SizeT.layout_width : SizeT.layout.width = 8 := rfl

variable {L : Type}

/-! ## Writing -/

mutual

/-- The virtual `write`; a class that does not override it has `Command::write`.
SOURCE: cpp/src/command.hpp:136-142,219-226,395-409 -/
def Command.write : Command L → BinaryBuffer → Outcome BinaryBuffer
  | .leaf base _, bb => .value (base.write bb)
  | .null base, bb => .value (base.write (bb.write NullCommand.INFO.bytes))
  | .composite ⟨base, mcommands, mindex⟩, bb =>
    let bb := bb.write CompositeCommand.INFO.bytes
    let bb := base.write bb
    let bb := bb.writePod SizeT.layout (.ofNat 64 mindex)
    writeFrom mcommands mindex bb

/-- `todo` more rounds of the loop of `CompositeCommand::write`. -/
def writeFrom : List (Ptr (Command L)) → ℕ → BinaryBuffer → Outcome BinaryBuffer
  | _, 0, bb => .value bb
  | .live c :: ps, todo + 1, bb => do
    let bb ← c.write bb
    writeFrom ps todo bb
  | _, _ + 1, _ => .undefined

end

/-! ## Reading -/

namespace CommandRegistry

/-- What `registry` holds: a class, and `new` of it.  The classes that are registered have
`Command::read` for their `read`.
SOURCE: cpp/src/command.hpp:186-194,237-241 -/
def registry : List (ClassInfo × (Generator → CommandBase × Generator)) :=
  [(NullCommand.INFO, NullCommand.new)]

/-- The `new` of the class with that full name; undefined when a name has no end.
SOURCE: cpp/src/command.hpp:196-203 -/
def create (info : ClassInfo) : Outcome (Option (Generator → CommandBase × Generator)) :=
  match info.fullClassName with
  | none => .undefined
  | some name =>
    .value ((registry.find? fun entry => entry.1.fullClassName = some name).map Prod.snd)

end CommandRegistry

/-- What a call of `read` leaves: the object, the buffer, the static generator, and what
was reported. -/
structure ReadResult (K : Type) where
  cmd : K
  bb : BinaryBuffer
  g : Generator
  log : Log

namespace CompositeCommand

/-- SOURCE: cpp/src/command.hpp:430 -/
def unknownType (name : S) : String :=
  "Unknown command type in CompositeCommand::read: " ++
    String.ofList (name.map fun c => Char.ofNat c.toNat)

/-- The round `i` of the loop of `read`, with `todo` to go.
SOURCE: cpp/src/command.hpp:420-435 -/
def readFrom (i todo : ℕ) (mcommands : List (Ptr (Command L))) (bb : BinaryBuffer)
    (g : Generator) : Outcome (ReadResult (List (Ptr (Command L)))) :=
  match todo with
  | 0 => .value ⟨mcommands, bb, g, []⟩
  | todo + 1 => do
    let (info, bb, log) := bb.readPod ClassInfo.layout .null
    match ← CommandRegistry.create info with
    | none => pure ⟨mcommands, bb, g, log ++ [unknownType (info.fullClassName.getD [])]⟩
    | some create =>
      let (base, g) := create g
      let (base, bb, log') := base.read bb
      -- `mcommands[i] = cmd` past the end of the array
      if i ≥ MAX_COMMANDS then
        .undefined
      else do
        let r ← readFrom (i + 1) todo (mcommands.set i (.live (.null base))) bb g
        pure { r with log := log ++ log' ++ r.log }

/-- SOURCE: cpp/src/command.hpp:411-437 -/
def read (cc : CompositeCommand (Command L)) (bb : BinaryBuffer) (g : Generator) :
    Outcome (ReadResult (CompositeCommand (Command L))) := do
  let (base, bb, log) := cc.base.read bb
  let (count, bb, log') := bb.readPod SizeT.layout (.ofNat 64 cc.mindex)
  let r ← readFrom 0 count.toNat cc.mcommands bb g
  pure ⟨⟨base, r.cmd, count.toNat⟩, r.bb, r.g, log ++ log' ++ r.log⟩

end CompositeCommand

/-! ## Clones -/

mutual

/-- `delete` on a command.
SOURCE: cpp/src/command.hpp:277-284,320-323 -/
def Command.destroy : Command L → Outcome Unit
  | .leaf _ _ => .value ()
  | .null _ => .value ()
  | .composite ⟨_, mcommands, mindex⟩ => destroyFrom mcommands mindex

/-- `todo` more rounds of the loop of `free_commands`; deleting a null pointer does
nothing. -/
def destroyFrom : List (Ptr (Command L)) → ℕ → Outcome Unit
  | _, 0 => .value ()
  | .null :: ps, todo + 1 => destroyFrom ps todo
  | .live c :: ps, todo + 1 => do
    c.destroy
    destroyFrom ps todo
  | .dangling :: _, _ + 1 => .undefined
  | [], _ + 1 => .undefined

end

mutual

/-- The virtual `clone`: the clones of a class with its own `_run` keep the id, a
`NullCommand` clones to a new one.
SOURCE: cpp/src/command.hpp:217,365-378 -/
def Command.clone : Command L → Generator → Outcome (Command L × Generator)
  | .leaf base cmd, g =>
    let (base, g) := CommandBase.new g base.id
    .value (.leaf base cmd, g)
  | .null _, g =>
    let (base, g) := NullCommand.new g
    .value (.null base, g)
  | .composite ⟨base, mcommands, mindex⟩, g => do
    let (cc, g) := CompositeCommand.new g base.id
    let (cc, g) ← cloneFrom mcommands mindex { cc with mindex } g
    pure (.composite cc, g)

/-- `todo` more rounds of the loop of `CompositeCommand::clone`.  The `shared_ptr` that
owns the clone of the child dies with the statement, and the child with it: what is added
is dangling.  An exception would leave a function that is `noexcept`. -/
def cloneFrom : List (Ptr (Command L)) → ℕ → CompositeCommand (Command L) → Generator →
    Outcome (CompositeCommand (Command L) × Generator)
  | _, 0, cc, g => .value (cc, g)
  | .live c :: ps, todo + 1, cc, g => do
    let (child, g) ← c.clone g
    match cc.add .dangling with
    | .error _ => .terminated
    | .ok cc => do
      child.destroy
      cloneFrom ps todo cc g
  | _, _ + 1, _, _ => .undefined

end

namespace CompositeCommand

/-- What `Command.clone` does to a composite, with the class in the type. -/
def clone (cc : CompositeCommand (Command L)) (g : Generator) :
    Outcome (CompositeCommand (Command L) × Generator) :=
  let (copy, g) := CompositeCommand.new g cc.base.id
  cloneFrom cc.mcommands cc.mindex { copy with mindex := cc.mindex } g

theorem clone_composite (cc : CompositeCommand (Command L)) (g : Generator) :
    Command.clone (.composite cc) g = cc.clone g >>= fun r => pure (.composite r.1, r.2) := by
  unfold Command.clone
  rfl

/-! ## Runs -/

/-- One call that changes a composite or makes a new one from it; `g` is the static
generator at that moment. -/
inductive Op (L : Type) where
  | add (cmd : Ptr (Command L))
  | clone (g : Generator)
  | read (bb : BinaryBuffer) (g : Generator)

/-- The composite after the call: after `clone`, the clone; after an `add` that throws,
the one that was there. -/
def step (cc : CompositeCommand (Command L)) : Op L → Outcome (CompositeCommand (Command L))
  | .add cmd =>
    match cc.add cmd with
    | .error _ => .value cc
    | .ok cc => .value cc
  | .clone g => do
    let (copy, _) ← cc.clone g
    pure copy
  | .read bb g => do
    let r ← cc.read bb g
    pure r.cmd

end CompositeCommand

end Pensar.Model
