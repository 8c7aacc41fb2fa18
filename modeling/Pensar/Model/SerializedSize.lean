import Pensar.Model.CommandStream
import Pensar.Model.Person

/-!
# `size ()` (`cpp/src/object.hpp`, `cpp/src/command.hpp`, `contact/person.hpp`)

`size` is virtual, like `write`, and each class that overrides it adds up the sizes of the
parts it is made of.  `Generator` and `NullCommand` do not override it.

The sums stay below `2 ^ 64`, since what they count is in memory; and the loop over the
children of a composite counts with an `int_fast8_t`, which ten children do not overflow.
-/

set_option autoImplicit false

namespace Pensar.Model

open Pensar.Computation

/-- SOURCE: cpp/src/object.hpp:133-134 -/
def Object.SIZE : ℕ := Id.layout.width + ClassInfo.layout.width

/-- SOURCE: cpp/src/object.hpp:138 -/
def Object.size (_ : Object) : ℕ := Object.SIZE

/-- `Object::size`, which `Generator` inherits: the constant in it is `Object::SIZE`.
SOURCE: cpp/src/object.hpp:138 -/
def Generator.size (g : Generator) : ℕ := g.object.size

/-- SOURCE: contact/person.hpp:151-152 -/
def Person.SIZE : ℕ := Object.SIZE + ClassInfo.layout.width + Person.Data.layout.width

/-- SOURCE: contact/person.hpp:158 -/
def Person.size (_ : Person) : ℕ := Person.SIZE

variable {L : Type}

mutual

/-- The virtual `size`: `Command::size` for every class but `CompositeCommand`.
SOURCE: cpp/src/command.hpp:85,305-313 -/
def Command.size : Command L → Outcome ℕ
  | .leaf _ _ => .value (Bool8.layout.width + ClassInfo.layout.width + Object.SIZE)
  | .null _ => .value (Bool8.layout.width + ClassInfo.layout.width + Object.SIZE)
  | .composite ⟨_, mcommands, mindex⟩ =>
    sizeFrom mcommands mindex (SizeT.layout.width + ClassInfo.layout.width)

/-- `todo` more rounds of the loop of `CompositeCommand::size`. -/
def sizeFrom : List (Ptr (Command L)) → ℕ → ℕ → Outcome ℕ
  | _, 0, size => .value size
  | .live c :: ps, todo + 1, size => do
    let n ← c.size
    sizeFrom ps todo (size + n)
  | _, _ + 1, _ => .undefined

end

/-- An object of a class that has `size` and `write`. -/
inductive Streamed (L : Type) where
  | object (o : Object)
  | generator (g : Generator)
  | person (p : Person)
  | command (c : Command L)

namespace Streamed

def size : Streamed L → Outcome ℕ
  | .object o => .value o.size
  | .generator g => .value g.size
  | .person p => .value p.size
  | .command c => c.size

def write : Streamed L → BinaryBuffer → Outcome BinaryBuffer
  | .object o, bb => .value (o.write bb)
  | .generator g, bb => .value (g.write bb)
  | .person p, bb => .value (p.write bb)
  | .command c, bb => c.write bb

end Streamed

end Pensar.Model
