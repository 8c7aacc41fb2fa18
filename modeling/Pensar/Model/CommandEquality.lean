import Pensar.Model.CommandStream

/-!
# Comparing commands (`cpp/src/command.hpp`, `cpp/src/equal.hpp`)

`equals` is virtual in its left operand only.  A class that does not override it has
`Command::equals`, which compares the ids and then, byte by byte, what `data()` points to,
as far as the struct of the left operand goes.  `CompositeCommand::equals` walks over the
children of the left operand and takes those of the right one from the same slots.

`Comparison` is a call of `equals`: what it answers, and the places it read for it that not
every operand has.
-/

set_option autoImplicit false

namespace Pensar.Model

open Pensar.Computation

/-! ## Calls of `equals` -/

/-- The structs that `data()` of a command points to. -/
inductive DataLayout where
  | command
  | composite
  deriving DecidableEq, Repr

inductive Access where
  /-- Slot `i` in the array of a composite that counts `mindex` of them. -/
  | childSlot (i mindex : ℕ)
  /-- `memcmp` over the structs of the two operands. -/
  | dataBytes (left right : DataLayout)
  deriving DecidableEq, Repr

/-- The slot is one of those that hold a child; the bytes are those of one struct. -/
def Access.Allowed : Access → Prop
  | .childSlot i mindex => i < mindex
  | .dataBytes left right => left = right

structure Comparison where
  reads : List Access
  result : Outcome Bool

namespace Comparison

def answer (b : Bool) : Comparison := ⟨[], .value b⟩

/-- A read, and then the rest. -/
def read (a : Access) (x : Comparison) : Comparison := ⟨a :: x.reads, x.result⟩

/-- `if (!x) return false;` and then the rest. -/
def andThen (x y : Comparison) : Comparison :=
  match x.result with
  | .value true => ⟨x.reads ++ y.reads, y.result⟩
  | _ => x

/-- It returns, and reads nothing that is not there. -/
def Proper (x : Comparison) : Prop := (∃ b, x.result = .value b) ∧ ∀ a ∈ x.reads, a.Allowed

/-- It returns `true`. -/
def Holds (x : Comparison) : Prop := x.result = .value true

@[simp] theorem proper_answer (b : Bool) : (answer b).Proper := ⟨⟨b, rfl⟩, by simp [answer]⟩

@[simp] theorem holds_answer (b : Bool) : (answer b).Holds ↔ b = true := by
  simp [Holds, answer]

@[simp] theorem proper_read (a : Access) (x : Comparison) :
    (read a x).Proper ↔ a.Allowed ∧ x.Proper := by
  simp only [Proper, read, List.forall_mem_cons]
  exact and_left_comm

@[simp] theorem holds_read (a : Access) (x : Comparison) : (read a x).Holds ↔ x.Holds := Iff.rfl

@[simp] theorem proper_andThen (x y : Comparison) :
    (x.andThen y).Proper ↔ x.Proper ∧ (x.Holds → y.Proper) := by
  obtain ⟨reads, result⟩ := x
  cases result with
  | value b =>
    cases b with
    | false => simp [andThen, Proper, Holds]
    | true =>
      simp only [andThen, Proper, Holds, List.forall_mem_append, Outcome.value.injEq,
        exists_eq', true_and, forall_const]
      exact and_left_comm
  | undefined => simp [andThen, Proper]
  | terminated => simp [andThen, Proper]

@[simp] theorem holds_andThen (x y : Comparison) :
    (x.andThen y).Holds ↔ x.Holds ∧ y.Holds := by
  obtain ⟨reads, result⟩ := x
  cases result with
  | value b => cases b <;> simp [andThen, Holds]
  | undefined => simp [andThen, Holds]
  | terminated => simp [andThen, Holds]

end Comparison

/-! ## The bytes behind `data()` -/

variable {L : Type} (pointerBytes : Ptr (Command L) → List Byte)

/-- Which struct the class of the command has. -/
def Command.dataLayout : Command L → DataLayout
  | .leaf _ _ => .command
  | .null _ => .command
  | .composite _ => .composite

/-- SOURCE: cpp/src/command.hpp:81,300 -/
def Command.data : Command L → List Byte
  | .leaf base _ => Bool8.layout.encode base.mok
  | .null base => Bool8.layout.encode base.mok
  | .composite ⟨_, mcommands, mindex⟩ =>
    mcommands.flatMap pointerBytes ++ SizeT.layout.encode (.ofNat 64 mindex)

/-- SOURCE: cpp/src/command.hpp:84,304 -/
def Command.dataSize : Command L → ℕ
  | .leaf _ _ => Bool8.layout.width
  | .null _ => Bool8.layout.width
  | .composite _ => 8 * CompositeCommand.MAX_COMMANDS + SizeT.layout.width

/-- `hash ()`.
SOURCE: cpp/src/object.hpp:240 -/
def Command.hash (c : Command L) : Id := c.base.id

/-! ## `equals` -/

/-- `Command::equals`: every command passes the `dynamic_cast`.  Where both operands are one
object the code does not look at the bytes, which are then the same.
SOURCE: cpp/src/command.hpp:128-134, cpp/src/equal.hpp:39-56 -/
def Command.equalsCommand (l r : Command L) : Comparison :=
  if l.hash ≠ r.hash then
    .answer false
  else
    .read (.dataBytes l.dataLayout r.dataLayout)
      (.answer ((l.data pointerBytes).take l.dataSize = (r.data pointerBytes).take l.dataSize))

mutual

/-- The virtual `equals`.
SOURCE: cpp/src/command.hpp:128-134,380-393 -/
def Command.equals : Command L → Command L → Comparison
  | .leaf base cmd, r => Command.equalsCommand pointerBytes (.leaf base cmd) r
  | .null base, r => Command.equalsCommand pointerBytes (.null base) r
  | .composite ⟨base, mcommands, mindex⟩, r =>
    match r with
    | .composite other =>
      if other.base.id ≠ base.id then
        .answer false
      else
        equalsFrom mcommands mindex other.mcommands other.mindex 0
    | _ => .answer false

/-- The loop of `CompositeCommand::equals` from the round `i` on, with `todo` rounds to go; the
lists are the rests of the two arrays, and the right composite counts `mindex` children. -/
def equalsFrom : List (Ptr (Command L)) → ℕ → List (Ptr (Command L)) → ℕ → ℕ → Comparison
  | _, 0, _, _, _ => .answer true
  | .live c :: ps, todo + 1, .live d :: qs, mindex, i =>
    .read (.childSlot i mindex)
      ((c.equals d).andThen (equalsFrom ps todo qs mindex (i + 1)))
  | .live _ :: _, _ + 1, _, mindex, i => .read (.childSlot i mindex) ⟨[], .undefined⟩
  | _, _ + 1, _, _, _ => ⟨[], .undefined⟩

end

end Pensar.Model
