import Pensar.Computation.Machine
import Pensar.Model.CS

/-!
# Strings as numbers (`cpp/src/macos/io_util_macos.hpp`)

`CharType` is `char`.  A number of the type `DataType` takes `sizeof (DataType)` characters, the
first one in the least significant place.  The other systems have the same two functions.
-/

set_option autoImplicit false

namespace Pensar.Model

open Pensar.Computation

/-- The unsigned types that `DataType` can be. -/
inductive DataType where
  | uint8 | uint16 | uint32 | uint64
  deriving DecidableEq, Repr

namespace DataType

def sizeof : DataType → ℕ
  | uint8 => 1
  | uint16 => 2
  | uint32 => 4
  | uint64 => 8

theorem sizeof_pos (T : DataType) : 0 < T.sizeof := by cases T <;> decide

abbrev Number (T : DataType) : Type := BitVec (8 * T.sizeof)

end DataType

/-- `in[k]`: there is a NUL behind the string, and nothing behind the NUL. -/
def subscript (in_ : S) (k : ℕ) : Outcome C :=
  if h : k < in_.length then .value in_[k]
  else if k = in_.length then .value NULL_CHAR
  else .undefined

variable (T : DataType)

/-- The inner loop, where `read` is the `operator[]` of the string. -/
def packNumber (read : ℕ → Outcome C) (i : ℕ) : Outcome T.Number :=
  (List.range T.sizeof).foldlM
    (fun byte j => do
      let c ← read (i + j)
      pure (byte ||| c.toBitVec.setWidth (8 * T.sizeof) <<< (j * 8)))
    0

/-- The outer loop, from the index `i` on. -/
def stringToBinaryLoop (read : ℕ → Outcome C) (size i : ℕ) (out : List T.Number) :
    Outcome (List T.Number) :=
  if i < size then do
    let byte ← packNumber T read i
    stringToBinaryLoop read size (i + T.sizeof) (out ++ [byte])
  else
    .value out
termination_by size - i
decreasing_by
  have hpos := T.sizeof_pos
  omega

/-- SOURCE: cpp/src/macos/io_util_macos.hpp:193-205 -/
def stringToBinary (in_ : S) : Outcome (List T.Number) :=
  stringToBinaryLoop T (subscript in_) in_.length 0 []

/-- SOURCE: cpp/src/macos/io_util_macos.hpp:180-191 -/
def binaryToString (data : List T.Number) : S :=
  data.flatMap fun (byte : T.Number) =>
    (List.range T.sizeof).map fun i => UInt8.ofBitVec ((byte >>> (i * 8)).setWidth 8)

end Pensar.Model
