import Pensar.Computation.Decimal
import Pensar.Model.CS

/-!
# Integers as text (`cpp/src/s.hpp`)

An output string stream writes the type of an integer as it is declared: `int8_t` and `uint8_t`
are character types, and of those it writes the character.
-/

set_option autoImplicit false

namespace Pensar.Model

open Pensar.Computation

/-! ## Grouping -/

section Grouping

variable (primeiro : UInt32) (groupingChar : C)

/-- The loop.  The iterator is at the start of the third argument; the counter is not increased
where the first operand of `||` holds. -/
def insertGroupingCharLoop (i count : UInt32) (f : S) : S → S
  | [] => f
  | c :: rest =>
    let f := f ++ [c]
    let last := rest.isEmpty
    if i = primeiro then
      if !last then insertGroupingCharLoop (i + 1) 0 (f ++ [groupingChar]) rest
      else insertGroupingCharLoop (i + 1) count f rest
    else if count + 1 = 3 && !last then
      insertGroupingCharLoop (i + 1) 0 (f ++ [groupingChar]) rest
    else insertGroupingCharLoop (i + 1) (count + 1) f rest

end Grouping

/-- SOURCE: cpp/src/s.hpp:400-421 -/
def insertGroupingChar (s : S) (groupingChar : C := Wc ',') : S :=
  let primeiro : UInt32 := UInt32.ofNat (s.length % 3)
  let primeiro := if primeiro = 0 then 3 else primeiro
  insertGroupingCharLoop (primeiro - 1) groupingChar 0 0 [] s

/-! ## `to_string` -/

/-- The integer types that `IntType` can be. -/
inductive IntType where
  | int8 | int16 | int32 | int64
  | uint8 | uint16 | uint32 | uint64
  deriving DecidableEq, Repr

namespace IntType

def signed : IntType → Bool
  | int8 | int16 | int32 | int64 => true
  | uint8 | uint16 | uint32 | uint64 => false

def bits : IntType → ℕ
  | int8 | uint8 => 8
  | int16 | uint16 => 16
  | int32 | uint32 => 32
  | int64 | uint64 => 64

/-- `signed char` and `unsigned char`. -/
def isCharacter (T : IntType) : Bool := T.bits = 8

def min (T : IntType) : ℤ := if T.signed then -2 ^ (T.bits - 1) else 0

def max (T : IntType) : ℤ := if T.signed then 2 ^ (T.bits - 1) - 1 else 2 ^ T.bits - 1

/-- The values of the type. -/
abbrev Number (T : IntType) : Type := {n : ℤ // T.min ≤ n ∧ n ≤ T.max}

variable {T : IntType}

/-- What `ss << number` writes, a sign in front of a negative number among it. -/
def inserted (number : T.Number) : S :=
  if T.isCharacter then [UInt8.ofInt number.val]
  else Decimal.integer number.val

/-- `to_string<T, useGroupingChar>`.
SOURCE: cpp/src/s.hpp:428-440 -/
def toString (useGroupingChar : Bool) (number : T.Number) (groupingChar : C := Wc ',') : S :=
  let s := inserted number
  let s := if number.val < 0 then Wc '-' :: s else s
  if useGroupingChar then insertGroupingChar s groupingChar else s

end IntType

end Pensar.Model
