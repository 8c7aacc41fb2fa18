import Pensar.Computation.Layout
import Pensar.Computation.Machine

/-!
# `CArray` (`cpp/src/array.hpp`)

The elements of a `CArray` are compared by their bytes, so their type comes with a layout.
Sizes are of type `std::size_t`, of 64 bits, and so is the size of the array in bytes.
-/

set_option autoImplicit false

namespace Pensar.Model

open Pensar.Computation

/-- SOURCE: cpp/src/array.hpp:44-50 -/
structure CArray (SIZE : UInt64) {T : Type} (L : Layout T) where
  array : List T
  length_eq : array.length = SIZE.toNat
  sizeof_pos : 0 < L.width
  sizeof_lt : SIZE.toNat * L.width < 2 ^ 64

/-- Whether `std::memcmp` finds `n` equal bytes, in memory that ends with the two lists. -/
def memcmpEqual (a b : List Byte) (n : UInt64) : Outcome Bool :=
  if n.toNat ≤ a.length ∧ n.toNat ≤ b.length then .value (a.take n.toNat = b.take n.toNat)
  else .undefined

namespace CArray

variable {SIZE : UInt64} {T : Type} {L : Layout T}

/-- `_array + start`: the bytes from there on. -/
def from_ (self : CArray SIZE L) (start : UInt64) : List Byte :=
  L.encodeAll (self.array.drop start.toNat)

/-- SOURCE: cpp/src/array.hpp:113-118 -/
def compareRange (self other : CArray SIZE L) (start count : UInt64) : Outcome Bool :=
  if start ≥ SIZE then .value false
  else if start + count > SIZE then .value false
  else memcmpEqual (self.from_ start) (other.from_ start) (count * UInt64.ofNat L.width)

end CArray

end Pensar.Model
