import Pensar.Computation.Layout
import Pensar.Computation.Loop
import Pensar.Computation.Machine

/-!
# `ByteOrder` and `convert` (`cpp/src/byte_order.hpp`)

Sizes and indices are of type `std::size_t`, of 64 bits; the counter of the inner loop is an
`int`.  Reading or writing a span outside its bounds and increasing the largest `int` are
undefined.
-/

set_option autoImplicit false

namespace Pensar.Model

open Pensar.Computation

/-- `std::endian`, on a machine where `native` is one of the two. -/
inductive StdEndian where
  | little
  | big
  deriving DecidableEq, Repr

/-- SOURCE: cpp/src/byte_order.hpp:15 -/
inductive Invariance where
  | DATA_INVARIANCE
  | ADDRESS_INVARIANCE
  deriving DecidableEq, Repr

/-- SOURCE: cpp/src/byte_order.hpp:28-38 -/
structure ByteOrder where
  mendian : StdEndian
  minvariance : Invariance := .ADDRESS_INVARIANCE
  maddressSize : Int8 := 1
  deriving DecidableEq

namespace ByteOrder

variable (self other : ByteOrder)

def equalsInvariance : Bool := self.minvariance = other.minvariance

def equalsEndian : Bool := self.mendian = other.mendian

def equalsAddressSize : Bool := self.maddressSize = other.maddressSize

/-- SOURCE: cpp/src/byte_order.hpp:48 -/
def onlyEndianDiffers : Bool :=
  !self.equalsEndian other && (self.equalsInvariance other && self.equalsAddressSize other)

/-- SOURCE: cpp/src/byte_order.hpp:50-53 -/
def equals : Bool :=
  self.equalsInvariance other && self.equalsEndian other && self.equalsAddressSize other

end ByteOrder

/-- `std::span<std::byte>`. -/
structure Span where
  bytes : List Byte
  size_lt : bytes.length < 2 ^ 64
  deriving DecidableEq

namespace Span

def size (data : Span) : UInt64 := UInt64.ofNat data.bytes.length

/-- `swap (data[a], data[b])`. -/
def swap (data : Span) (a b : UInt64) : Outcome Span :=
  if h : a.toNat < data.bytes.length ∧ b.toNat < data.bytes.length then
    .value
      { bytes := (data.bytes.set a.toNat data.bytes[b.toNat]).set b.toNat data.bytes[a.toNat]
        size_lt := by simpa using data.size_lt }
  else
    .undefined

end Span

/-- The largest `int`. -/
def intMax : ℕ := 2 ^ 31 - 1

/-- A round of the inner loop, and the increment behind it. -/
def convertSwap (i originalDataSize : UInt64) (data : Span) (j : ℕ) : Outcome Span := do
  let data ← data.swap (i + UInt64.ofNat j) (i - UInt64.ofNat j + originalDataSize - 1)
  if j = intMax then .undefined else pure data

/-- The inner loop. -/
def convertElement (i originalDataSize : UInt64) (data : Span) : Outcome Span :=
  let x := originalDataSize / 2
  (List.range x.toNat).foldlM (convertSwap i originalDataSize) data

/-- A round of the outer loop; there is none after undefined behaviour. -/
def convertNext (e originalDataSize : UInt64) :
    UInt64 × Outcome Span → Option (UInt64 × Outcome Span)
  | (i, .value data) =>
    if i ≤ e then some (i + originalDataSize, convertElement i originalDataSize data) else none
  | _ => none

/-- The bound is on the number of rounds of the outer loop.
SOURCE: cpp/src/byte_order.hpp:62-78 -/
def convert (data : Span) (originalDataSize : UInt64) (from_ to_ : ByteOrder) (fuel : ℕ) :
    Option (Outcome Span) :=
  if !from_.equals to_ && decide (data.size > 1) && from_.onlyEndianDiffers to_ &&
      decide (originalDataSize > 1) then
    let e := data.size - originalDataSize
    (Loop.run (convertNext e originalDataSize) fuel (0, .value data)).map Prod.snd
  else
    some (.value data)

end Pensar.Model
