import Pensar.Computation.Decimal
import Pensar.Model.CSOperations
import Pensar.Model.Generator

/-!
# Generators as text (`cpp/src/object.hpp`, `cpp/src/generator.hpp`)

An output stream is the text that was written to it.
-/

set_option autoImplicit false

namespace Pensar.Model

open Pensar.Computation

/-- `is >> id`: white space is skipped, and the longest text of digits read, after a sign if there
is one.  A number that does not fit is stored as the nearest one that does. -/
def InStream.extractId (is : InStream) (id : Id) : Id × InStream :=
  if is.good then
    match is.remaining.dropWhile isspace with
    | [] => (id, { is with remaining := [], good := false })
    | c :: cs =>
      let unsigned := if c = Wc '-' || c = Wc '+' then cs else c :: cs
      let digits := unsigned.takeWhile Decimal.isDecimal
      let rest := unsigned.dropWhile Decimal.isDecimal
      if digits = [] then (0, { is with remaining := rest, good := false })
      else
        let n : ℤ := if c = Wc '-' then -Decimal.value digits else Decimal.value digits
        let stored := max (-2 ^ 63) (min n (2 ^ 63 - 1))
        (BitVec.ofInt 64 stored,
          { is with remaining := rest, good := !rest.isEmpty && stored = n })
  else (id, is)

/-- `os << id`. -/
def insertId (os : S) (id : Id) : S := os ++ Decimal.integer id.toInt

namespace Object

/-- SOURCE: cpp/src/object.hpp:286 -/
def readText (o : Object) (is : InStream) : Object × InStream :=
  let (mid, is) := is.extractId o.mid
  (⟨mid⟩, is)

/-- SOURCE: cpp/src/object.hpp:287 -/
def writeText (o : Object) (os : S) : S := insertId os o.id

end Object

namespace Generator

/-- SOURCE: cpp/src/generator.hpp:153-160 -/
def readText (g : Generator) (is : InStream) : Generator × InStream :=
  let (object, is) := g.object.readText is
  let (initialValue, is) := is.extractId g.mdata.minitialValue
  let (step, is) := is.extractId g.mdata.mstep
  let (value, is) := is.extractId g.mdata.mvalue
  (⟨object, ⟨initialValue, value, step⟩⟩, is)

/-- SOURCE: cpp/src/generator.hpp:162-164 -/
def writeText (g : Generator) (os : S) : S :=
  let os := g.object.writeText os
  let os := insertId os g.mdata.minitialValue
  let os := insertId os g.mdata.mstep ++ W " "
  insertId os g.mdata.mvalue

/-- `is >> g1 >> g2 >> ...`. -/
def readSequence : List Generator → InStream → List Generator × InStream
  | [], is => ([], is)
  | g :: gs, is =>
    let (g, is) := g.readText is
    let (gs, is) := readSequence gs is
    (g :: gs, is)

/-- `os << g1 << " " << g2 << " " << ...`. -/
def writeSequence (os : S) : List Generator → S
  | [] => os
  | g :: gs => gs.foldl (fun os g => g.writeText (os ++ W " ")) (g.writeText os)

end Generator

end Pensar.Model
