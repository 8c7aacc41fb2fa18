import Pensar.Model.Email

/-!
# The name of a person as text (`contact/person.hpp`)

`mmiddle` is `const` in `name`, so that `mmiddle + mlast` is not the member `operator+` but the one
that takes a string on its left.  Its result is longer than `mlast`, and what the two have in
common is the conversion to `C*`.
-/

set_option autoImplicit false

namespace Pensar.Model

open Pensar.Computation

/-- SOURCE: cpp/src/string_def.hpp:23 -/
def SPACE : C := Wc ' '

/-- `is.peek ()`; none is the end of the file. -/
def InStream.peek (is : InStream) : Option C × InStream :=
  if is.good then
    match is.remaining with
    | [] => (none, { is with good := false })
    | c :: _ => (some c, is)
  else (none, is)

/-- `is.ignore ()`. -/
def InStream.ignore (is : InStream) : InStream :=
  if is.good then
    match is.remaining with
    | [] => { is with good := false }
    | _ :: rest => { is with remaining := rest }
  else is

/-- `if (is.peek () == SPACE) is.ignore ();` -/
def InStream.ignoreSpace (is : InStream) : InStream :=
  let (next, is) := is.peek
  if next = some SPACE then is.ignore else is

namespace PersonName

open Email (defined concat)

/-- SOURCE: contact/person.hpp:33 -/
def MAX_NAME : ℕ := 20 + 20 + 20 + 2

/-- SOURCE: contact/person.hpp:52-57 -/
def name (self : PersonName) : Outcome (Except String (CS 0 MAX_NAME)) := do
  let first ← defined self.mfirst.toString?
  let s := first ++ [SPACE]
  let middle ← defined self.mmiddle.toString?
  if middle.length = 0 then
    let last ← defined self.mlast.toString?
    .value (CS.new.ofString (s ++ last))
  else
    match ← concat middle self.mlast with
    | .error message => .value (.error message)
    | .ok both =>
      let both ← defined both.toString?
      .value (CS.new.ofString (s ++ both))

/-- SOURCE: contact/person.hpp:69-75 -/
def write (self : PersonName) (os : S) : Outcome S := do
  let first ← defined self.mfirst.toString?
  let os := os ++ first ++ [SPACE]
  let middle ← defined self.mmiddle.toString?
  let os := if middle.length = 0 then os else os ++ middle ++ [SPACE]
  let last ← defined self.mlast.toString?
  .value (os ++ last)

/-- `return is >> mlast;` -/
def readLast (self : PersonName) (is : InStream) : Except String Unit × PersonName × InStream :=
  match self.mlast.read is with
  | (.error message, is) => (.error message, self, is)
  | (.ok mlast, is) => (.ok (), { self with mlast }, is)

/-- The exception, the object and the stream.
SOURCE: contact/person.hpp:77-87 -/
def read (self : PersonName) (is : InStream) : Except String Unit × PersonName × InStream :=
  match self.mfirst.read is with
  | (.error message, is) => (.error message, self, is)
  | (.ok mfirst, is) =>
    let self := { self with mfirst }
    let (next, is) := is.ignoreSpace.peek
    let afterMiddle : Except String (CS 0 20) × InStream :=
      if next ≠ some SPACE then self.mmiddle.read is else (.ok self.mmiddle, is)
    match afterMiddle with
    | (.error message, is) => (.error message, self, is)
    | (.ok mmiddle, is) => readLast { self with mmiddle } is.ignoreSpace

end PersonName

end Pensar.Model
