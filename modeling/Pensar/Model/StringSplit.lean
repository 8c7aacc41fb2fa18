import Mathlib.Data.List.DropRight
import Pensar.Computation.Search
import Pensar.Model.CSOperations

/-!
# Trimming and splitting strings (`cpp/src/s.hpp`)

`isWspace` is `iswspace` of the locale, applied to a character read as an `unsigned char`; in
the "C" locale it is `isspace`.
A container is the list of its elements; inserting is at its end.
-/

set_option autoImplicit false

namespace Pensar.Model

open Pensar.Computation

variable (isWspace : C → Bool)

/-- SOURCE: cpp/src/s.hpp:60-68 -/
def rtrim (s : S) : S := s.rdropWhile isWspace

/-- SOURCE: cpp/src/s.hpp:70-78 -/
def ltrim (s : S) : S := s.dropWhile isWspace

/-- SOURCE: cpp/src/s.hpp:80-89 -/
def trim (s : S) : S := ltrim isWspace (rtrim isWspace s)

/-- What both places of the loop do with a piece.
SOURCE: cpp/src/s.hpp:112-115,122-125 -/
def insertPiece (trimElements includeEmptyFields : Bool) (c : List S) (aux : S) : List S :=
  let aux := if trimElements then trim isWspace aux else aux
  if includeEmptyFields || aux.length > 0 then c ++ [aux] else c

/-- The loop, with a separator at `j`.
SOURCE: cpp/src/s.hpp:109-127 -/
def splitLoop (s : S) (ch : C) (trimElements includeEmptyFields : Bool) (i j : ℕ) (c : List S) :
    List S :=
  let c := insertPiece isWspace trimElements includeEmptyFields c ((s.drop i).take (j - i))
  match h : findFrom s ch (j + 1) with
  | none =>
    insertPiece isWspace trimElements includeEmptyFields c ((s.drop (j + 1)).take s.length)
  | some j' => splitLoop s ch trimElements includeEmptyFields (j + 1) j' c
termination_by s.length - j
decreasing_by
  have hle := le_of_findFrom h
  have hlt := lt_length_of_findFrom h
  omega

/-- SOURCE: cpp/src/s.hpp:99-128 -/
def split (s : S) (ch : C) (c : List S) (trimElements : Bool := true)
    (includeEmptyFields : Bool := false) : List S :=
  match findFrom s ch 0 with
  | none => c ++ [s]
  | some j => splitLoop isWspace s ch trimElements includeEmptyFields 0 j c

end Pensar.Model
