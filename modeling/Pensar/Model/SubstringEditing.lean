import Pensar.Computation.Loop
import Pensar.Computation.Substring
import Pensar.Model.CS

/-!
# Removing and replacing substrings (`cpp/src/s.hpp`)

The loops search the string from its start in every round, so whether they end depends on the
strings; they are run with a bound on the number of their rounds.
-/

set_option autoImplicit false

namespace Pensar.Model

open Pensar.Computation

/-- `target.erase (pos, n)`, at a position that `find` has found. -/
def erase (target : S) (pos n : ℕ) : S := target.take pos ++ target.drop (pos + n)

/-- `s.replace (i, n, r)`, at a position that `find` has found. -/
def replace (s : S) (i n : ℕ) (r : S) : S := s.take i ++ r ++ s.drop (i + n)

/-- The round of the loop of `remove`: `pos` is the position that the last search found. -/
def removeNext (s : S) : S × Option ℕ → Option (S × Option ℕ)
  | (_, none) => none
  | (target, some pos) =>
    let target := erase target pos s.length
    some (target, findSub target s)

/-- SOURCE: cpp/src/s.hpp:339-347 -/
def remove (s target : S) (fuel : ℕ) : Option S :=
  (Loop.run (removeNext s) fuel (target, findSub target s)).map Prod.fst

/-- The round of the loop of `remove_substr`. -/
def removeSubstrNext (p s : S) : Option S := (findSub s p).map fun i => erase s i p.length

/-- SOURCE: cpp/src/s.hpp:371-376 -/
def removeSubstr (s p : S) (fuel : ℕ) : Option S := Loop.run (removeSubstrNext p) fuel s

/-- The round of the loop of `replace_substr`, which also sets `replaced`. -/
def replaceSubstrNext (o r : S) : S × Bool → Option (S × Bool)
  | (s, _) => (findSub s o).map fun i => (replace s i o.length r, true)

/-- What the function returns, and the string after it.
SOURCE: cpp/src/s.hpp:381-393 -/
def replaceSubstr (s o r : S) (fuel : ℕ) : Option (Bool × S) :=
  if s.length = 0 then some (false, s)
  else (Loop.run (replaceSubstrNext o r) fuel (s, false)).map fun (s, replaced) => (replaced, s)

/-- The loop of `remove_double_spaces`, whose condition is a call. -/
def removeDoubleSpacesLoop : (fuel : ℕ) → S → Option S
  | 0, _ => none
  | fuel + 1, s =>
    match replaceSubstr s (W "  ") (W " ") fuel with
    | none => none
    | some (true, s) => removeDoubleSpacesLoop fuel s
    | some (false, s) => some s

/-- SOURCE: cpp/src/s.hpp:527-533 -/
def removeDoubleSpaces (s : S) (fuel : ℕ) : Option S :=
  if s.length = 0 then some s else removeDoubleSpacesLoop fuel s

end Pensar.Model
