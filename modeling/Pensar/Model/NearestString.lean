import Pensar.Computation.Machine
import Pensar.Model.Distance

/-!
# Searching for near strings (`cpp/src/distance.hpp`)

A container is the list of its elements in the order of iteration, a map that of its
entries.
-/

set_option autoImplicit false

namespace Pensar.Model

open Pensar.Computation

/-- A `size_t` assigned to an `int`. -/
def toInt (n : ℕ) : ℤ := (n : ℤ).bmod (2 ^ 32)

/-- Throws `std::invalid_argument` for an empty container.
SOURCE: cpp/src/distance.hpp:119-139 -/
def minDistance (s : S) (c : List S) : Except String S :=
  match c with
  | [] => .error "c.size () = 0"
  | first :: _ =>
    let minDist := toInt (distance first s)
    let found := c.foldl
      (fun (min, minDist) it =>
        let dist := toInt (distance it s)
        if dist < minDist then (it, dist) else (min, minDist))
      (first, minDist)
    .ok found.1

/-- SOURCE: cpp/src/distance.hpp:146-167 -/
def minDistanceMapKey {V : Type} [Inhabited V] (s : S) (c : List (S × V))
    (maxDistance : ℤ := 2 ^ 31 - 1) : Except String (S × V) :=
  match c with
  | [] => .error "c.size () = 0"
  | first :: _ =>
    let minDist := toInt (distance first.1 s)
    let found := c.foldl
      (fun (minimum, minDist) it =>
        let dist := toInt (distance it.1 s)
        if dist < minDist then (it, dist) else (minimum, minDist))
      (first, minDist)
    let nope := ([], default)
    .ok (if found.2 ≤ maxDistance then found.1 else nope)

/-- struct `LessDistance`.
SOURCE: cpp/src/distance.hpp:106-117 -/
def lessDistance (reference left right : S) : Bool :=
  distance left reference < distance right reference

/-- `std::multiset::insert`: behind the elements that the new one is not less than. -/
def multisetInsert (less : S → S → Bool) (mset : List S) (it : S) : List S :=
  mset.takeWhile (fun x => !less it x) ++ it :: mset.dropWhile fun x => !less it x

/-- `while (max_elements--) ++fim`, in a container of `size` elements: incrementing the end
is outside the defined behaviour. -/
def advance (size : ℕ) : (maxElements fim : ℕ) → Outcome ℕ
  | 0, fim => .value fim
  | maxElements + 1, fim =>
    if fim < size then advance size maxElements (fim + 1) else .undefined

/-- The overload with `out`.  The loop that inserts into `mset` goes through `mset` itself,
which is empty.
SOURCE: cpp/src/distance.hpp:169-190 -/
def minDistanceOut (s : S) (c out : List S) (maxElements : ℕ := 0) :
    Outcome (Except String (List S)) :=
  if c.length = 0 then
    .value (.error "c.size () = 0")
  else
    let mset : List S := []
    let mset := mset.foldl (multisetInsert (lessDistance s)) mset
    if maxElements = 0 then
      .value (.ok (out ++ mset))
    else do
      let fim ← advance mset.length maxElements 0
      .value (.ok (out ++ mset.take fim))

end Pensar.Model
