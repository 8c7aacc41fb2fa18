import Pensar.Computation.StrictWeakOrder

/-!
# `SortedList` (`cpp/src/sorted_list.hpp`)

A vector that `add` keeps sorted by a comparator, with a flag that makes `add` reject
values equivalent to one that is there.  The class requires of its comparator that it is a
strict weak order, which here the comparator's type says.  Comparators and copies are
taken not to throw, so that the `catch` branches of `add`, `find` and `remove`, which only
put a text in front of the message, are never reached.
-/

set_option autoImplicit false

namespace Pensar.Model

open Pensar.Computation

/-- class `SortedList`.  An iterator is a position; `end ()` is the length.
SOURCE: cpp/src/sorted_list.hpp:44-54,264-268 -/
@[ext] structure SortedList (T : Type) where
  data : List T
  unique : Bool
  comp : StrictWeakOrder T

namespace SortedList

variable {T : Type}

/-- The text of the `std::out_of_range` exception, if there is one.
SOURCE: cpp/src/sorted_list.hpp:31-42 -/
def validateIndex (index size : ℕ) (context : String) : Except String Unit :=
  if index ≥ size then
    .error (context ++ ": Index " ++ toString index ++ " out of bounds for size " ++ toString size)
  else
    .ok ()

/-- SOURCE: cpp/src/sorted_list.hpp:57-59 -/
def new (unique : Bool) (comp : StrictWeakOrder T) : SortedList T := ⟨[], unique, comp⟩

/-- SOURCE: cpp/src/sorted_list.hpp:117 -/
def setUnique (self : SortedList T) (unique : Bool) : SortedList T := { self with unique }

/-- SOURCE: cpp/src/sorted_list.hpp:120 -/
def isUnique (self : SortedList T) : Bool := self.unique

/-- Whether the value was added, and the list.
SOURCE: cpp/src/sorted_list.hpp:123-139 -/
def add (self : SortedList T) (value : T) : Bool × SortedList T :=
  let it := self.comp.lowerBound self.data value
  if self.unique && self.data[it]?.any fun x =>
      !self.comp.lt x value && !self.comp.lt value x then
    (false, self)
  else
    (true, { self with data := self.data.insertIdx it value })

/-- SOURCE: cpp/src/sorted_list.hpp:142-155 -/
def find (self : SortedList T) (value : T) : ℕ :=
  let it := self.comp.lowerBound self.data value
  if self.data[it]?.any fun x => !self.comp.lt x value && !self.comp.lt value x then it
  else self.data.length

/-- Whether an element was removed, and the list.
SOURCE: cpp/src/sorted_list.hpp:157-173 -/
def remove (self : SortedList T) (value : T) : Bool × SortedList T :=
  let it := self.find value
  if it ≠ self.data.length then
    (true, { self with data := self.data.eraseIdx it })
  else
    (false, self)

/-- SOURCE: cpp/src/sorted_list.hpp:176-180 -/
def removeAt (self : SortedList T) (index : ℕ) : Except String (SortedList T) := do
  validateIndex index self.data.length "SortedList::remove_at"
  pure { self with data := self.data.eraseIdx index }

/-- SOURCE: cpp/src/sorted_list.hpp:210-213 -/
def contains (self : SortedList T) (value : T) : Bool := self.find value ≠ self.data.length

/-- SOURCE: cpp/src/sorted_list.hpp:216 -/
def size (self : SortedList T) : ℕ := self.data.length

/-- SOURCE: cpp/src/sorted_list.hpp:222 -/
def clear (self : SortedList T) : SortedList T := { self with data := [] }

/-- The loop of the two constructors that take elements.
SOURCE: cpp/src/sorted_list.hpp:62-81 -/
def ofItems (items : List T) (unique : Bool) (comp : StrictWeakOrder T) : SortedList T :=
  items.foldl (fun self item => (self.add item).2) (new unique comp)

/-! ## Copies and moves -/

/-- The copy constructor and the copy assignment, both defaulted.  The constructor is
reached from a `const` list only.
SOURCE: cpp/src/sorted_list.hpp:84,90 -/
def copy (other : SortedList T) : SortedList T := other

/-- `SortedList copy = other;` for an `other` that is not `const`.  The range constructor
takes it: with `R = SortedList&` its `R&&` binds exactly, while the copy constructor would
add a `const`.  Its other two parameters have their defaults, `false` and `Compare ()`.
SOURCE: cpp/src/sorted_list.hpp:73-81 -/
def copyNonConst (defaultComp : StrictWeakOrder T) (other : SortedList T) : SortedList T :=
  ofItems other.data false defaultComp

/-- What a move leaves of its source: an empty vector, the flag, and a comparator that
was moved from.
SOURCE: cpp/src/sorted_list.hpp:87,91 -/
def movedFrom (movedComp : StrictWeakOrder T → StrictWeakOrder T) (other : SortedList T) :
    SortedList T :=
  { other with data := [], comp := movedComp other.comp }

/-! ## Access -/

/-- The ways to a reference into the vector that can be assigned through. -/
inductive Access where
  | at
  | subscript
  | iterator
  deriving DecidableEq

/-- What is checked before the reference is there.  An iterator is not checked; one that
can be dereferenced stands in front of `size ()`.
SOURCE: cpp/src/sorted_list.hpp:183-200,225-228 -/
def access (self : SortedList T) (index : ℕ) : Access → Except String Unit
  | .at => validateIndex index self.data.length "SortedList::at"
  | .subscript => validateIndex index self.data.length "SortedList::operator[]"
  | .iterator => .ok ()

/-- `self.at (index) = value`, `self[index] = value`, `*(self.begin () + index) = value`. -/
def write (self : SortedList T) (via : Access) (index : ℕ) (value : T) :
    Except String (SortedList T) := do
  self.access index via
  pure { self with data := self.data.set index value }

end SortedList

end Pensar.Model
