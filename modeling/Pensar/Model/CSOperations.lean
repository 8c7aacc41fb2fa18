import Mathlib.Data.List.TakeWhile
import Pensar.Computation.Machine
import Pensar.Model.CS

/-!
# The operations of `CS` (`cpp/src/cs.hpp`)

Everything that changes a fixed string goes through `copy` or `+=`.  `length ()` looks for
the NUL: where the array has none it reads on past its end, which is outside the defined
behaviour, and so is an assignment to an element that the array does not have.
-/

set_option autoImplicit false

namespace Pensar.Model

open Pensar.Computation

/-- A `const C*`: the characters in front of its NUL. -/
abbrev CString := {s : S // NULL_CHAR ∉ s}

/-- What a `const C*` to the string stands for: the characters in front of its first NUL. -/
def upToNul (s : S) : S := s.takeWhile (· != NULL_CHAR)

theorem nul_not_mem_upToNul (s : S) : NULL_CHAR ∉ upToNul s := by
  intro h
  have := List.mem_takeWhile_imp h
  simp at this

theorem upToNul_eq_self {s : S} (h : NULL_CHAR ∉ s) : upToNul s = s := by
  apply List.takeWhile_eq_self_iff.mpr
  intro c hc
  rw [bne_iff_ne]
  rintro rfl
  exact h hc

/-- An input stream: the characters ahead, whether it is good, and its field width. -/
structure InStream where
  remaining : List C
  good : Bool := true
  width : ℕ := 0

def isspace (c : C) : Bool := c = 32 || (9 ≤ c && c ≤ 13)

/-- `is >> s`: the string is what the operator leaves in an empty `s`. -/
def InStream.extract (is : InStream) : S × InStream :=
  if is.good then
    let ahead := is.remaining.dropWhile isspace
    let field := ahead.takeWhile fun c => !isspace c
    let word := if is.width = 0 then field else field.take is.width
    let rest := ahead.drop word.length
    let ended := rest.isEmpty && (is.width = 0 || word.length < is.width)
    (word, { remaining := rest, good := !ended && !word.isEmpty, width := 0 })
  else
    ([], is)

namespace CS

variable {MIN MAX : ℕ} {cs as : Bool}

/-- The default constructor.
SOURCE: cpp/src/cs.hpp:165-168 -/
def new : CS MIN MAX cs as := ⟨List.replicate MAX NULL_CHAR, List.length_replicate⟩

/-- `std::char_traits<C>::length (data.data ())`.
SOURCE: cpp/src/cs.hpp:175-178 -/
def length? (self : CS MIN MAX cs as) : Option ℕ := self.toString?.map List.length

/-- The statements of `copy` in their order, on the array that they change: an exception
leaves it as the statements before it did.
SOURCE: cpp/src/cs.hpp:180-202 -/
def copyStatements (MIN MAX : ℕ) (s : S) (addNullAtEnd fillNullBeforeCopy : Bool := true) :
    ExceptT String (StateM (List C)) Unit := do
  if s.length ≥ MAX then
    throw ("String is too long. Max size is " ++ toString MAX)
  if s.length < MIN then
    throw ("String is too short. Min size is " ++ toString MIN)
  if fillNullBeforeCopy then
    modify fun data => List.replicate data.length NULL_CHAR
  if s.length > 0 then
    modify fun data => memcpyAt data 0 s
  if addNullAtEnd then
    modify fun data => data.set s.length NULL_CHAR

/-- `CS (const S&)`, over memory that holds anything.
SOURCE: cpp/src/cs.hpp:220-223 -/
def ofString (storage : CS MIN MAX cs as) (str : S) : Except String (CS MIN MAX cs as) :=
  storage.copy str

/-- `copy (const C*)`, `CS (const C*)` and `operator= (const C*)`.
SOURCE: cpp/src/cs.hpp:204-208,215-218,347-351 -/
def copyC (self : CS MIN MAX cs as) (str : CString) : Except String (CS MIN MAX cs as) :=
  self.copy str.val

/-- `operator= (const S&)`, which is `noexcept`.
SOURCE: cpp/src/cs.hpp:340-344 -/
def assignString (self : CS MIN MAX cs as) (str : S) : Outcome (CS MIN MAX cs as) :=
  match self.copy str with
  | .ok cs => .value cs
  | .error _ => .terminated

/-- `assign`.  When `other` is the object itself, `copy` fills its array before it copies
from it.
SOURCE: cpp/src/cs.hpp:360-364 -/
def assign (self other : CS MIN MAX cs as) (same : Bool) :
    Outcome (Except String (CS MIN MAX cs as)) :=
  match other.length? with
  | none => .undefined
  | some n =>
    let source := if same then other.fillNull else other
    .value (self.copy (source.data.take n))

/-- `operator+=`.
SOURCE: cpp/src/cs.hpp:366-379 -/
def append (self other : CS MIN MAX cs as) : Outcome (Except String (CS MIN MAX cs as)) :=
  match self.length?, other.length? with
  | some strlen, some otherStrlen =>
    if hlong : strlen + otherStrlen > MAX then
      .value (.error ("CString is too long. Max size is " ++ toString MAX))
    else
      let copied := memcpyAt self.data strlen (other.data.take otherStrlen)
      have hcopied : copied.length = MAX := by
        rw [memcpyAt_length, self.size_eq]
        rw [List.length_take, self.size_eq]
        omega
      if strlen + otherStrlen < MAX then
        .value (.ok ⟨copied.set (strlen + otherStrlen) NULL_CHAR, by rw [List.length_set, hcopied]⟩)
      else
        -- `data[MAX] = NULL_CHAR`
        .undefined
  | _, _ => .undefined

/-- `operator+`: a copy, and `+=` on it.
SOURCE: cpp/src/cs.hpp:381-386 -/
def plus (self other : CS MIN MAX cs as) : Outcome (Except String (CS MIN MAX cs as)) :=
  append self other

/-- SOURCE: cpp/src/cs.hpp:395-401 -/
def read (self : CS MIN MAX cs as) (is : InStream) : Except String (CS MIN MAX cs as) × InStream :=
  let (s, is) := is.extract
  (self.copy s, is)

end CS

end Pensar.Model
