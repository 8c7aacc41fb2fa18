import Pensar.Model.BinaryBuffer

/-!
# `CS` (`cpp/src/cs.hpp`)

A string of fewer than `MAX` characters in an array of exactly `MAX`, ended by the first
NUL.  The library is built with narrow characters (`WIDE_CHAR` is not defined), so a
character is a byte.
-/

set_option autoImplicit false

namespace Pensar.Model

open Pensar.Computation

/-- `using C = char`.
SOURCE: cpp/src/string_def.hpp:17 -/
abbrev C := Byte

/-- `using S = std::basic_string<C>`. -/
abbrev S := List C

def W (literal : String) : S := literal.toList.map fun c => UInt8.ofNat c.toNat

/-- `W ('c')`. -/
def Wc (c : Char) : C := UInt8.ofNat c.toNat

/-- SOURCE: cpp/src/string_def.hpp:29 -/
def NULL_CHAR : C := 0

/-- class `CS`: the array is a `std::array<C, MAX>`, so its length is fixed.
SOURCE: cpp/src/cs.hpp:136-146 -/
@[ext] structure CS (MIN MAX : ℕ) (caseSensitive accentSensitive : Bool := false) where
  data : List C
  size_eq : data.length = MAX
  deriving DecidableEq

namespace CS

variable {MIN MAX : ℕ} {cs as : Bool}

/-- SOURCE: cpp/src/cs.hpp:159-162 -/
def fillNull (_ : CS MIN MAX cs as) : CS MIN MAX cs as :=
  ⟨List.replicate MAX NULL_CHAR, List.length_replicate⟩

/-- The message of the exception, or the new array.
SOURCE: cpp/src/cs.hpp:180-202 -/
def copy (self : CS MIN MAX cs as) (s : S) (addNullAtEnd fillNullBeforeCopy : Bool := true) :
    Except String (CS MIN MAX cs as) :=
  if hmax : s.length ≥ MAX then
    .error ("String is too long. Max size is " ++ toString MAX)
  else if s.length < MIN then
    .error ("String is too short. Min size is " ++ toString MIN)
  else
    let filled := if fillNullBeforeCopy then self.fillNull else self
    let copied := memcpyAt filled.data 0 s
    have hcopied : copied.length = MAX := by
      rw [memcpyAt_length (by rw [filled.size_eq]; omega), filled.size_eq]
    if addNullAtEnd then
      .ok ⟨copied.set s.length NULL_CHAR, by rw [List.length_set, hcopied]⟩
    else
      .ok ⟨copied, hcopied⟩

/-- The array that a string of admissible length leaves: the string, then NULs. -/
def ofS (s : S) (h : s.length < MAX) : CS MIN MAX cs as :=
  ⟨s ++ List.replicate (MAX - s.length) NULL_CHAR, by simp; omega⟩

/-- Copying a string of admissible length leaves the string and NULs after it, whatever
the array held before. -/
theorem copy_eq_ofS (self : CS MIN MAX cs as) (s : S) (hmax : s.length < MAX)
    (hmin : MIN ≤ s.length) : self.copy s = .ok (ofS s hmax) := by
  have hdata : (memcpyAt self.fillNull.data 0 s).set s.length NULL_CHAR =
      s ++ List.replicate (MAX - s.length) NULL_CHAR := by
    obtain ⟨k, hk⟩ : ∃ k, MAX - s.length = k + 1 := ⟨MAX - s.length - 1, by omega⟩
    simp [memcpyAt, fillNull, hk, List.replicate_succ]
  simp [copy, show ¬ MAX ≤ s.length by omega, show ¬ s.length < MIN by omega, hdata, ofS]

/-- `S(data.data())`: the characters up to the first NUL; `none` when there is none and
the scan runs past the array.
SOURCE: cpp/src/cs.hpp:236-239,389-393 -/
def toString? (self : CS MIN MAX cs as) : Option S :=
  if NULL_CHAR ∈ self.data then some (self.data.takeWhile (· != NULL_CHAR)) else none

theorem toString_ofS (s : S) (h : s.length < MAX) (hnul : NULL_CHAR ∉ s) :
    (ofS s h : CS MIN MAX cs as).toString? = some s := by
  obtain ⟨k, hk⟩ : ∃ k, MAX - s.length = k + 1 := ⟨MAX - s.length - 1, by omega⟩
  have hall : ∀ c ∈ s, (c != NULL_CHAR) = true := by
    rintro c hc
    rw [bne_iff_ne]
    rintro rfl
    exact hnul hc
  have hstop : (s ++ List.replicate (k + 1) NULL_CHAR).takeWhile (· != NULL_CHAR) = s := by
    rw [List.takeWhile_append_of_pos hall, List.replicate_succ,
      List.takeWhile_cons_of_neg (by simp), List.append_nil]
  simp [toString?, ofS, hk, hstop]

def layout : Layout (CS MIN MAX cs as) :=
  (Layout.bytes MAX).map
    { toFun := fun ⟨l, h⟩ => ⟨l, h⟩
      invFun := fun ⟨l, h⟩ => ⟨l, h⟩
      left_inv := fun _ => rfl
      right_inv := fun _ => rfl }

@[simp] theorem layout_width : (layout : Layout (CS MIN MAX cs as)).width = MAX := rfl

end CS

end Pensar.Model
