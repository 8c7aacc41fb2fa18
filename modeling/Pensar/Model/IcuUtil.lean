import Pensar.Computation.Utf16
import Pensar.Model.Distance

/-!
# `icu_util` (`cpp/src/icu_util.hpp`) and `icu_distance` (`cpp/src/distance.hpp`)

ICU itself is a parameter: how it reads UTF-8, its canonical decomposition and its character
types.  A `UnicodeString` is its code units of UTF-16.

The build is the one with narrow characters, where `to_utf8` copies the string.
-/

set_option autoImplicit false

namespace Pensar.Model

open Pensar.Computation

/-- ICU. -/
structure Icu where
  /-- The code points that a byte string is read as: those it is the UTF-8 of, with U+FFFD in
  the place of what is not UTF-8. -/
  points : S → List Char
  points_utf8 : ∀ text, points (utf8 text) = text
  /-- The canonical decomposition. -/
  nfd : List Char → List Char
  /-- Whether `u_charType` gives `U_NON_SPACING_MARK`. -/
  isNonSpacingMark : ℕ → Bool

abbrev UnicodeString := List ℕ

variable (icu : Icu)

/-- SOURCE: cpp/src/icu_util.hpp:279-283 -/
def toUnicodeString (s : S) : UnicodeString := Utf16.encode (icu.points s)

/-- The loop from the index `i` on. -/
def toCodepointsLoop (ustr : UnicodeString) (i : ℕ) (codepoints : List ℕ) : List ℕ :=
  if i < ustr.length then
    let c := Utf16.char32At ustr i
    toCodepointsLoop ustr (i + Utf16.unitCount c) (codepoints ++ [c])
  else
    codepoints
termination_by ustr.length - i
decreasing_by
  unfold Utf16.unitCount
  split <;> omega

/-- One round of the loop. -/
def toCodepointsNext (ustr : UnicodeString) : ℕ × List ℕ → Option (ℕ × List ℕ)
  | (i, codepoints) =>
    if i < ustr.length then
      let c := Utf16.char32At ustr i
      some (i + Utf16.unitCount c, codepoints ++ [c])
    else
      none

/-- SOURCE: cpp/src/icu_util.hpp:285-299 -/
def toCodepoints (s : S) : List ℕ := toCodepointsLoop (toUnicodeString icu s) 0 []

/-- The body is that of `distance`, over code points.
SOURCE: cpp/src/distance.hpp:60-102 -/
def icuDistance (source target : S) : ℕ :=
  Distance.rolling (toCodepoints icu source) (toCodepoints icu target)

/-- `UnicodeString::toUTF8String`, into an empty string. -/
def toUTF8String (ustr : UnicodeString) : S := utf8 (Utf16.decode ustr)

/-- `Normalizer2::normalize`. -/
def Icu.normalize (ustr : UnicodeString) : UnicodeString :=
  Utf16.encode (icu.nfd (Utf16.decode ustr))

def MAX_INT32_T : ℕ := 2 ^ 31 - 1

/-- The body of the loop in `remove_accents`. -/
def keepBase (normalized result : UnicodeString) (i : ℕ) : UnicodeString :=
  let c := Utf16.char32At normalized i
  if icu.isNonSpacingMark c then result else result ++ Utf16.units c

/-- SOURCE: cpp/src/icu_util.hpp:394-452 -/
def removeAccents (s : S) : Except String S :=
  if s.length > MAX_INT32_T then
    .error "remove_accents: String is too long"
  else
    let normalized := icu.normalize (toUnicodeString icu s)
    let result := (List.range normalized.length).foldl (keepBase icu normalized) []
    .ok (toUTF8String result)

end Pensar.Model
