import Pensar.Model.CSOperations

/-!
# Comparing fixed strings (`cpp/src/cs.hpp`)

The operators go through the two arrays character by character, and compare characters
after folding case and accents as the parameters of the template say.
-/

set_option autoImplicit false

namespace Pensar.Model

/-- `std::tolower`, in the "C" locale. -/
def tolower (c : C) : C := if Wc 'A' ≤ c && c ≤ Wc 'Z' then c + 32 else c

/-- The value of a `char`, which is signed on x86. -/
def charValue (c : C) : ℤ := c.toInt8.toInt

section

variable (nfdBase : C → C)

/-- `remove_accent_char`: `nfdBase` is the base character of ICU's canonical decomposition.
Where `char` is signed, every character takes the fast path; there `nfdBase` is the identity.
SOURCE: cpp/src/icu_util.hpp:534-563 -/
def removeAccentChar (c : C) : C := if c < 128 then c else nfdBase c

/-- `remove_accent_char` where `char` is signed, with the test on the signed value. -/
def removeAccentCharSigned (c : C) : C := if charValue c < 128 then c else nfdBase c

/-- SOURCE: cpp/src/cs.hpp:62-85 -/
def equal (c c2 : C) (caseSensitive accentSensitive : Bool := false) : Bool :=
  match caseSensitive, accentSensitive with
  | true, true => c = c2
  | true, false => removeAccentChar nfdBase c = removeAccentChar nfdBase c2
  | false, true => tolower c = tolower c2
  | false, false =>
    tolower (removeAccentChar nfdBase c) = tolower (removeAccentChar nfdBase c2)

/-- SOURCE: cpp/src/cs.hpp:88-112 -/
def less (c c2 : C) (caseSensitive accentSensitive : Bool := false) : Bool :=
  match caseSensitive, accentSensitive with
  | true, true => charValue c < charValue c2
  | true, false => charValue (removeAccentChar nfdBase c) < charValue (removeAccentChar nfdBase c2)
  | false, true => charValue (tolower c) < charValue (tolower c2)
  | false, false =>
    charValue (tolower (removeAccentChar nfdBase c)) <
      charValue (tolower (removeAccentChar nfdBase c2))

namespace CS

variable {MIN MAX : ℕ} {cs as : Bool}

/-- `operator==`: `none` when an array has no NUL, where `length ()` runs past it.
SOURCE: cpp/src/cs.hpp:281-298 -/
def eq? (self other : CS MIN MAX cs as) : Option Bool :=
  match self.length?, other.length? with
  | some strlen, some otherStrlen =>
    if strlen = otherStrlen then
      some (((self.data.zip other.data).take strlen).all fun (c, c2) => equal nfdBase c c2 cs as)
    else
      some false
  | _, _ => none

end CS

end

end Pensar.Model
