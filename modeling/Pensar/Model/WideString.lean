import Pensar.Model.ByteOrder
import Pensar.Model.IcuUtil

/-!
# Wide strings (`cpp/src/icu_util.hpp`)

The conversion of a `std::wstring` where `wchar_t` has 32 bits.  A converter of ICU, and the
status that its functions report, follow ICU's documentation.
-/

set_option autoImplicit false

namespace Pensar.Model

open Pensar.Computation

/-- `std::wstring`. -/
abbrev WString := List UInt32

/-- Warnings are negative, errors positive. -/
abbrev UErrorCode := ℤ

def U_STRING_NOT_TERMINATED_WARNING : UErrorCode := -124
def U_ZERO_ERROR : UErrorCode := 0
def U_BUFFER_OVERFLOW_ERROR : UErrorCode := 15

def U_FAILURE (code : UErrorCode) : Bool := code > U_ZERO_ERROR

/-- What a conversion leaves in the buffer, what it returns and its status. -/
structure Conversion where
  dest : S
  length : ℕ
  status : UErrorCode

/-- `ucnv_fromUChars` with a converter to UTF-8, which does nothing after a failure.  The length
is that of the whole output, also where this does not fit, and an output that fills the buffer
has no NUL behind it. -/
def ucnvFromUChars (destCapacity : ℕ) (src : UnicodeString) (srcLength : ℕ) (status : UErrorCode) :
    Conversion :=
  if U_FAILURE status then
    ⟨[], 0, status⟩
  else
    let output := toUTF8String (src.take srcLength)
    let status :=
      if output.length > destCapacity then U_BUFFER_OVERFLOW_ERROR
      else if output.length = destCapacity then U_STRING_NOT_TERMINATED_WARNING
      else if status = U_STRING_NOT_TERMINATED_WARNING then U_ZERO_ERROR
      else status
    ⟨output.take destCapacity, output.length, status⟩

/-- The converters that ICU has: the status of `ucnv_open` by their names. -/
structure Converters where
  ucnvOpen : String → UErrorCode
  utf8_opens : U_FAILURE (ucnvOpen "UTF-8") = false
  utf32_opens : U_FAILURE (ucnvOpen "UTF-32") = false

/-- `reinterpret_cast<const UChar*>`: the two halves of every character as they lie in memory,
and those of the terminating NUL. -/
def reinterpretUChar (native : StdEndian) (s : WString) : UnicodeString :=
  (s ++ [0]).flatMap fun (c : UInt32) =>
    let low := c.toNat % 2 ^ 16
    let high := c.toNat / 2 ^ 16
    match native with
    | .little => [low, high]
    | .big => [high, low]

/-- Where `WINDOWS` is not defined, `to_string` of a `std::wstring` is this function.
SOURCE: cpp/src/icu_util.hpp:195-264, cpp/src/s.hpp:501-509 -/
def utf32ToUtf8 (icu : Converters) (native : StdEndian) (s : WString) : Except String S :=
  if U_FAILURE (icu.ucnvOpen "UTF-8") then
    .error "1. pd::icu_util::utf32_to_utf8: Failed to open UTF-8 converter."
  else if U_FAILURE (icu.ucnvOpen "UTF-32") then
    .error "2. pd::icu_util::utf32_to_utf8: Failed to open UTF-32 converter."
  else
    let status := icu.ucnvOpen "UTF-32"
    let slen := s.length
    if slen > MAX_INT32_T then
      .error "pd::icu_util::utf32_to_utf8: Error converting string. Buffer size is too big."
    else
      let source := reinterpretUChar native s
      let preflight := ucnvFromUChars 0 source slen status
      if U_FAILURE preflight.status then
        .error
          "pd::icu_util::utf32_to_utf8: Failed to calculate buffer size for UTF-8 string."
      else
        let utf8Length := preflight.length
        let conversion := ucnvFromUChars (utf8Length + 1) source slen U_ZERO_ERROR
        if U_FAILURE conversion.status then
          .error
            "pd::icu_util::to_string: Failed to convert string from UTF-32 to UTF-8."
        else
          .ok (conversion.dest.take utf8Length)

end Pensar.Model
