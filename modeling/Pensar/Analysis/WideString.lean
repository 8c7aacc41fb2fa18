import Pensar.Model.WideString

/-!
# Wide strings to UTF-8

`utf32_to_utf8` asks for the length of the output with a buffer of no bytes and takes the
overflow that ICU reports for a failure, which `utf16_to_utf8` does not: it resets the status.
So every string but the empty one is refused (`utf32ToUtf8_refuses`).

Main result: `utf32ToUtf8_iff`.
-/

set_option autoImplicit false

namespace Pensar.Analysis

open Pensar.Computation
open Pensar.Computation.Utf16
open Pensar.Model

variable (icu : Converters) (native : StdEndian)

/-! ## Nothing is read as nothing only -/

theorem codePoints_ne_nil {us : List ℕ} (h : us ≠ []) : codePoints us ≠ [] := by
  match us, h with
  | [u], _ => simp [codePoints]
  | u :: v :: rest, _ =>
    rw [codePoints]
    split <;> exact List.cons_ne_nil _ _

theorem utf8_ne_nil {text : List Char} (h : text ≠ []) : utf8 text ≠ [] := by
  intro hnil
  have hempty : utf8 text = utf8 [] := hnil
  exact h (utf8_injective hempty)

theorem toUTF8String_ne_nil {us : UnicodeString} (h : us ≠ []) : toUTF8String us ≠ [] := by
  apply utf8_ne_nil
  rw [decode, ne_eq, List.map_eq_nil_iff]
  exact codePoints_ne_nil h

theorem take_reinterpretUChar_ne_nil {s : WString} (h : s ≠ []) :
    (reinterpretUChar native s).take s.length ≠ [] := by
  cases s with
  | nil => exact absurd rfl h
  | cons c s =>
    rw [reinterpretUChar, List.cons_append, List.flatMap_cons, List.length_cons]
    cases native <;> exact List.cons_ne_nil _ _

/-! ## The length of the output -/

/-- A buffer of no bytes is too small for any output. -/
theorem preflight_fails {src : UnicodeString} {n : ℕ} {status : UErrorCode}
    (hstatus : U_FAILURE status = false) (h : src.take n ≠ []) :
    (ucnvFromUChars 0 src n status).status = U_BUFFER_OVERFLOW_ERROR := by
  have hpos : (toUTF8String (src.take n)).length > 0 :=
    List.length_pos_iff.mpr (toUTF8String_ne_nil h)
  simp only [ucnvFromUChars, hstatus, Bool.false_eq_true, if_false, if_pos hpos]

/-- **Every string but the empty one is refused.** -/
theorem utf32ToUtf8_refuses {s : WString} (h : s ≠ []) :
    utf32ToUtf8 icu native s = .error (if s.length > MAX_INT32_T
      then "pd::icu_util::utf32_to_utf8: Error converting string. Buffer size is too big."
      else "pd::icu_util::utf32_to_utf8: Failed to calculate buffer size for UTF-8 string.") := by
  have hstatus := preflight_fails icu.utf32_opens (take_reinterpretUChar_ne_nil native h)
  have hoverflow : U_FAILURE U_BUFFER_OVERFLOW_ERROR = true := by decide
  simp only [utf32ToUtf8, icu.utf8_opens, icu.utf32_opens, Bool.false_eq_true, if_false, hstatus,
    hoverflow, if_true]
  split <;> rfl

theorem utf32ToUtf8_nil : utf32ToUtf8 icu native [] = .ok [] := by
  have hstatus : U_FAILURE (ucnvFromUChars 0 (reinterpretUChar native []) 0
      (icu.ucnvOpen "UTF-32")).status = false := by
    simp only [ucnvFromUChars, icu.utf32_opens, Bool.false_eq_true, if_false, List.take_zero]
    rfl
  have hlength : (ucnvFromUChars 0 (reinterpretUChar native []) 0
      (icu.ucnvOpen "UTF-32")).length = 0 := by
    simp only [ucnvFromUChars, icu.utf32_opens, Bool.false_eq_true, if_false, List.take_zero]
    rfl
  simp only [utf32ToUtf8, icu.utf8_opens, icu.utf32_opens, Bool.false_eq_true, if_false, hstatus,
    hlength, List.length_nil]
  rfl

/-- **Conversion of a wide string**: right for the empty one. -/
theorem utf32ToUtf8_iff (text : List Char) :
    utf32ToUtf8 icu native (text.map Char.val) = .ok (utf8 text) ↔ text = [] := by
  constructor
  · intro h
    by_contra hne
    rw [utf32ToUtf8_refuses icu native (by simpa using hne)] at h
    cases h
  · rintro rfl
    exact utf32ToUtf8_nil icu native

/-- ICU as it is built. -/
def builtIn : Converters where
  ucnvOpen name := if name = "UTF-8" ∨ name = "UTF-32" then U_ZERO_ERROR else 4
  utf8_opens := by decide
  utf32_opens := by decide

theorem not_utf32ToUtf8_letter :
    ¬ ∀ text : List Char, text.length < 2 ^ 31 →
      utf32ToUtf8 builtIn .little (text.map Char.val) = .ok (utf8 text) := by
  intro h
  have hletter := h ['A'] (by decide)
  rw [utf32ToUtf8_refuses _ _ (by decide)] at hletter
  cases hletter

end Pensar.Analysis
