import Pensar.Model.CS

/-!
# `distance` (`cpp/src/distance.hpp`)

The edit distance of two strings.  Only three rows of the table are held at a time, and
after every round they move up by one.

Row entries are natural numbers: none exceeds the sum of the two lengths by more than one.
-/

set_option autoImplicit false

namespace Pensar.Model

namespace Distance

variable {α : Type} [DecidableEq α]

/-- The three vectors: the rows `i - 2`, `i - 1` and `i`. -/
@[ext] structure Rows where
  row1 : List ℕ
  row2 : List ℕ
  row3 : List ℕ

/-- The body of the inner loop: `row3` with its entry `j`.
SOURCE: cpp/src/distance.hpp:39-50 -/
def entry (source target : List α) (i : ℕ) (row1 row2 : List ℕ) (row3 : List ℕ) (j : ℕ) :
    List ℕ :=
  let s_i := source[i - 1]?
  let t_j := target[j - 1]?
  let cost := if s_i = t_j then 0 else 1
  let row3 := row3.set j
    (min (min (row3.getD (j - 1) 0 + 1) (row2.getD j 0 + 1)) (row2.getD (j - 1) 0 + cost))
  if i > 1 ∧ j > 1 ∧ s_i = target[j - 2]? ∧ t_j = source[i - 2]? then
    row3.set j (min (row3.getD j 0) (row1.getD (j - 2) 0 + 1))
  else
    row3

/-- The body of the outer loop.
SOURCE: cpp/src/distance.hpp:36-55 -/
def round (source target : List α) (rows : Rows) (i : ℕ) : Rows :=
  let row3 := (List.range' 1 target.length).foldl
    (entry source target i rows.row1 rows.row2) (rows.row3.set 0 i)
  { row1 := rows.row2, row2 := row3, row3 := row3 }

/-- The three vectors before the first round: zeros, and in `row2` the numbers from 0. -/
def start (m : ℕ) : Rows where
  row1 := List.replicate (m + 1) 0
  row2 := List.range (m + 1)
  row3 := List.replicate (m + 1) 0

/-- The function for any type of characters that can be compared. -/
def rolling (source target : List α) : ℕ :=
  let n := source.length
  let m := target.length
  if n = 0 then m
  else if m = 0 then n
  else ((List.range' 1 n).foldl (round source target) (start m)).row2.getD m 0

end Distance

/-- SOURCE: cpp/src/distance.hpp:21-58 -/
def distance (source target : S) : ℕ := Distance.rolling source target

end Pensar.Model
