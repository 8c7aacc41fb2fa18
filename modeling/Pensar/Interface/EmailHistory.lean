import Pensar.Interface.EmailGrammar

/-!
# Making and changing e-mails

What the constructors and `operator>>` of `Email` are meant to let in, and histories of
their calls on any number of e-mails, which are numbered in the order in which they are
constructed.  A fixed string stands for the characters in front of its first NUL.
-/

set_option autoImplicit false

namespace Pensar.Interface

open Pensar.Computation
open Pensar.Model

section

variable (nfdBase : C → C)

/-- `null`, as `operator==` compares: in any case, and with accents that ICU takes off. -/
def SpellsNull (l : S) : Prop :=
  l.length = 4 ∧ ∀ p ∈ l.zip (W "null"), equal nfdBase p.1 p.2 = true

/-- The parts that the constructors let in. -/
def TakenParts (l d : S) : Prop :=
  (SpellsNull nfdBase l ∧ SpellsNull nfdBase d) ∨ (ValidLocalPart l ∧ ValidDomain d)

/-! ## Constructing from a string -/

/-- The construction is without an exception exactly for the addresses and `null@null`, and
`str ()` gives the string back. -/
def ConstructionAgrees (storage : Email.LocalPart × Email.Domain) (s : S)
    (cq : ContactQualifier) : Prop :=
  ((∃ e, Email.ofString nfdBase storage s cq = .value (.ok e)) ↔
      isValidEmailAddress s = .value true ∨ s = Email.nullEmailStr) ∧
    ∀ e, Email.ofString nfdBase storage s cq = .value (.ok e) → e.str = .value s

/-- An address that is too long for the arrays: they need the room for a NUL, and so does
the one that `str ()` puts the address together in. -/
def NoRoom (s : S) : Prop :=
  ValidAddress s ∧ (64 ≤ s.idxOf (Wc '@') ∨ 255 ≤ s.length)

/-- Parts with the room for them that are let in although the string is neither an address
nor `null@null`: another spelling of `null`, or parts that go on behind a NUL. -/
def Misread (s : S) : Prop :=
  ∃ l d, s = l ++ Wc '@' :: d ∧ Wc '@' ∉ l ∧ l.length < 64 ∧ d.length < 255 ∧
    ((s ≠ Email.nullEmailStr ∧ SpellsNull nfdBase (upToNul l) ∧ SpellsNull nfdBase (upToNul d)) ∨
      (NULL_CHAR ∈ s ∧ ValidLocalPart (upToNul l) ∧ ValidDomain (upToNul d)))

/-! ## Histories -/

/-- A call; `value` is the number of an e-mail. -/
inductive EmailCall where
  | ofParts (lp : Email.LocalPart) (d : Email.Domain) (cq : ContactQualifier)
  | ofString (storage : Email.LocalPart × Email.Domain) (s : S) (cq : ContactQualifier)
  | initializeWith (value : ℕ) (lp : Email.LocalPart) (d : Email.Domain) (cq : ContactQualifier)
  | extract (value : ℕ) (is : InStream)

/-- A constructor or `initialize` on top of `emails`: the exception, if there is one, and the
e-mails after the call. -/
def settle (emails : List Email) (store : Email → List Email) :
    Outcome (Except String Email) → Outcome (Option String × List Email)
  | .value (.ok e) => .value (none, store e)
  | .value (.error message) => .value (some message, emails)
  | .undefined => .undefined
  | .terminated => .terminated

/-- A constructor that throws makes no e-mail; a history names only e-mails that exist. -/
def emailCall (emails : List Email) : EmailCall → Outcome (Option String × List Email)
  | .ofParts lp d cq => settle emails (fun e => emails ++ [e]) (Email.ofParts nfdBase lp d cq)
  | .ofString storage s cq =>
    settle emails (fun e => emails ++ [e]) (Email.ofString nfdBase storage s cq)
  | .initializeWith value lp d cq =>
    if value < emails.length then
      settle emails (fun e => emails.set value e) (Email.initialized nfdBase lp d cq)
    else
      .value (none, emails)
  | .extract value is =>
    match emails[value]? with
    | none => .value (none, emails)
    | some e => do
      match ← e.extract is with
      | (.ok (), e, _) => .value (none, emails.set value e)
      | (.error message, e, _) => .value (some message, emails.set value e)

def emailStep (emails : List Email) (call : EmailCall) : Outcome (List Email) := do
  let (_, emails) ← emailCall nfdBase emails call
  .value emails

end

/-! ## Valid e-mails -/

/-- An e-mail that stands for a valid address, or for parts that `Null` counts as the null
sentinel. -/
def ValidEmail (Null : S → S → Prop) (e : Email) : Prop :=
  ∃ l d, e.mlocalPart.toString? = some l ∧ e.mdomain.toString? = some d ∧
    ((ValidLocalPart l ∧ ValidDomain d) ∨ Null l d)

/-- The null sentinel, to the letter. -/
def ExactNull (l d : S) : Prop := l = W "null" ∧ d = W "null"

/-- The null sentinel, in the sense of `operator==`. -/
def EqualsNull (nfdBase : C → C) (l d : S) : Prop :=
  SpellsNull nfdBase l ∧ SpellsNull nfdBase d

/-- A call that returns leaves valid e-mails; one that throws leaves what there was. -/
def ResultSound (Null : S → S → Prop) (emails : List Email)
    (result : Outcome (Option String × List Email)) : Prop :=
  ∀ thrown after, result = .value (thrown, after) →
    match thrown with
    | none => ∀ e ∈ after, ValidEmail Null e
    | some _ => after = emails

/-- The two parts of a string at its first `@`, when the arrays have the room for them. -/
def PartsOf (s l d : S) : Prop :=
  s = l ++ Wc '@' :: d ∧ Wc '@' ∉ l ∧ l.length < 64 ∧ d.length < 255

/-- Calls of the constructors and `initialize` that are given no other spelling of the null
sentinel than `Null` counts, and extractions of words whose parts are valid, when they have
the room. -/
def GivenValid (nfdBase : C → C) (Null : S → S → Prop) (emails : List Email) : EmailCall → Prop
  | .ofParts lp d _ => ∀ l m, lp.toString? = some l → d.toString? = some m →
      EqualsNull nfdBase l m → Null l m
  | .ofString _ s _ => ∀ l d, PartsOf s l d →
      EqualsNull nfdBase (upToNul l) (upToNul d) → Null (upToNul l) (upToNul d)
  | .initializeWith value lp d _ => value < emails.length →
      ∀ l m, lp.toString? = some l → d.toString? = some m →
        EqualsNull nfdBase l m → Null l m
  | .extract value is => value < emails.length → ∀ l d, PartsOf is.extract.1 l d →
      (ValidLocalPart (upToNul l) ∧ ValidDomain (upToNul d)) ∨ Null (upToNul l) (upToNul d)

end Pensar.Interface
