import Pensar.Model.Email

/-!
# The grammar of e-mail addresses

What an address is, said of the string as a whole: two parts joined by the only `@`, the
second one labels joined by dots.
-/

set_option autoImplicit false

namespace Pensar.Interface

open Pensar.Model

/-- `[A-Za-z]` -/
def letters : S := W "ABCDEFGHIJKLMNOPQRSTUVWXYZabcdefghijklmnopqrstuvwxyz"

/-- `[0-9]` -/
def digits : S := W "0123456789"

structure ValidLocalPart (l : S) : Prop where
  nonempty : 1 ≤ l.length
  short : l.length ≤ 64
  characters : ∀ c ∈ l, c ∈ letters ++ digits ++ W "_+.-"
  noLeadingDot : l.head? ≠ some (Wc '.')
  noTrailingDot : l.getLast? ≠ some (Wc '.')
  noConsecutiveDots : ¬ W ".." <:+: l

structure ValidLabel (label : S) : Prop where
  nonempty : 1 ≤ label.length
  short : label.length ≤ 63
  characters : ∀ c ∈ label, c ∈ letters ++ digits ++ W "-"
  noLeadingHyphen : label.head? ≠ some (Wc '-')
  noTrailingHyphen : label.getLast? ≠ some (Wc '-')

/-- The last label of a domain. -/
structure TopLevel (label : S) : Prop where
  long : 2 ≤ label.length
  alphabetic : ∀ c ∈ label, c ∈ letters

/-- Labels, at least two, that make a domain. -/
structure DomainLabels (labels : List S) : Prop where
  two : 2 ≤ labels.length
  valid : ∀ label ∈ labels, ValidLabel label
  last : ∃ top, labels.getLast? = some top ∧ TopLevel top

def ValidDomain (d : S) : Prop :=
  d.length ≤ 255 ∧ ∃ labels, d = [Wc '.'].intercalate labels ∧ DomainLabels labels

def ValidAddress (s : S) : Prop :=
  ∃ localPart domain, s = localPart ++ Wc '@' :: domain ∧
    Wc '@' ∉ localPart ∧ Wc '@' ∉ domain ∧ ValidLocalPart localPart ∧ ValidDomain domain

end Pensar.Interface
