import Pensar.Computation.Search
import Pensar.Model.CSComparison
import Pensar.Model.Person

/-!
# E-mail addresses (`contact/e-mail.hpp`)

The validators read a string by index; an index out of range is outside the defined
behaviour.  `Email` stores the two parts of an address in fixed strings, and takes either an
address that the validators accept or the null address, which it recognises with the
comparison of fixed strings.
-/

set_option autoImplicit false

namespace Pensar.Model

open Pensar.Computation

/-- `s[i]`.  The element at `size ()` is not counted as one. -/
def charAt (s : S) (i : ℕ) : Outcome C :=
  match s[i]? with
  | some ch => .value ch
  | none => .undefined

/-- `s.substr (pos)`; a position past the end, where it throws, counts as an index out of
range. -/
def substr (s : S) (pos : ℕ) : Outcome S :=
  if pos ≤ s.length then .value (s.drop pos) else .undefined

/-! ## The validators -/

def isLetter (ch : C) : Bool :=
  (Wc 'a' ≤ ch && ch ≤ Wc 'z') || (Wc 'A' ≤ ch && ch ≤ Wc 'Z')

def isDigit (ch : C) : Bool := Wc '0' ≤ ch && ch ≤ Wc '9'

/-- The loop of `is_valid_local_part`.
SOURCE: contact/e-mail.hpp:28-46 -/
def localPartLoop : S → (prevDot : Bool) → Bool
  | [], _ => true
  | ch :: rest, prevDot =>
    if ch = Wc '.' then
      if prevDot then false else localPartLoop rest true
    else if isLetter ch || isDigit ch || ch = Wc '_' || ch = Wc '-' || ch = Wc '+' then
      localPartLoop rest false
    else
      false

/-- SOURCE: contact/e-mail.hpp:23-47 -/
def isValidLocalPart (lp : S) : Outcome Bool :=
  if lp.isEmpty || lp.length > 64 then
    .value false
  else do
    if (← charAt lp 0) = Wc '.' then
      .value false
    else if (← charAt lp (lp.length - 1)) = Wc '.' then
      .value false
    else
      .value (localPartLoop lp false)

/-- The inner loop of `is_valid_domain`, from `i` over `n` characters.
SOURCE: contact/e-mail.hpp:65-74 -/
def labelChars (domain : S) (i : ℕ) : (n : ℕ) → Outcome Bool
  | 0 => .value true
  | n + 1 => do
    let ch ← charAt domain i
    if isLetter ch || isDigit ch || ch = Wc '-' then
      labelChars domain (i + 1) n
    else
      .value false

/-- One label, of `len` characters from `start` up to `dot`.
SOURCE: contact/e-mail.hpp:61-74 -/
def isValidLabel (domain : S) (start dot : ℕ) : Outcome Bool :=
  let len := dot - start
  if len = 0 || len > 63 then
    .value false
  else do
    if (← charAt domain start) = Wc '-' then
      .value false
    else if (← charAt domain (dot - 1)) = Wc '-' then
      .value false
    else
      labelChars domain start len

/-- The end of the label that starts at `start`.
SOURCE: contact/e-mail.hpp:59-60 -/
def labelEnd (domain : S) (start : ℕ) : ℕ :=
  match findFrom domain (Wc '.') start with
  | some dot => dot
  | none => domain.length

theorem le_labelEnd {domain : S} {start : ℕ} (h : start ≤ domain.length) :
    start ≤ labelEnd domain start := by
  unfold labelEnd
  split
  · next hdot => exact le_of_findFrom hdot
  · exact h

/-- The loop over the labels: `none` when it returns false, or else the number of labels.
It ends because the next label starts behind this one.
SOURCE: contact/e-mail.hpp:57-77 -/
def labelLoop (domain : S) (start labelCount : ℕ) : Outcome (Option ℕ) :=
  if hstart : start ≤ domain.length then do
    let dot := labelEnd domain start
    if ← isValidLabel domain start dot then
      labelLoop domain (dot + 1) (labelCount + 1)
    else
      .value none
  else
    .value (some labelCount)
termination_by domain.length + 1 - start
decreasing_by
  have := le_labelEnd hstart
  omega

/-- SOURCE: contact/e-mail.hpp:51-89 -/
def isValidDomain (domain : S) : Outcome Bool :=
  if domain.isEmpty || domain.length > 255 then
    .value false
  else do
    match ← labelLoop domain 0 0 with
    | none => .value false
    | some labelCount =>
      if labelCount < 2 then
        .value false
      else
        -- `npos + 1` is 0
        let first := match rfind domain (Wc '.') with
          | some lastDot => lastDot + 1
          | none => 0
        let tld ← substr domain first
        if tld.length < 2 then .value false else .value (tld.all isLetter)

/-- SOURCE: contact/e-mail.hpp:92-101 -/
def isValidEmailAddress (emailAddress : S) : Outcome Bool :=
  if emailAddress.isEmpty then
    .value false
  else
    match findFrom emailAddress (Wc '@') 0 with
    | none => .value false
    | some at_ =>
      if at_ = 0 || at_ = emailAddress.length - 1 then
        .value false
      else if (findFrom emailAddress (Wc '@') (at_ + 1)).isSome then
        .value false
      else do
        if ← isValidLocalPart (emailAddress.take at_) then
          isValidDomain (← substr emailAddress (at_ + 1))
        else
          .value false

/-! ## struct `Email` -/

namespace Email

/-- SOURCE: contact/e-mail.hpp:105-106 -/
abbrev LocalPart := CS 0 64
abbrev Domain := CS 0 255

/-- SOURCE: contact/e-mail.hpp:110-111 -/
def NULL_LOCAL_PART : LocalPart := CS.ofS (W "null") (by decide)
def NULL_DOMAIN : Domain := CS.ofS (W "null") (by decide)

/-- SOURCE: contact/e-mail.hpp:113-116 -/
def nullEmailStr : S := W "null@null"

/-- A value that reading past the end of an array would give. -/
def defined {α : Type} : Option α → Outcome α
  | some a => .value a
  | none => .undefined

section

variable (nfdBase : C → C)

/-- SOURCE: contact/e-mail.hpp:121 -/
def isNull (lp : LocalPart) (d : Domain) : Outcome Bool := do
  if ← defined (lp.eq? nfdBase NULL_LOCAL_PART) then
    defined (d.eq? nfdBase NULL_DOMAIN)
  else
    .value false

/-- `initialize`: the message of the exception, which leaves the object as it was, or the
new value.
SOURCE: contact/e-mail.hpp:118-136 -/
def initialized (lp : LocalPart) (d : Domain) (cq : ContactQualifier) :
    Outcome (Except String Email) := do
  if ← isNull nfdBase lp d then
    .value (.ok ⟨lp, d, cq⟩)
  else if ← isValidLocalPart (← defined lp.toString?) then
    if ← isValidDomain (← defined d.toString?) then
      .value (.ok ⟨lp, d, cq⟩)
    else
      .value (.error "Invalid domain")
  else
    .value (.error "Invalid local part")

/-- `Email (const LocalPart&, const Domain&, ContactQualifier)`.
SOURCE: contact/e-mail.hpp:138-142 -/
def ofParts (lp : LocalPart) (d : Domain) (cq : ContactQualifier) :
    Outcome (Except String Email) :=
  initialized nfdBase lp d cq

/-- `Email (const S&, ContactQualifier)`; the two parts are converted to fixed strings first,
in memory that holds anything.
SOURCE: contact/e-mail.hpp:144-156 -/
def ofString (storage : LocalPart × Domain) (s : S) (cq : ContactQualifier) :
    Outcome (Except String Email) :=
  match findFrom s (Wc '@') 0 with
  | none => .value (.error "Invalid email address")
  | some at_ => do
    let rest ← substr s (at_ + 1)
    -- which of the two is converted first is unspecified
    match storage.1.ofString (s.take at_), storage.2.ofString rest with
    | .ok lp, .ok d => initialized nfdBase lp d cq
    | .error e, _ => .value (.error e)
    | .ok _, .error e => .value (.error e)

end

/-- `operator+ (const S&, const CS<0, N>&)`.
SOURCE: cpp/src/cs.hpp:478-489 -/
def concat {N : ℕ} (lhs : S) (rhs : CS 0 N) : Outcome (Except String (CS 0 (N + 1))) :=
  match rhs.length? with
  | none => .undefined
  | some n =>
    let minSize := lhs.length + n + 1
    if hsize : N < minSize then
      .value (.error ("CS<N> operator+ (const std::basic_string<Char>& lhs, const CS<N>& rhs) - " ++
        "rhs must be of size > " ++ toString minSize))
    else
      let result := memcpyAt (CS.new : CS 0 (N + 1)).data 0 lhs
      have hresult : result.length = N + 1 := by
        rw [memcpyAt_length (by rw [CS.size_eq]; omega), CS.size_eq]
      .value (.ok ⟨memcpyAt result lhs.length (rhs.data.take n), by
        rw [memcpyAt_length, hresult]
        rw [hresult, List.length_take]
        omega⟩)

/-- `str`, which is `noexcept`.
SOURCE: contact/e-mail.hpp:164-167 -/
def str (self : Email) : Outcome S := do
  let localPart ← defined self.mlocalPart.toString?
  match ← concat (localPart ++ W "@") self.mdomain with
  | .ok result => defined result.toString?
  | .error _ => .terminated

/-- `operator>> (InStream&, Email&)`: the exception, the object and the stream.
SOURCE: contact/e-mail.hpp:207-222 -/
def extract (self : Email) (is : InStream) : Outcome (Except String Unit × Email × InStream) :=
  let (s, is) := is.extract
  match findFrom s (Wc '@') 0 with
  | none => .value (.error "Invalid email address", self, is)
  | some at_ => do
    let mlocalPart ← self.mlocalPart.assignString (s.take at_)
    let mdomain ← self.mdomain.assignString (← substr s (at_ + 1))
    .value (.ok (), { self with mlocalPart, mdomain }, is)

end Email

end Pensar.Model
