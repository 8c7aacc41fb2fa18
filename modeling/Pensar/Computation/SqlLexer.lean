import Mathlib.Data.FinEnum
import Mathlib.Data.List.TakeWhile
import Mathlib.Tactic

/-!
# The lexical structure of SQL

A lexer for the texts that programs put together: words, quoted names, string literals,
whole numbers, comparison operators and punctuation.  It follows PostgreSQL with
`standard_conforming_strings` on, where a quote inside a literal is doubled and two literals
with a line break between them are one.  Whatever starts otherwise (comments, the other
operators, numbers and strings) is up to `rules`, and the results hold for all of them.

A text is put together from chunks, and `lex_chunks` reads them back: chunks that do not run
into what follows them lex to their own lexemes.  For literals there is a converse,
`literal_unique`: what stands between two quotes is a literal with itself as its value only
when there is no quote in it.
-/

set_option autoImplicit false

namespace Pensar.Computation.SqlLexer

abbrev Text := List UInt8

/-- The bytes of an ASCII character. -/
def ch (c : Char) : UInt8 := UInt8.ofNat c.toNat

/-- The bytes of an ASCII string. -/
def ascii (s : String) : Text := s.toList.map ch

def QUOTE : UInt8 := ch '\''

def DOUBLE_QUOTE : UInt8 := ch '"'

inductive Token where
  | word (text : Text)
  | name (text : Text)
  | literal (value : Text)
  | number (text : Text)
  | symbol (text : Text)
  | other (text : Text)
  deriving DecidableEq, Repr

/-- A token and the text that it was read from. -/
structure Lexeme where
  text : Text
  token : Token
  deriving DecidableEq, Repr

/-! ## Characters -/

def isNewline (c : UInt8) : Bool := c = 10 || c = 13

/-- Blank, tab, line breaks, vertical tab and form feed. -/
def isBlank (c : UInt8) : Bool := c = 32 || (9 ≤ c && c ≤ 13)

def isDigit (c : UInt8) : Bool := ch '0' ≤ c && c ≤ ch '9'

def isWordStart (c : UInt8) : Bool :=
  (ch 'a' ≤ c && c ≤ ch 'z') || (ch 'A' ≤ c && c ≤ ch 'Z') || c = ch '_' || 128 ≤ c

def isWordChar (c : UInt8) : Bool := isWordStart c || isDigit c || c = ch '$'

def isPunctuation (c : UInt8) : Bool :=
  c = ch '(' || c = ch ')' || c = ch '[' || c = ch ']' || c = ch ',' || c = ch ';'

def isComparison (c : UInt8) : Bool := c = ch '<' || c = ch '>' || c = ch '='

/-- The characters of operators. -/
def isOperator (c : UInt8) : Bool :=
  isComparison c || c = ch '+' || c = ch '-' || c = ch '*' || c = ch '/' || c = ch '~' ||
    c = ch '!' || c = ch '@' || c = ch '#' || c = ch '%' || c = ch '^' || c = ch '&' ||
    c = ch '|' || c = 96 || c = ch '?'

/-! ## Literals -/

/-- Where the text between two literals has got to. -/
inductive Gap where
  | blank
  | dash
  | comment
  deriving DecidableEq, Repr

inductive GapStep where
  | stop
  | reopen
  | goOn (gap : Gap) (newline : Bool)

/-- The text between two literals that are one: blanks and line comments, with a line break. -/
def gapStep (gap : Gap) (newline : Bool) (c : UInt8) : GapStep :=
  match gap with
  | .comment => if isNewline c then .goOn .blank true else .goOn .comment newline
  | .dash => if c = ch '-' then .goOn .comment newline else .stop
  | .blank =>
    if isNewline c then .goOn .blank true
    else if isBlank c then .goOn .blank newline
    else if c = ch '-' then .goOn .dash newline
    else if c = QUOTE && newline then .reopen
    else .stop

/-- In a literal, behind a quote in it, or between it and the next one; `behind` is what
follows the last quote. -/
inductive LiteralState where
  | inside
  | closed
  | between (gap : Gap) (newline : Bool) (behind : Text)

/-- The value of a literal and the text behind it, from behind its first quote; `none` when
it is not closed. -/
def readLiteral : LiteralState → Text → Option (Text × Text)
  | .inside, [] => none
  | .inside, c :: cs =>
    if c = QUOTE then readLiteral .closed cs
    else (readLiteral .inside cs).map fun (value, rest) => (c :: value, rest)
  | .closed, [] => some ([], [])
  | .closed, c :: cs =>
    if c = QUOTE then
      (readLiteral .inside cs).map fun (value, rest) => (QUOTE :: value, rest)
    else
      match gapStep .blank false c with
      | .goOn gap newline => readLiteral (.between gap newline (c :: cs)) cs
      | _ => some ([], c :: cs)
  | .between _ _ behind, [] => some ([], behind)
  | .between gap newline behind, c :: cs =>
    match gapStep gap newline c with
    | .stop => some ([], behind)
    | .reopen => readLiteral .inside cs
    | .goOn gap newline => readLiteral (.between gap newline behind) cs

/-- A text that does not go on with the literal in front of it. -/
def Closes (rest : Text) : Prop := readLiteral .closed rest = some ([], rest)

/-- The body of a literal with the given value: its quotes are doubled. -/
def doubleQuotes (value : Text) : Text :=
  value.flatMap fun c => if c = QUOTE then [QUOTE, QUOTE] else [c]

theorem doubleQuotes_eq_self {value : Text} (h : QUOTE ∉ value) : doubleQuotes value = value := by
  induction value with
  | nil => rfl
  | cons c cs ih =>
    obtain ⟨hc, hcs⟩ : ¬ QUOTE = c ∧ QUOTE ∉ cs := by simpa using h
    have := ih hcs
    simp_all [doubleQuotes, Ne.symm hc]

/-- **Reading back a literal.** -/
theorem readLiteral_doubleQuotes (value : Text) {rest : Text} (h : Closes rest) :
    readLiteral .inside (doubleQuotes value ++ QUOTE :: rest) = some (value, rest) := by
  induction value with
  | nil =>
    rw [Closes] at h
    simpa [doubleQuotes, readLiteral] using h
  | cons c cs ih =>
    by_cases hc : c = QUOTE
    · subst hc
      have hbody : doubleQuotes (QUOTE :: cs) = QUOTE :: QUOTE :: doubleQuotes cs := by
        simp [doubleQuotes]
      rw [hbody]
      simp [readLiteral, ih]
    · have hbody : doubleQuotes (c :: cs) = c :: doubleQuotes cs := by
        simp [doubleQuotes, hc]
      rw [hbody]
      simp [readLiteral, hc, ih]

/-- What a literal that goes on takes up. -/
def TakesUp (text value rest : Text) : Prop :=
  ∃ inner, text = inner ++ QUOTE :: rest ∧ value.length ≤ inner.length

theorem TakesUp.cons {text value rest : Text} (h : TakesUp text value rest) (c : UInt8) :
    TakesUp (c :: text) value rest := by
  obtain ⟨inner, rfl, hlen⟩ := h
  exact ⟨c :: inner, rfl, by rw [List.length_cons]; omega⟩

/-- What a literal takes up, from any place in it. -/
def Reads (text value rest : Text) : LiteralState → Prop
  | .inside => ∃ inner, text = inner ++ QUOTE :: rest ∧ value.length ≤ inner.length ∧
      (value.length = inner.length → value = inner ∧ QUOTE ∉ inner)
  | .closed => (value = [] ∧ rest = text) ∨ TakesUp text value rest
  | .between _ _ behind => (value = [] ∧ rest = behind) ∨ TakesUp text value rest

theorem reads_of_readLiteral {state : LiteralState} {text value rest : Text}
    (h : readLiteral state text = some (value, rest)) : Reads text value rest state := by
  induction text generalizing state value rest with
  | nil =>
    cases state with
    | inside => simp [readLiteral] at h
    | closed =>
      simp only [readLiteral, Option.some.injEq, Prod.mk.injEq] at h
      exact .inl ⟨h.1.symm, h.2.symm⟩
    | between gap newline behind =>
      simp only [readLiteral, Option.some.injEq, Prod.mk.injEq] at h
      exact .inl ⟨h.1.symm, h.2.symm⟩
  | cons c cs ih =>
    cases state with
    | inside =>
      by_cases hc : c = QUOTE
      · subst hc
        simp only [readLiteral, if_true] at h
        rcases ih h with ⟨rfl, rfl⟩ | ⟨inner, rfl, hlen⟩
        · exact ⟨[], rfl, le_refl 0, fun _ => ⟨rfl, by simp⟩⟩
        · refine ⟨QUOTE :: inner, rfl, by rw [List.length_cons]; omega, ?_⟩
          intro heq
          rw [List.length_cons] at heq
          omega
      · simp only [readLiteral, hc, if_false, Option.map_eq_some_iff, Prod.mk.injEq] at h
        obtain ⟨⟨value', rest'⟩, hread, rfl, rfl⟩ := h
        obtain ⟨inner, rfl, hlen, hexact⟩ := ih hread
        refine ⟨c :: inner, rfl, by simp only [List.length_cons]; omega, ?_⟩
        intro heq
        simp only [List.length_cons, Nat.add_right_cancel_iff] at heq
        obtain ⟨rfl, hfree⟩ := hexact heq
        exact ⟨rfl, by simp [hfree, Ne.symm hc]⟩
    | closed =>
      by_cases hc : c = QUOTE
      · subst hc
        simp only [readLiteral, if_true, Option.map_eq_some_iff, Prod.mk.injEq] at h
        obtain ⟨⟨value', rest'⟩, hread, rfl, rfl⟩ := h
        obtain ⟨inner, rfl, hlen, -⟩ := ih hread
        exact .inr ⟨QUOTE :: inner, rfl, by simp only [List.length_cons]; omega⟩
      · simp only [readLiteral, hc, if_false] at h
        split at h
        · rcases ih h with ⟨rfl, rfl⟩ | htakes
          · exact .inl ⟨rfl, rfl⟩
          · exact .inr (htakes.cons c)
        · simp only [Option.some.injEq, Prod.mk.injEq] at h
          exact .inl ⟨h.1.symm, h.2.symm⟩
    | between gap newline behind =>
      simp only [readLiteral] at h
      split at h
      · simp only [Option.some.injEq, Prod.mk.injEq] at h
        exact .inl ⟨h.1.symm, h.2.symm⟩
      · obtain ⟨inner, rfl, hlen, -⟩ := ih h
        exact .inr (TakesUp.cons ⟨inner, rfl, hlen⟩ c)
      · rcases ih h with ⟨rfl, rfl⟩ | htakes
        · exact .inl ⟨rfl, rfl⟩
        · exact .inr (htakes.cons c)

/-! ## The lexer -/

/-- The name behind a double quote, in which double quotes are doubled; `closing` says that
the last character was one. -/
def readName (closing : Bool) : Text → Option (Text × Text)
  | [] => if closing then some ([], []) else none
  | c :: cs =>
    if closing then
      if c = DOUBLE_QUOTE then
        (readName false cs).map fun (name, rest) => (DOUBLE_QUOTE :: name, rest)
      else
        some ([], c :: cs)
    else if c = DOUBLE_QUOTE then
      readName true cs
    else
      (readName false cs).map fun (name, rest) => (c :: name, rest)

/-- The tokens and comments that start in another way: the token, if it is one, and the
number of characters that it takes up behind its first. -/
abbrev Rules := UInt8 → Text → Option (Option Token × ℕ)

/-- The first letter of a string of another kind, such as `E'...'` or `U&"..."`. -/
def isPrefix (c : UInt8) : Text → Bool
  | d :: e :: _ =>
    (d = QUOTE && (ascii "eEbBxXnN").contains c) ||
      ((ascii "uU").contains c && d = ch '&' && (e = QUOTE || e = DOUBLE_QUOTE))
  | [d] => d = QUOTE && (ascii "eEbBxXnN").contains c
  | [] => false

def headIs (p : UInt8 → Bool) : Text → Bool
  | [] => false
  | c :: _ => p c

variable (rules : Rules)

/-- One token or blank: the token and the number of characters behind `c`. -/
def scan (c : UInt8) (cs : Text) : Option (Option Token × ℕ) :=
  if isBlank c then
    some (none, 0)
  else if c = QUOTE then
    (readLiteral .inside cs).map fun (value, rest) =>
      (some (.literal value), cs.length - rest.length)
  else if c = DOUBLE_QUOTE then
    match readName false cs with
    | none => none
    | some ([], _) => none
    | some (name, rest) => some (some (.name name), cs.length - rest.length)
  else if isWordStart c && !isPrefix c cs then
    let run := cs.takeWhile isWordChar
    some (some (.word (c :: run)), run.length)
  else if isDigit c && !headIs (fun d => isWordChar d || d = ch '.') (cs.dropWhile isDigit) then
    let run := cs.takeWhile isDigit
    some (some (.number (c :: run)), run.length)
  else if c = ch ':' && headIs (· = ch ':') cs then
    some (some (.symbol (ascii "::")), 1)
  else if isPunctuation c then
    some (some (.symbol [c]), 0)
  else if isComparison c && (cs.takeWhile isOperator).all isComparison then
    let run := cs.takeWhile isOperator
    some (some (.symbol (c :: run)), run.length)
  else
    rules c cs

/-- The lexemes of a text; `none` when a token of it is not closed. -/
def lex : Text → Option (List Lexeme)
  | [] => some []
  | c :: cs =>
    match scan rules c cs with
    | none => none
    | some (token, n) =>
      (lex (cs.drop n)).map fun lexemes =>
        match token with
        | none => lexemes
        | some token => ⟨c :: cs.take n, token⟩ :: lexemes
termination_by text => text.length
decreasing_by
  simp only [List.length_drop, List.length_cons]
  omega

theorem lex_nil : lex rules [] = some [] := by
  rw [lex]

theorem lex_skip {c : UInt8} {cs : Text} (h : scan rules c cs = some (none, 0)) :
    lex rules (c :: cs) = lex rules cs := by
  rw [lex, h]
  simp

theorem lex_token {c : UInt8} (run : Text) {rest : Text} {token : Token}
    (h : scan rules c (run ++ rest) = some (some token, run.length)) :
    lex rules (c :: run ++ rest) =
      (lex rules rest).map fun lexemes => ⟨c :: run, token⟩ :: lexemes := by
  rw [List.cons_append, lex, h]
  simp

/-! ## Chunks -/

/-- A piece of a text. -/
inductive Chunk where
  | blank (c : UInt8)
  | punctuation (c : UInt8)
  | cast
  | word (text : Text)
  | number (text : Text)
  | comparison (text : Text)
  | name (text : Text)
  | literal (value : Text)

def literalText (value : Text) : Text := QUOTE :: (doubleQuotes value ++ [QUOTE])

namespace Chunk

def text : Chunk → Text
  | blank c => [c]
  | punctuation c => [c]
  | cast => ascii "::"
  | word text => text
  | number text => text
  | comparison text => text
  | name text => DOUBLE_QUOTE :: (text ++ [DOUBLE_QUOTE])
  | literal value => literalText value

def lexemes : Chunk → List Lexeme
  | blank _ => []
  | punctuation c => [⟨[c], .symbol [c]⟩]
  | cast => [⟨ascii "::", .symbol (ascii "::")⟩]
  | word text => [⟨text, .word text⟩]
  | number text => [⟨text, .number text⟩]
  | comparison text => [⟨text, .symbol text⟩]
  | name text => [⟨DOUBLE_QUOTE :: (text ++ [DOUBLE_QUOTE]), .name text⟩]
  | literal value => [⟨literalText value, .literal value⟩]

/-- A text in front of which a literal is closed, as far as its first two characters tell. -/
def closesAt : Text → Bool
  | [] => true
  | [c] => c ≠ QUOTE
  | c :: d :: _ =>
    c ≠ QUOTE && ((!isBlank c && c ≠ ch '-') || (c = 32 && !isBlank d && d ≠ ch '-'))

/-- The chunk is one token or blank, and does not run into `rest`. -/
def fits (rest : Text) : Chunk → Bool
  | blank c => isBlank c
  | punctuation c => isPunctuation c
  | cast => true
  | word [] => false
  | word (c :: cs) => isWordStart c && cs.all isWordChar &&
      !headIs (fun d => isWordChar d || d = QUOTE || d = ch '&') rest
  | number [] => false
  | number (c :: cs) => isDigit c && cs.all isDigit &&
      !headIs (fun d => isWordChar d || d = ch '.') rest
  | comparison [] => false
  | comparison (c :: cs) => isComparison c && cs.all isComparison && !headIs isOperator rest
  | name text => !text.isEmpty && !text.contains DOUBLE_QUOTE && !headIs (· = DOUBLE_QUOTE) rest
  | literal _ => closesAt rest

end Chunk

def textOf (chunks : List Chunk) : Text := chunks.flatMap Chunk.text

def lexemesOf (chunks : List Chunk) : List Lexeme := chunks.flatMap Chunk.lexemes

/-- No chunk runs into what follows it. -/
def fitAll (rest : Text) : List Chunk → Bool
  | [] => true
  | chunk :: chunks => chunk.fits (textOf chunks ++ rest) && fitAll rest chunks

/-! ## Reading the chunks back -/

section Scan

variable {c : UInt8} {cs rest : Text}

theorem wordStart_not (h : isWordStart c = true) :
    isBlank c = false ∧ c ≠ QUOTE ∧ c ≠ DOUBLE_QUOTE := by
  revert c
  decide +kernel

theorem digit_not (h : isDigit c = true) :
    isBlank c = false ∧ c ≠ QUOTE ∧ c ≠ DOUBLE_QUOTE ∧ isWordStart c = false := by
  revert c
  decide +kernel

theorem punctuation_not (h : isPunctuation c = true) :
    isBlank c = false ∧ c ≠ QUOTE ∧ c ≠ DOUBLE_QUOTE ∧ isWordStart c = false ∧
      isDigit c = false ∧ c ≠ ch ':' := by
  revert c
  decide +kernel

theorem comparison_not (h : isComparison c = true) :
    isBlank c = false ∧ c ≠ QUOTE ∧ c ≠ DOUBLE_QUOTE ∧ isWordStart c = false ∧
      isDigit c = false ∧ c ≠ ch ':' ∧ isPunctuation c = false := by
  revert c
  decide +kernel

theorem comparison_isOperator (h : isComparison c = true) : isOperator c = true := by
  simp [isOperator, h]

/-- A run of `p` ends where the rest does not go on with it. -/
theorem takeWhile_run {p : UInt8 → Bool} (hcs : cs.all p = true) (hrest : headIs p rest = false) :
    (cs ++ rest).takeWhile p = cs ∧ (cs ++ rest).dropWhile p = rest := by
  have hall : ∀ c ∈ cs, p c = true := List.all_eq_true.mp hcs
  rw [List.takeWhile_append_of_pos hall, List.dropWhile_append_of_pos hall]
  cases rest with
  | nil => simp
  | cons d ds =>
    have hd : p d = false := hrest
    simp [hd]

/-- A word that is not followed by a quote starts no string. -/
theorem isPrefix_eq_false (hword : cs.all isWordChar = true)
    (hrest : headIs (fun d => isWordChar d || d = QUOTE || d = ch '&') rest = false) :
    isPrefix c (cs ++ rest) = false := by
  have hchar : ∀ d, isWordChar d = true → d ≠ QUOTE ∧ d ≠ ch '&' := by decide +kernel
  have hhead : ∀ d ds, cs ++ rest = d :: ds → d ≠ QUOTE ∧ d ≠ ch '&' := by
    intro d ds h
    cases cs with
    | nil =>
      rw [List.nil_append] at h
      rw [h] at hrest
      simp only [headIs, Bool.or_eq_false_iff, decide_eq_false_iff_not] at hrest
      exact ⟨hrest.1.2, hrest.2⟩
    | cons e es =>
      obtain ⟨rfl, -⟩ := List.cons.inj h
      rw [List.all_cons, Bool.and_eq_true] at hword
      exact hchar e hword.1
  match htext : cs ++ rest with
  | [] => rfl
  | [d] =>
    obtain ⟨hquote, -⟩ := hhead d _ htext
    simp [isPrefix, hquote]
  | d :: e :: ds =>
    obtain ⟨hquote, hand⟩ := hhead d _ htext
    simp [isPrefix, hquote, hand]

theorem scan_word (hc : isWordStart c = true) (hcs : cs.all isWordChar = true)
    (hrest : headIs (fun d => isWordChar d || d = QUOTE || d = ch '&') rest = false) :
    scan rules c (cs ++ rest) = some (some (.word (c :: cs)), cs.length) := by
  obtain ⟨hblank, hquote, hdouble⟩ := wordStart_not hc
  have hend : headIs isWordChar rest = false := by
    cases rest with
    | nil => rfl
    | cons d ds =>
      simp only [headIs, Bool.or_eq_false_iff] at hrest ⊢
      exact hrest.1.1
  simp [scan, hblank, hquote, hdouble, hc, isPrefix_eq_false hcs hrest, (takeWhile_run hcs hend).1]

theorem scan_number (hc : isDigit c = true) (hcs : cs.all isDigit = true)
    (hrest : headIs (fun d => isWordChar d || d = ch '.') rest = false) :
    scan rules c (cs ++ rest) = some (some (.number (c :: cs)), cs.length) := by
  obtain ⟨hblank, hquote, hdouble, hword⟩ := digit_not hc
  have hend : headIs isDigit rest = false := by
    cases rest with
    | nil => rfl
    | cons d ds =>
      simp only [headIs, isWordChar, Bool.or_eq_false_iff] at hrest ⊢
      exact hrest.1.1.2
  obtain ⟨htake, hdrop⟩ := takeWhile_run hcs hend
  simp [scan, hblank, hquote, hdouble, hword, hc, htake, hdrop, hrest]

theorem scan_comparison (hc : isComparison c = true) (hcs : cs.all isComparison = true)
    (hrest : headIs isOperator rest = false) :
    scan rules c (cs ++ rest) = some (some (.symbol (c :: cs)), cs.length) := by
  obtain ⟨hblank, hquote, hdouble, hword, hdigit, hcolon, hpunctuation⟩ := comparison_not hc
  have hoperators : cs.all isOperator = true := by
    rw [List.all_eq_true] at hcs ⊢
    intro d hd
    exact comparison_isOperator (hcs d hd)
  have htake := (takeWhile_run hoperators hrest).1
  simp [scan, hblank, hquote, hdouble, hword, hdigit, hcolon, hpunctuation, hc, htake, hcs]

theorem readName_run {name : Text} (hname : DOUBLE_QUOTE ∉ name)
    (hrest : headIs (· = DOUBLE_QUOTE) rest = false) :
    readName false (name ++ DOUBLE_QUOTE :: rest) = some (name, rest) := by
  induction name with
  | nil =>
    cases rest with
    | nil => simp [readName]
    | cons d ds =>
      have hd : d ≠ DOUBLE_QUOTE := by simpa [headIs] using hrest
      simp [readName, hd]
  | cons c cs ih =>
    obtain ⟨hc, hcs⟩ : ¬ DOUBLE_QUOTE = c ∧ DOUBLE_QUOTE ∉ cs := by simpa using hname
    simp [readName, Ne.symm hc, ih hcs]

theorem scan_name {name : Text} (hne : name ≠ []) (hname : DOUBLE_QUOTE ∉ name)
    (hrest : headIs (· = DOUBLE_QUOTE) rest = false) :
    scan rules DOUBLE_QUOTE (name ++ DOUBLE_QUOTE :: rest) =
      some (some (.name name), name.length + 1) := by
  have hblank : isBlank DOUBLE_QUOTE = false := rfl
  have hquote : DOUBLE_QUOTE ≠ QUOTE := by decide
  simp only [scan, hblank, hquote, Bool.false_eq_true, if_false, if_true,
    readName_run hname hrest]
  cases name with
  | nil => exact absurd rfl hne
  | cons d ds =>
    simp
    omega

theorem scan_literal {text value : Text} (h : readLiteral .inside text = some (value, rest)) :
    scan rules QUOTE text = some (some (.literal value), text.length - rest.length) := by
  have hblank : isBlank QUOTE = false := rfl
  simp [scan, hblank, h]

end Scan

theorem closes_of_closesAt {rest : Text} (h : Chunk.closesAt rest = true) : Closes rest := by
  unfold Closes
  match rest with
  | [] => rfl
  | [c] =>
    have hc : c ≠ QUOTE := by simpa [Chunk.closesAt] using h
    simp only [readLiteral, hc, if_false]
    split <;> rfl
  | c :: d :: rest =>
    simp only [Chunk.closesAt, Bool.and_eq_true, Bool.or_eq_true, decide_eq_true_eq,
      Bool.not_eq_true'] at h
    obtain ⟨hc, ⟨hblank, hdash⟩ | ⟨⟨rfl, hblank⟩, hdash⟩⟩ := h
    · have hline : isNewline c = false := by
        revert hblank
        revert c
        decide +kernel
      simp [readLiteral, gapStep, hc, hblank, hdash, hline]
    · have hline : isNewline d = false := by
        revert hblank
        revert d
        decide +kernel
      have hspace : gapStep .blank false 32 = .goOn .blank false := rfl
      simp only [readLiteral, hc, hspace, if_false]
      simp [gapStep, hblank, hdash, hline]

/-- **One chunk** is read as its own lexemes. -/
theorem lex_chunk (chunk : Chunk) {rest : Text} (h : chunk.fits rest = true) :
    lex rules (chunk.text ++ rest) = (lex rules rest).map (chunk.lexemes ++ ·) := by
  cases chunk with
  | blank c =>
    have hc : isBlank c = true := h
    have hscan : scan rules c rest = some (none, 0) := by simp [scan, hc]
    show lex rules (c :: rest) = _
    rw [lex_skip rules hscan]
    simp [Chunk.lexemes]
  | punctuation c =>
    have hc : isPunctuation c = true := h
    obtain ⟨hblank, hquote, hdouble, hword, hdigit, hcolon⟩ := punctuation_not hc
    apply lex_token rules []
    simp [scan, hblank, hquote, hdouble, hword, hdigit, hcolon, hc]
  | cast =>
    apply lex_token rules [ch ':']
    rfl
  | word text =>
    cases text with
    | nil => exact absurd h (by simp [Chunk.fits])
    | cons c cs =>
      simp only [Chunk.fits, Bool.and_eq_true, Bool.not_eq_true'] at h
      exact lex_token rules _ (scan_word rules h.1.1 h.1.2 h.2)
  | number text =>
    cases text with
    | nil => exact absurd h (by simp [Chunk.fits])
    | cons c cs =>
      simp only [Chunk.fits, Bool.and_eq_true, Bool.not_eq_true'] at h
      exact lex_token rules _ (scan_number rules h.1.1 h.1.2 h.2)
  | comparison text =>
    cases text with
    | nil => exact absurd h (by simp [Chunk.fits])
    | cons c cs =>
      simp only [Chunk.fits, Bool.and_eq_true, Bool.not_eq_true'] at h
      exact lex_token rules _ (scan_comparison rules h.1.1 h.1.2 h.2)
  | name text =>
    simp only [Chunk.fits, Bool.and_eq_true, Bool.not_eq_true', List.isEmpty_eq_false_iff,
      List.contains_eq_mem, decide_eq_false_iff_not] at h
    apply lex_token rules
    rw [List.append_assoc, List.singleton_append, List.length_append, List.length_singleton]
    exact scan_name rules h.1.1 h.1.2 h.2
  | literal value =>
    apply lex_token rules
    have hread := readLiteral_doubleQuotes value (closes_of_closesAt h)
    rw [List.append_assoc, List.singleton_append, scan_literal rules hread]
    simp
    omega

/-- **Chunks are read back.** -/
theorem lex_chunks {chunks : List Chunk} {rest : Text} (h : fitAll rest chunks = true) :
    lex rules (textOf chunks ++ rest) = (lex rules rest).map (lexemesOf chunks ++ ·) := by
  induction chunks with
  | nil => simp [textOf, lexemesOf]
  | cons chunk chunks ih =>
    rw [fitAll, Bool.and_eq_true] at h
    have htext : textOf (chunk :: chunks) ++ rest = chunk.text ++ (textOf chunks ++ rest) := by
      simp [textOf]
    rw [htext, lex_chunk rules _ h.1, ih h.2, Option.map_map]
    congr 1
    funext lexemes
    simp [lexemesOf]

/-- The whole text is chunks. -/
theorem lex_textOf {chunks : List Chunk} (h : fitAll [] chunks = true) :
    lex rules (textOf chunks) = some (lexemesOf chunks) := by
  have hlex := lex_chunks rules h
  rw [List.append_nil, lex_nil] at hlex
  simpa using hlex

/-- **A text between quotes that is read as a literal with itself as the value** has no quote
in it. -/
theorem literal_unique {value rest : Text} {lexemes : List Lexeme}
    (h : lex rules (QUOTE :: (value ++ QUOTE :: rest)) =
      some (⟨QUOTE :: (value ++ [QUOTE]), .literal value⟩ :: lexemes)) :
    QUOTE ∉ value ∧ lex rules rest = some lexemes := by
  set text := value ++ QUOTE :: rest with htext
  rw [lex] at h
  cases hread : readLiteral .inside text with
  | none =>
    have hscan : scan rules QUOTE text = none := by
      have hblank : isBlank QUOTE = false := rfl
      simp [scan, hblank, hread]
    simp [hscan] at h
  | some result =>
    obtain ⟨value', rest'⟩ := result
    obtain ⟨inner, hinner, -, hexact⟩ := reads_of_readLiteral hread
    have hn : text.length - rest'.length = inner.length + 1 := by
      rw [hinner, List.length_append, List.length_cons]
      omega
    have htake : text.take (inner.length + 1) = inner ++ [QUOTE] := by
      rw [hinner, List.take_length_add_append]
      rfl
    have hdrop : text.drop (inner.length + 1) = rest' := by
      rw [hinner, List.drop_length_add_append]
      rfl
    simp only [scan_literal rules hread, hn, htake, hdrop, Option.map_eq_some_iff,
      List.cons.injEq, Lexeme.mk.injEq, true_and, Token.literal.injEq] at h
    obtain ⟨lexemes', hrest, ⟨hraw, rfl⟩, rfl⟩ := h
    obtain rfl : inner = value' := List.append_cancel_right hraw
    obtain ⟨-, rfl⟩ := List.cons.inj (List.append_cancel_left (htext.symm.trans hinner))
    exact ⟨(hexact rfl).2, hrest⟩

/-- A lexeme is made of characters of the text. -/
theorem mem_of_mem_lexeme {text : Text} {lexemes : List Lexeme} (h : lex rules text = some lexemes)
    {l : Lexeme} (hl : l ∈ lexemes) {c : UInt8} (hc : c ∈ l.text) : c ∈ text := by
  obtain ⟨n, hn⟩ : ∃ n, n = text.length := ⟨_, rfl⟩
  induction n using Nat.strong_induction_on generalizing text lexemes with
  | _ n ih =>
    cases text with
    | nil =>
      rw [lex_nil] at h
      cases h
      cases hl
    | cons d ds =>
      rw [lex] at h
      split at h
      · cases h
      · next token k hscan =>
        obtain ⟨rest, hrest, rfl⟩ := Option.map_eq_some_iff.mp h
        have hlen : (ds.drop k).length < n := by
          rw [hn, List.length_drop, List.length_cons]
          omega
        have hbehind : l ∈ rest → c ∈ d :: ds := fun hmem =>
          List.mem_cons_of_mem d (List.mem_of_mem_drop (ih _ hlen hrest hmem rfl))
        cases token with
        | none => exact hbehind hl
        | some token =>
          rcases List.mem_cons.mp hl with rfl | hmem
          · rcases List.mem_cons.mp hc with rfl | hrun
            · exact List.mem_cons_self
            · exact List.mem_cons_of_mem d (List.mem_of_mem_take hrun)
          · exact hbehind hmem

end Pensar.Computation.SqlLexer
