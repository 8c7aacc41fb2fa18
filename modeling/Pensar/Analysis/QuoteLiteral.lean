import Pensar.Computation.SqlLexer
import Pensar.Model.DbConnection

/-!
# Quoting a string for a statement

`quote_literal` writes a string as the literal that is read back as the string; whatever is
in it stays in the literal.

Main result: `quote_literal_lexes`.
-/

set_option autoImplicit false

namespace Pensar.Analysis

open Pensar.Computation.SqlLexer
open Pensar.Model

theorem quoteLiteral_eq (s : S) : ScopedSession.quoteLiteral s = literalText s := by
  have hloop : ∀ result : S,
      s.foldl (fun result c => if c = Wc '\'' then result ++ W "''" else result ++ [c]) result =
        result ++ doubleQuotes s := by
    induction s with
    | nil => simp [doubleQuotes]
    | cons c cs ih =>
      intro result
      have hquote : QUOTE = Wc '\'' := rfl
      have hdoubled : W "''" = [QUOTE, QUOTE] := rfl
      rw [List.foldl_cons, ih]
      by_cases hc : c = Wc '\'' <;> simp [doubleQuotes, hc, hquote, hdoubled]
  show s.foldl (fun result c => if c = Wc '\'' then result ++ W "''" else result ++ [c]) (W "'") ++
    W "'" = _
  rw [hloop]
  rfl

theorem sentText_quoteLiteral {s front back : S} (hs : NULL_CHAR ∉ s) (hfront : NULL_CHAR ∉ front)
    (hback : NULL_CHAR ∉ back) :
    sentText (front ++ ScopedSession.quoteLiteral s ++ back) =
      front ++ ScopedSession.quoteLiteral s ++ back := by
  apply upToNul_eq_self
  have hquote : NULL_CHAR ≠ QUOTE := by decide
  have hdoubled : NULL_CHAR ∉ doubleQuotes s := by
    intro h
    obtain ⟨c, hc, hmem⟩ := List.mem_flatMap.mp h
    by_cases hcq : c = QUOTE
    · simp [hcq, hquote] at hmem
    · have : NULL_CHAR = c := by simpa [hcq] using hmem
      exact hs (this ▸ hc)
  simp [quoteLiteral_eq, literalText, hfront, hback, hquote, hdoubled]

/-- The lexemes of `SET "name" = 'value'`. -/
def setLexemes (name value : S) : List Lexeme :=
  [⟨W "SET", .word (W "SET")⟩, ⟨W "\"" ++ name ++ W "\"", .name name⟩, ⟨W "=", .symbol (W "=")⟩,
    ⟨ScopedSession.quoteLiteral value, .literal value⟩]

section Statements

variable (rules : Rules)

/-- A statement that ends with a quoted string, or with punctuation behind it. -/
theorem lex_sent_chunks (chunks : List Chunk) (front back : S) {value : S}
    (hvalue : NULL_CHAR ∉ value) (hfront : NULL_CHAR ∉ front) (hback : NULL_CHAR ∉ back)
    (hfit : fitAll [] chunks = true)
    (htext : textOf chunks = front ++ ScopedSession.quoteLiteral value ++ back) :
    lex rules (sentText (front ++ ScopedSession.quoteLiteral value ++ back)) =
      some (lexemesOf chunks) := by
  rw [sentText_quoteLiteral hvalue hfront hback, ← htext]
  exact lex_textOf rules hfit

theorem lex_quoteLiteral {s : S} (hs : NULL_CHAR ∉ s) :
    lex rules (sentText (ScopedSession.quoteLiteral s)) =
      some [⟨ScopedSession.quoteLiteral s, .literal s⟩] := by
  have hlex := lex_sent_chunks rules [.literal s] [] [] hs
    (by simp) (by simp) rfl (by simp [quoteLiteral_eq, textOf, Chunk.text])
  rw [List.nil_append, List.append_nil] at hlex
  rw [hlex, quoteLiteral_eq]
  rfl

theorem lex_quoteLiteral_semicolon {s : S} (hs : NULL_CHAR ∉ s) :
    lex rules (sentText (ScopedSession.quoteLiteral s ++ W ";")) =
      some [⟨ScopedSession.quoteLiteral s, .literal s⟩, ⟨W ";", .symbol (W ";")⟩] := by
  have hlex := lex_sent_chunks rules [.literal s, .punctuation (ch ';')] [] (W ";") hs
    (by simp) (by decide) rfl
    (by rw [quoteLiteral_eq]; rfl)
  rw [List.nil_append] at hlex
  rw [hlex, quoteLiteral_eq]
  rfl

def setChunks (name value : S) : List Chunk :=
  [.word (W "SET"), .blank 32, .name name, .blank 32, .comparison (W "="), .blank 32,
    .literal value]

/-- `SET`, whatever the value. -/
theorem lex_set {front name value : S} (hvalue : NULL_CHAR ∉ value) (hfront : NULL_CHAR ∉ front)
    (hfit : fitAll [] (setChunks name value) = true)
    (htext : front = W "SET" ++ ([32] ++ ((DOUBLE_QUOTE :: (name ++ [DOUBLE_QUOTE])) ++
      ([32] ++ (W "=" ++ [32]))))) :
    lex rules (sentText (front ++ ScopedSession.quoteLiteral value)) =
      some (setLexemes name value) := by
  have hlex := lex_sent_chunks rules _ front [] hvalue hfront (by simp) hfit
    (by simp [htext, quoteLiteral_eq, setChunks, textOf, Chunk.text])
  rw [List.append_nil] at hlex
  rw [hlex, setLexemes, quoteLiteral_eq]
  rfl

/-- **Main result.**  A quoted string at the end of a statement is one literal, of its whole
text and with the string as the value, and the statements of a session are read with the
user name and the locale as the only things that vary. -/
theorem quote_literal_lexes (s username locale : S) (hs : NULL_CHAR ∉ s)
    (husername : NULL_CHAR ∉ username) (hlocale : NULL_CHAR ∉ locale) :
    lex rules (sentText (ScopedSession.quoteLiteral s)) =
        some [⟨ScopedSession.quoteLiteral s, .literal s⟩] ∧
      lex rules (sentText (ScopedSession.quoteLiteral s ++ W ";")) =
        some [⟨ScopedSession.quoteLiteral s, .literal s⟩, ⟨W ";", .symbol (W ";")⟩] ∧
      (ScopedSession.openingStatements username locale).map (fun q => lex rules (sentText q)) =
        (if username.isEmpty then [] else [some (setLexemes (W "app.current_user") username)]) ++
          (if locale.isEmpty then [] else [some (setLexemes (W "app.locale") locale)]) := by
  refine ⟨lex_quoteLiteral rules hs, lex_quoteLiteral_semicolon rules hs, ?_⟩
  have huser : lex rules (sentText (ScopedSession.setCurrentUser username)) =
      some (setLexemes (W "app.current_user") username) :=
    lex_set rules husername (by decide) rfl rfl
  have hlang : lex rules (sentText (ScopedSession.setLocale locale)) =
      some (setLexemes (W "app.locale") locale) :=
    lex_set rules hlocale (by decide) rfl rfl
  unfold ScopedSession.openingStatements
  cases username.isEmpty <;> cases locale.isEmpty <;> simp [huser, hlang]

/-- A string of quotes and of a statement that it does not become. -/
theorem quote_literal_lexes_quotes :
    let s := W "'';RESET ALL--'"
    lex (fun _ _ => none) (sentText (ScopedSession.quoteLiteral s)) =
        some [⟨ScopedSession.quoteLiteral s, .literal s⟩] ∧
      lex (fun _ _ => none) (sentText (ScopedSession.quoteLiteral s ++ W ";")) =
        some [⟨ScopedSession.quoteLiteral s, .literal s⟩, ⟨W ";", .symbol (W ";")⟩] ∧
      (ScopedSession.openingStatements s (W "pt-BR")).map
          (fun q => lex (fun _ _ => none) (sentText q)) =
        (if s.isEmpty then [] else [some (setLexemes (W "app.current_user") s)]) ++
          (if (W "pt-BR").isEmpty then [] else [some (setLexemes (W "app.locale") (W "pt-BR"))]) :=
  quote_literal_lexes (fun _ _ => none) _ _ _ (by decide) (by decide) (by decide)

end Statements

end Pensar.Analysis
