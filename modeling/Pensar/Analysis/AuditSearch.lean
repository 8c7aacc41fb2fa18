import Pensar.Analysis.QuoteLiteral
import Pensar.Model.AuditDAO

/-!
# The filters of an audit search in its statement

Each filter that is not empty is to be one literal of the statement.  The statement is read
in pieces: the chunks around the filters are always the same, and a filter between its two
quotes is a literal with itself as the value only when there is no quote in it.

Main result: `filters_are_data_iff`.
-/

set_option autoImplicit false

namespace Pensar.Analysis

open Pensar.Computation.SqlLexer
open Pensar.Model

/-! ## What the statement is meant to be read as -/

/-- One condition of the statement, on a column. -/
structure Clause where
  column : S
  comparison : S
  value : S
  timestamp : Bool
  deriving DecidableEq

namespace Clause

def front (clause : Clause) : List Chunk :=
  [.blank 32, .word (W "AND"), .blank 32, .word clause.column, .blank 32,
    .comparison clause.comparison, .blank 32]

def back (clause : Clause) : List Chunk :=
  if clause.timestamp then [.cast, .word (W "timestamptz")] else []

def text (clause : Clause) : S :=
  textOf clause.front ++ (QUOTE :: (clause.value ++ QUOTE :: textOf clause.back))

/-- The filter is one literal, of its whole text and with itself as the value. -/
def lexemes (clause : Clause) : List Lexeme :=
  lexemesOf clause.front ++
    ⟨QUOTE :: (clause.value ++ [QUOTE]), .literal clause.value⟩ :: lexemesOf clause.back

end Clause

def clausesOf (filters : AuditDAO.Filters) : List Clause :=
  [⟨W "action", W "=", filters.action, false⟩, ⟨W "action_by", W "=", filters.actionBy, false⟩,
    ⟨W "action_at", W ">=", filters.from_, true⟩, ⟨W "action_at", W "<", filters.to_, true⟩].filter
      fun clause => !clause.value.isEmpty

def selectChunks : List Chunk :=
  [.word (W "SELECT"), .blank 32, .word (W "log_id"), .punctuation (ch ','), .blank 32,
    .word (W "action"), .punctuation (ch ','), .blank 32,
    .word (W "action_by"), .punctuation (ch ','), .blank 32,
    .word (W "action_at"), .cast, .word (W "text"), .punctuation (ch ','), .blank 32,
    .word (W "COALESCE"), .punctuation (ch '('), .word (W "old_data"), .cast, .word (W "text"),
    .punctuation (ch ','), .literal (W "\x7b\x7d"), .punctuation (ch ')'), .punctuation (ch ','),
    .blank 32,
    .word (W "COALESCE"), .punctuation (ch '('), .word (W "new_data"), .cast, .word (W "text"),
    .punctuation (ch ','), .literal (W "\x7b\x7d"), .punctuation (ch ')'), .blank 32,
    .word (W "FROM"), .blank 32]

def whereChunks : List Chunk :=
  [.blank 32, .word (W "WHERE"), .blank 32, .number (W "1"), .comparison (W "="), .number (W "1")]

def orderChunks : List Chunk :=
  [.blank 32, .word (W "ORDER"), .blank 32, .word (W "BY"), .blank 32, .word (W "action_at"),
    .blank 32, .word (W "DESC")]

theorem clause_text (column comparison value : S) (timestamp : Bool) :
    (Clause.mk column comparison value timestamp).text =
      W " AND " ++ column ++ W " " ++ comparison ++ W " '" ++ value ++
        (if timestamp then W "'::timestamptz" else W "'") := by
  have hand : textOf [.blank 32, .word (W "AND"), .blank 32] = W " AND " := by decide
  have hblank : W " " = [32] := rfl
  have hquote : W " '" = [32, QUOTE] := rfl
  have hplain : W "'" = [QUOTE] := rfl
  have hcast : W "'::timestamptz" = QUOTE :: textOf [.cast, .word (W "timestamptz")] := by decide
  cases timestamp <;>
    simp [Clause.text, Clause.front, Clause.back, ← hand, hblank, hquote, hplain, hcast, textOf,
      Chunk.text]

theorem whereClause_eq (filters : AuditDAO.Filters) :
    AuditDAO.whereClause filters =
      W "WHERE 1=1" ++ (clausesOf filters).flatMap Clause.text := by
  have haction : (Clause.mk (W "action") (W "=") filters.action false).text =
      W " AND action = '" ++ filters.action ++ W "'" := clause_text _ _ _ _
  have hactionBy : (Clause.mk (W "action_by") (W "=") filters.actionBy false).text =
      W " AND action_by = '" ++ filters.actionBy ++ W "'" := clause_text _ _ _ _
  have hfrom : (Clause.mk (W "action_at") (W ">=") filters.from_ true).text =
      W " AND action_at >= '" ++ filters.from_ ++ W "'::timestamptz" := clause_text _ _ _ _
  have hto : (Clause.mk (W "action_at") (W "<") filters.to_ true).text =
      W " AND action_at < '" ++ filters.to_ ++ W "'::timestamptz" := clause_text _ _ _ _
  simp only [AuditDAO.whereClause, clausesOf, List.filter_cons, List.filter_nil]
  cases filters.action.isEmpty <;> cases filters.actionBy.isEmpty <;>
    cases filters.from_.isEmpty <;> cases filters.to_.isEmpty <;>
      simp [haction, hactionBy, hfrom, hto]

theorem searchSql_eq (logTable : S) (filters : AuditDAO.Filters) :
    AuditDAO.searchSql logTable filters =
      textOf selectChunks ++ (logTable ++ (textOf whereChunks ++
        ((clausesOf filters).flatMap Clause.text ++ textOf orderChunks))) := by
  have hselect : textOf selectChunks =
      W "SELECT log_id, action, action_by, action_at::text, " ++
        W "COALESCE(old_data::text,'\x7b\x7d'), COALESCE(new_data::text,'\x7b\x7d') " ++
        W "FROM " := by
    decide +kernel
  have hwhere : textOf whereChunks = W " " ++ W "WHERE 1=1" := by decide
  have horder : textOf orderChunks = W " ORDER BY action_at DESC" := by decide
  rw [hselect, hwhere, horder, AuditDAO.searchSql, whereClause_eq]
  simp only [List.append_assoc]

/-! ## The name of the log table -/

/-- A text that the server reads as the same lexemes in front of any blank, as it does the
name of a table. -/
structure LogTable (rules : Rules) where
  text : S
  lexemes : List Lexeme
  nulFree : NULL_CHAR ∉ text
  reads : ∀ rest, headIs isBlank rest = true →
    lex rules (text ++ rest) = (lex rules rest).map (lexemes ++ ·)

/-- A name without double quotes. -/
def LogTable.ofWord (rules : Rules) (c : C) (cs : S)
    (h : isWordStart c = true ∧ cs.all isWordChar = true) (hnul : NULL_CHAR ∉ c :: cs) :
    LogTable rules where
  text := c :: cs
  lexemes := [⟨c :: cs, .word (c :: cs)⟩]
  nulFree := hnul
  reads := by
    intro rest hrest
    apply lex_chunk rules (.word (c :: cs))
    have hblank : ∀ d, isBlank d = true →
        (isWordChar d || d = QUOTE || d = ch '&') = false := by decide +kernel
    cases rest with
    | nil => simp [headIs] at hrest
    | cons d ds => simp [Chunk.fits, h.1, h.2, headIs, hblank d hrest]

section Search

variable (rules : Rules) (table : LogTable rules)

/-- The lexemes that the statement is to have. -/
def searchLexemes (filters : AuditDAO.Filters) : List Lexeme :=
  lexemesOf selectChunks ++ (table.lexemes ++ (lexemesOf whereChunks ++
    ((clausesOf filters).flatMap Clause.lexemes ++ lexemesOf orderChunks)))

/-- Each filter that is not empty is one literal of the statement sent. -/
def FiltersAreData (filters : AuditDAO.Filters) : Prop :=
  lex rules (sentText (AuditDAO.searchSql table.text filters)) =
    some (searchLexemes rules table filters)

/-- No filter has a quote or a NUL in it. -/
def Plain (filters : AuditDAO.Filters) : Prop :=
  ∀ clause ∈ clausesOf filters, QUOTE ∉ clause.value ∧ NULL_CHAR ∉ clause.value

/-! ## Reading the clauses -/

/-- What follows a clause: a blank and a word. -/
def behindClause : Text → Bool
  | c :: d :: _ => c = 32 && isWordStart d
  | _ => false

theorem clauses_behind (clauses : List Clause) :
    behindClause (clauses.flatMap Clause.text ++ textOf orderChunks) = true := by
  cases clauses with
  | nil => rfl
  | cons clause clauses => rfl

theorem clause_fits {filters : AuditDAO.Filters} {clause : Clause}
    (h : clause ∈ clausesOf filters) (rest : Text) :
    fitAll (QUOTE :: rest) clause.front = true := by
  have hmem := List.mem_of_mem_filter h
  simp only [List.mem_cons, List.not_mem_nil, or_false] at hmem
  rcases hmem with rfl | rfl | rfl | rfl <;> rfl

theorem back_fits (clause : Clause) {rest : Text} (h : behindClause rest = true) :
    Chunk.closesAt (textOf clause.back ++ rest) = true ∧ fitAll rest clause.back = true := by
  match rest with
  | [] => cases h
  | [_] => cases h
  | c :: d :: rest =>
    simp only [behindClause, Bool.and_eq_true, decide_eq_true_eq] at h
    obtain ⟨rfl, hd⟩ := h
    cases htimestamp : clause.timestamp with
    | true =>
      simp only [Clause.back, htimestamp, if_true]
      exact ⟨rfl, rfl⟩
    | false =>
      have hclass : ∀ d, isWordStart d = true → isBlank d = false ∧ d ≠ ch '-' := by
        decide +kernel
      obtain ⟨hblank, hdash⟩ := hclass d hd
      have hquote : (32 : UInt8) ≠ QUOTE := by decide
      simp [Clause.back, htimestamp, textOf, fitAll, Chunk.closesAt, hquote, hblank, hdash]

theorem map_append_eq_some_iff {o : Option (List Lexeme)} {front ls : List Lexeme} :
    o.map (front ++ ·) = some (front ++ ls) ↔ o = some ls := by
  cases o <;> simp

/-- One clause in front of the next is read as it should exactly when there is no quote in its
filter. -/
theorem lex_clause_iff {filters : AuditDAO.Filters} {clause : Clause}
    (hclause : clause ∈ clausesOf filters) {rest : Text} (hbehind : behindClause rest = true)
    (lexemes : List Lexeme) :
    lex rules (clause.text ++ rest) = some (clause.lexemes ++ lexemes) ↔
      QUOTE ∉ clause.value ∧ lex rules rest = some lexemes := by
  have htext : clause.text ++ rest = textOf clause.front ++
      (QUOTE :: (clause.value ++ QUOTE :: (textOf clause.back ++ rest))) := by
    simp [Clause.text]
  have hexpected : clause.lexemes ++ lexemes =
      lexemesOf clause.front ++ (⟨QUOTE :: (clause.value ++ [QUOTE]), .literal clause.value⟩ ::
        (lexemesOf clause.back ++ lexemes)) := by
    simp [Clause.lexemes]
  obtain ⟨hcloses, hback⟩ := back_fits clause hbehind
  rw [htext, hexpected, lex_chunks rules (clause_fits hclause _), map_append_eq_some_iff]
  constructor
  · intro h
    obtain ⟨hfree, hrest⟩ := literal_unique rules h
    rw [lex_chunks rules hback, map_append_eq_some_iff] at hrest
    exact ⟨hfree, hrest⟩
  · rintro ⟨hfree, hrest⟩
    have hliteral := lex_chunk rules (.literal clause.value) hcloses
    have hraw : literalText clause.value = QUOTE :: (clause.value ++ [QUOTE]) := by
      rw [literalText, doubleQuotes_eq_self hfree]
    have hline : QUOTE :: (clause.value ++ QUOTE :: (textOf clause.back ++ rest)) =
        (Chunk.literal clause.value).text ++ (textOf clause.back ++ rest) := by
      simp [Chunk.text, hraw]
    rw [hline, hliteral, lex_chunks rules hback, hrest]
    simp [Chunk.lexemes, hraw]

/-- **One clause after another**: the statement goes on as it should exactly when there is no
quote in the filters. -/
theorem lex_clauses_iff {filters : AuditDAO.Filters} {clauses : List Clause}
    (hclauses : ∀ clause ∈ clauses, clause ∈ clausesOf filters) :
    lex rules (clauses.flatMap Clause.text ++ textOf orderChunks) =
        some (clauses.flatMap Clause.lexemes ++ lexemesOf orderChunks) ↔
      ∀ clause ∈ clauses, QUOTE ∉ clause.value := by
  induction clauses with
  | nil =>
    have horder : lex rules (textOf orderChunks) = some (lexemesOf orderChunks) :=
      lex_textOf rules (by decide)
    simpa using horder
  | cons clause clauses ih =>
    have hrest := ih fun c hc => hclauses c (List.mem_cons_of_mem clause hc)
    have hclause := hclauses clause (List.mem_cons_self ..)
    rw [List.flatMap_cons, List.flatMap_cons, List.append_assoc, List.append_assoc,
      lex_clause_iff rules hclause (clauses_behind clauses), hrest, List.forall_mem_cons]

/-! ## The statement -/

theorem nul_not_mem_clause {clause : Clause} {filters : AuditDAO.Filters}
    (h : clause ∈ clausesOf filters) (hvalue : NULL_CHAR ∉ clause.value) :
    NULL_CHAR ∉ clause.text := by
  have hquote : NULL_CHAR ≠ QUOTE := by decide
  have hfixed : NULL_CHAR ∉ textOf clause.front ∧ NULL_CHAR ∉ textOf clause.back := by
    have hmem := List.mem_of_mem_filter h
    simp only [List.mem_cons, List.not_mem_nil, or_false] at hmem
    rcases hmem with rfl | rfl | rfl | rfl
    all_goals
      simp only [Clause.front, Clause.back, Bool.false_eq_true, if_false, if_true]
      decide
  simp [Clause.text, hquote, hfixed.1, hfixed.2, hvalue]

/-- The statement is sent as it is when there is no NUL in the filters. -/
theorem sentText_searchSql {filters : AuditDAO.Filters}
    (h : ∀ clause ∈ clausesOf filters, NULL_CHAR ∉ clause.value) :
    sentText (AuditDAO.searchSql table.text filters) = AuditDAO.searchSql table.text filters := by
  apply upToNul_eq_self
  have hselect : NULL_CHAR ∉ textOf selectChunks := by decide +kernel
  have hwhere : NULL_CHAR ∉ textOf whereChunks := by decide
  have horder : NULL_CHAR ∉ textOf orderChunks := by decide
  have hclauses : NULL_CHAR ∉ (clausesOf filters).flatMap Clause.text := by
    intro hmem
    obtain ⟨clause, hclause, hmem⟩ := List.mem_flatMap.mp hmem
    exact nul_not_mem_clause hclause (h clause hclause) hmem
  simp only [searchSql_eq, List.mem_append, hselect, hwhere, horder, hclauses, table.nulFree,
    or_self, not_false_eq_true]

theorem lex_searchSql_iff (filters : AuditDAO.Filters) :
    lex rules (AuditDAO.searchSql table.text filters) = some (searchLexemes rules table filters) ↔
      ∀ clause ∈ clausesOf filters, QUOTE ∉ clause.value := by
  have hselect : ∀ rest, fitAll rest selectChunks = true := fun rest => rfl
  have hwhere : fitAll ((clausesOf filters).flatMap Clause.text ++ textOf orderChunks)
      whereChunks = true := by
    cases clausesOf filters <;> rfl
  rw [searchSql_eq, searchLexemes, lex_chunks rules (hselect _), map_append_eq_some_iff,
    table.reads _ rfl, map_append_eq_some_iff, lex_chunks rules hwhere, map_append_eq_some_iff]
  exact lex_clauses_iff rules fun clause h => h

theorem filtersAreData_iff_plain (filters : AuditDAO.Filters) :
    FiltersAreData rules table filters ↔ Plain filters := by
  constructor
  · intro h
    have hnul : ∀ clause ∈ clausesOf filters, NULL_CHAR ∉ clause.value := by
      intro clause hclause hmem
      have hlexeme : ⟨QUOTE :: (clause.value ++ [QUOTE]), .literal clause.value⟩ ∈
          searchLexemes rules table filters := by
        simp only [searchLexemes, List.mem_append, List.mem_flatMap]
        refine .inr (.inr (.inr (.inl ⟨clause, hclause, ?_⟩)))
        simp [Clause.lexemes]
      refine nul_not_mem_upToNul _ (mem_of_mem_lexeme rules h hlexeme ?_)
      simp [hmem]
    rw [FiltersAreData, sentText_searchSql rules table hnul, lex_searchSql_iff] at h
    intro clause hclause
    exact ⟨h clause hclause, hnul clause hclause⟩
  · intro h
    rw [FiltersAreData, sentText_searchSql rules table fun clause hc => (h clause hc).2,
      lex_searchSql_iff]
    exact fun clause hc => (h clause hc).1

/-! ## Two searches -/

/-- The lexemes without the values of the literals. -/
def structureOf (lexemes : List Lexeme) : List (Option Lexeme) :=
  lexemes.map fun l => match l.token with
    | .literal _ => none
    | _ => some l

/-- The same filters are not empty. -/
def SameFilters (f g : AuditDAO.Filters) : Prop :=
  f.action.isEmpty = g.action.isEmpty ∧ f.actionBy.isEmpty = g.actionBy.isEmpty ∧
    f.from_.isEmpty = g.from_.isEmpty ∧ f.to_.isEmpty = g.to_.isEmpty

theorem structureOf_searchLexemes {f g : AuditDAO.Filters} (h : SameFilters f g) :
    structureOf (searchLexemes rules table f) = structureOf (searchLexemes rules table g) := by
  obtain ⟨haction, hactionBy, hfrom, hto⟩ := h
  have hclauses : structureOf ((clausesOf f).flatMap Clause.lexemes) =
      structureOf ((clausesOf g).flatMap Clause.lexemes) := by
    simp only [clausesOf, List.filter_cons, List.filter_nil, haction, hactionBy, hfrom, hto]
    cases g.action.isEmpty <;> cases g.actionBy.isEmpty <;> cases g.from_.isEmpty <;>
      cases g.to_.isEmpty <;> rfl
  simp only [searchLexemes, structureOf, List.map_append] at hclauses ⊢
  rw [hclauses]

/-- **Main result.**  Every filter of a search that is not empty is one literal with the filter
as its value exactly when no filter has a quote or a NUL in it; and searches like that, with
the same filters not empty, have the same structure. -/
theorem filters_are_data_iff :
    (∀ filters, FiltersAreData rules table filters ↔ Plain filters) ∧
      ∀ f g, SameFilters f g → Plain f → Plain g →
        (lex rules (sentText (AuditDAO.searchSql table.text f))).map structureOf =
          (lex rules (sentText (AuditDAO.searchSql table.text g))).map structureOf := by
  refine ⟨filtersAreData_iff_plain rules table, ?_⟩
  intro f g hsame hf hg
  have hf' := (filtersAreData_iff_plain rules table f).mpr hf
  have hg' := (filtersAreData_iff_plain rules table g).mpr hg
  rw [FiltersAreData] at hf' hg'
  rw [hf', hg', Option.map_some, Option.map_some, structureOf_searchLexemes rules table hsame]

end Search

/-- `action = "' OR '1'='1"`. -/
theorem not_filters_are_data_quote :
    ¬ FiltersAreData (fun _ _ => none)
      (LogTable.ofWord _ (Wc 't') (W "_log_person") (by decide) (by decide))
      { action := W "' OR '1'='1" } := by
  rw [filtersAreData_iff_plain]
  intro h
  exact absurd (h ⟨W "action", W "=", W "' OR '1'='1", false⟩ (by decide)).1 (by decide)

end Pensar.Analysis
