import Pensar.Model.AuditLog

/-!
# Searching all audit logs

`create_audit_log` folds the name of a table to lower case, so that the names of log tables
begin with `t_log_`.  The search looks for tables with names like `T_LOG_%`, and `LIKE` does not
ignore case: it never reads a log table.  It can only read other tables, whose names match; no
row of these belongs into the result.

Main result: `search_all_complete_iff`.
-/

set_option autoImplicit false

namespace Pensar.Analysis.CrossTableSearch

open Pensar.Computation
open Pensar.Model

variable {J : Type}

/-- The rows of the log tables that the filters let through, each with the name of its table. -/
def loggedRows (filters : SearchFilters) (tables : List (PublicTable J)) : List (FoundRow J) :=
  tables.flatMap fun table =>
    match table with
    | .log pTable rows =>
      (rows.filter filters.accepts).map (FoundRow.mk (CreateAuditLog.logName pTable))
    | .other _ _ => []

/-- The search returns the newest rows of the log tables, newest first, and as many as the limit
lets through. -/
def CompleteSearch (order : NewestFirst J) (tables : List (PublicTable J))
    (filters : SearchFilters) (pLimit : Option ℤ) : Prop :=
  ∃ out, fnSearchAllAuditLogs order tables filters pLimit = some out ∧
    IsTop (Descending fun found => found.row.actionAt) (pLimit.map Int.toNat)
      (loggedRows filters tables) out

/-- The query can read the table, and gets no row of it. -/
def Silent (filters : SearchFilters) (pLimit : Option ℤ) (table : PublicTable J) : Prop :=
  (∀ n, pLimit = some n → 0 ≤ n) ∧
    ∃ rows, table.rows? = some rows ∧ (pLimit = some 0 ∨ ∀ row ∈ rows, filters.accepts row = false)

/-! ## The names of log tables -/

/-- No name of a log table is like the pattern. -/
theorem not_like_logName (pTable : SqlText) :
    like (CreateAuditLog.logName pTable) logTablePattern = false := by
  have hname : ∃ rest, CreateAuditLog.logName pTable = 't' :: rest := ⟨_, rfl⟩
  have htokens : ∃ tokens, likeTokens logTablePattern = .literal 'T' :: tokens := ⟨_, rfl⟩
  obtain ⟨rest, hrest⟩ := hname
  obtain ⟨tokens, htokens⟩ := htokens
  rw [Bool.eq_false_iff]
  unfold like
  rw [htokens, hrest, ne_eq, likeMatches_literal]
  rintro ⟨_, hhead, _⟩
  exact absurd (List.head_eq_of_cons_eq hhead) (by decide)

theorem not_like_of_mem_loggedRows {filters : SearchFilters} {tables : List (PublicTable J)}
    {found : FoundRow J} (h : found ∈ loggedRows filters tables) :
    like found.sourceTable logTablePattern = false := by
  unfold loggedRows at h
  obtain ⟨table, _, hfound⟩ := List.mem_flatMap.mp h
  cases table with
  | log pTable rows =>
    obtain ⟨row, _, rfl⟩ := List.mem_map.mp hfound
    exact not_like_logName pTable
  | other name rows => simp at hfound

/-! ## What the search returns -/

/-- All queries succeed, with these values. -/
theorem mapM_eq_some_iff {α β : Type} (f : α → Option β) (items : List α) (values : List β) :
    items.mapM f = some values ↔ items.map f = values.map some := by
  induction items generalizing values with
  | nil => cases values <;> simp
  | cons item items ih =>
    cases values with
    | nil => simp [List.mapM_cons, Option.bind_eq_some_iff]
    | cons value values => simp [List.mapM_cons, Option.bind_eq_some_iff, ih]

theorem exists_mapM_eq_some {α β : Type} {f : α → Option β} {items : List α}
    (h : ∀ item ∈ items, ∃ value, f item = some value) : ∃ values, items.mapM f = some values := by
  induction items with
  | nil => exact ⟨[], rfl⟩
  | cons item items ih =>
    obtain ⟨value, hvalue⟩ := h item List.mem_cons_self
    obtain ⟨values, hvalues⟩ := ih fun other hother => h other (List.mem_cons_of_mem item hother)
    exact ⟨value :: values, by simp [List.mapM_cons, hvalue, hvalues]⟩

theorem mem_iff_of_mapM {α β : Type} {f : α → Option β} {items : List α} {values : List β}
    (h : items.mapM f = some values) (value : β) :
    value ∈ values ↔ ∃ item ∈ items, f item = some value := by
  have hmap := (mapM_eq_some_iff f items values).mp h
  calc value ∈ values
      ↔ some value ∈ values.map some := by simp
    _ ↔ some value ∈ items.map f := by rw [hmap]
    _ ↔ ∃ item ∈ items, f item = some value := List.mem_map

theorem exists_of_mapM {α β : Type} {f : α → Option β} {items : List α} {values : List β}
    (h : items.mapM f = some values) {item : α} (hitem : item ∈ items) :
    ∃ value, f item = some value := by
  have hmem : f item ∈ values.map some :=
    (mapM_eq_some_iff f items values).mp h ▸ List.mem_map_of_mem hitem
  obtain ⟨value, _, hvalue⟩ := List.mem_map.mp hmem
  exact ⟨value, hvalue.symm⟩

/-- The tables that the search reads, in its order. -/
def readTables (tables : List (PublicTable J)) : List (PublicTable J) :=
  (tables.filter fun table => like table.name logTablePattern).mergeSort
    fun table other => decide (table.name ≤ other.name)

theorem mem_readTables (tables : List (PublicTable J)) (table : PublicTable J) :
    table ∈ readTables tables ↔ table ∈ tables ∧ like table.name logTablePattern = true := by
  unfold readTables
  rw [List.mem_mergeSort, List.mem_filter]

/-- A result of the search: nothing if it reads no table, else the first of the rows that the
query finds in the tables. -/
theorem search_eq_some_iff (order : NewestFirst J) (tables : List (PublicTable J))
    (filters : SearchFilters) (pLimit : Option ℤ) (out : List (FoundRow J)) :
    fnSearchAllAuditLogs order tables filters pLimit = some out ↔
      (readTables tables = [] ∧ out = []) ∨
        (readTables tables ≠ [] ∧ pLimit.any (· < 0) = false ∧
          ∃ selected, (readTables tables).mapM (selectFrom filters) = some selected ∧
            limited (pLimit.map Int.toNat) (order.sort selected.flatten) = out) := by
  have hsearch : fnSearchAllAuditLogs order tables filters pLimit =
      if (readTables tables).isEmpty then some [] else
        ((readTables tables).mapM (selectFrom filters)).bind fun selected =>
          if pLimit.any (· < 0) then none
          else some (limited (pLimit.map Int.toNat) (order.sort selected.flatten)) := rfl
  rw [hsearch]
  by_cases hempty : readTables tables = []
  · simp only [hempty, List.isEmpty_nil, if_true, Option.some.injEq, ne_eq, not_true_eq_false,
      true_and, false_and, or_false]
    exact eq_comm
  · have hisEmpty : (readTables tables).isEmpty = false := by simpa using hempty
    simp only [hisEmpty, hempty, Bool.false_eq_true, if_false, Option.bind_eq_some_iff, ne_eq,
      not_false_eq_true, true_and, false_and, false_or]
    cases hneg : pLimit.any (· < 0) with
    | true => simp
    | false => simp

/-- Over the tables that it reads, the search is right: a result has the first of the rows that
the query finds there. -/
theorem exists_isTop_of_search {order : NewestFirst J} {tables : List (PublicTable J)}
    {filters : SearchFilters} {pLimit : Option ℤ} {out : List (FoundRow J)}
    (h : fnSearchAllAuditLogs order tables filters pLimit = some out) :
    ∃ selected, (readTables tables).mapM (selectFrom filters) = some selected ∧
      IsTop (Descending fun found => found.row.actionAt) (pLimit.map Int.toNat)
        selected.flatten out := by
  rcases (search_eq_some_iff order tables filters pLimit out).mp h with
    ⟨hempty, rfl⟩ | ⟨_, _, selected, hselected, rfl⟩
  · refine ⟨[], by rw [hempty]; rfl, ?_⟩
    have htop := order.isTop_limited (pLimit.map Int.toNat) []
    rwa [(order.sort_eq_nil_iff []).mpr rfl, limited_nil] at htop
  · exact ⟨selected, hselected, order.isTop_limited _ _⟩

/-- Every row of a result comes from a table that the search reads. -/
theorem like_of_mem_search {order : NewestFirst J} {tables : List (PublicTable J)}
    {filters : SearchFilters} {pLimit : Option ℤ} {out : List (FoundRow J)}
    (h : fnSearchAllAuditLogs order tables filters pLimit = some out) {found : FoundRow J}
    (hfound : found ∈ out) : like found.sourceTable logTablePattern = true := by
  obtain ⟨selected, hselected, htop⟩ := exists_isTop_of_search h
  obtain ⟨rows, hrows, hfound⟩ := List.mem_flatten.mp (htop.mem hfound)
  obtain ⟨table, htable, hselect⟩ := (mem_iff_of_mapM hselected rows).mp hrows
  obtain ⟨all, _, rfl⟩ := Option.map_eq_some_iff.mp hselect
  obtain ⟨row, _, rfl⟩ := List.mem_map.mp hfound
  exact ((mem_readTables tables table).mp htable).2

theorem silent_iff (filters : SearchFilters) (pLimit : Option ℤ) (table : PublicTable J) :
    Silent filters pLimit table ↔ pLimit.any (· < 0) = false ∧
      ∃ found, selectFrom filters table = some found ∧
        (pLimit.map Int.toNat = some 0 ∨ found = []) := by
  have hneg : (∀ n, pLimit = some n → 0 ≤ n) ↔ pLimit.any (· < 0) = false := by
    cases pLimit <;> simp
  unfold Silent
  rw [hneg]
  apply and_congr_right
  intro hlimit
  have hzero : pLimit = some 0 ↔ pLimit.map Int.toNat = some 0 := by
    cases pLimit with
    | none => simp
    | some n =>
      have hn : 0 ≤ n := by simpa using hlimit
      simp only [Option.some.injEq, Option.map_some]
      omega
  simp [selectFrom, hzero, List.filter_eq_nil_iff]

/-- When the rows of the tables, in order and cut off, are none. -/
theorem limited_selected_eq_nil_iff (order : NewestFirst J) {tables : List (PublicTable J)}
    {filters : SearchFilters} {selected : List (List (FoundRow J))} (limit : Option ℕ)
    (h : tables.mapM (selectFrom filters) = some selected) :
    limited limit (order.sort selected.flatten) = [] ↔
      limit = some 0 ∨ ∀ table ∈ tables, ∀ found, selectFrom filters table = some found →
        found = [] := by
  rw [limited_eq_nil_iff, order.sort_eq_nil_iff, List.flatten_eq_nil_iff]
  apply or_congr_right
  constructor
  · intro hnil table htable found hfound
    exact hnil found ((mem_iff_of_mapM h found).mpr ⟨table, htable, hfound⟩)
  · intro hnil found hfound
    obtain ⟨table, htable, hselect⟩ := (mem_iff_of_mapM h found).mp hfound
    exact hnil table htable found hselect

/-- When the search finds nothing. -/
theorem search_eq_nil_iff (order : NewestFirst J) (tables : List (PublicTable J))
    (filters : SearchFilters) (pLimit : Option ℤ) :
    fnSearchAllAuditLogs order tables filters pLimit = some [] ↔
      ∀ table ∈ tables, like table.name logTablePattern = true → Silent filters pLimit table := by
  have hread : (∀ table ∈ tables, like table.name logTablePattern = true →
      Silent filters pLimit table) ↔ ∀ table ∈ readTables tables, Silent filters pLimit table := by
    simp only [mem_readTables, and_imp]
  rw [hread, search_eq_some_iff]
  simp only [silent_iff]
  constructor
  · rintro (⟨hempty, _⟩ | ⟨_, hneg, selected, hselected, hlimited⟩) table htable
    · simp [hempty] at htable
    · obtain ⟨found, hfound⟩ := exists_of_mapM hselected htable
      refine ⟨hneg, found, hfound, ?_⟩
      exact ((limited_selected_eq_nil_iff order _ hselected).mp hlimited).imp_right
        fun hnil => hnil table htable found hfound
  · intro h
    cases hempty : readTables tables with
    | nil => exact Or.inl ⟨rfl, trivial⟩
    | cons first others =>
      have hfirst : first ∈ readTables tables := hempty ▸ List.mem_cons_self
      obtain ⟨selected, hselected⟩ := exists_mapM_eq_some fun table htable =>
        (h table htable).2.imp fun found hfound => hfound.1
      rw [← hempty]
      refine Or.inr ⟨by simp [hempty], (h first hfirst).1, selected, hselected, ?_⟩
      rw [limited_selected_eq_nil_iff order _ hselected]
      by_cases hzero : pLimit.map Int.toNat = some 0
      · exact Or.inl hzero
      · right
        intro table htable found hselect
        obtain ⟨_, hother, hnil⟩ := (h table htable).2
        rw [Option.some.inj (hselect.symm.trans hother)]
        exact hnil.resolve_left hzero

/-! ## When the search is complete -/

/-- **When the search over all log tables is complete**: when no row of a log table is asked for,
and the query gets none of any other table that it reads. -/
theorem search_all_complete_iff (order : NewestFirst J) (tables : List (PublicTable J))
    (filters : SearchFilters) (pLimit : Option ℤ) :
    CompleteSearch order tables filters pLimit ↔
      ((∃ n, pLimit = some n ∧ n ≤ 0) ∨ loggedRows filters tables = []) ∧
        ∀ table ∈ tables, like table.name logTablePattern = true →
          Silent filters pLimit table := by
  have hnone : limitedLength (pLimit.map Int.toNat) (loggedRows filters tables).length = 0 ↔
      (∃ n, pLimit = some n ∧ n ≤ 0) ∨ loggedRows filters tables = [] := by
    cases pLimit with
    | none => simp [limitedLength]
    | some n => simp [limitedLength]
  rw [← search_eq_nil_iff order, ← hnone, ← isTop_nil_iff]
  constructor
  · rintro ⟨out, hout, htop⟩
    -- a row of the result would be one of a log table, and one of a table that is read
    have hnil : out = [] := by
      apply List.eq_nil_iff_forall_not_mem.mpr
      intro found hfound
      have hlike := like_of_mem_search hout hfound
      rw [not_like_of_mem_loggedRows (htop.mem hfound)] at hlike
      exact absurd hlike (by decide)
    subst hnil
    exact ⟨htop, hout⟩
  · rintro ⟨htop, hout⟩
    exact ⟨[], hout, htop⟩

/-- One row in the log table of `T_Person`: the search does not find it. -/
theorem not_search_all_complete_person :
    ¬ ∀ (order : NewestFirst ℕ) (tables : List (PublicTable ℕ)) (filters : SearchFilters)
      (pLimit : Option ℤ), CompleteSearch order tables filters pLimit := by
  intro h
  obtain ⟨out, hout, htop⟩ := h (OrderBy.descending _)
    [.log "T_Person".toList [⟨⟨.C, "ana".toList, 5, none, some 0⟩, 1⟩]]
    ⟨none, none, none, none⟩ (some 500)
  have hnil : fnSearchAllAuditLogs (OrderBy.descending _)
      [.log "T_Person".toList [⟨⟨.C, "ana".toList, 5, none, some 0⟩, 1⟩]]
      ⟨none, none, none, none⟩ (some 500) = some ([] : List (FoundRow ℕ)) := by
    rw [search_eq_nil_iff]
    intro table htable hlike
    rw [List.mem_singleton.mp htable] at hlike
    exact absurd (hlike.symm.trans (not_like_logName _)) (by decide)
  rw [hnil] at hout
  cases hout
  exact absurd ((isTop_nil_iff _ _ _).mp htop) (by decide +kernel)

end Pensar.Analysis.CrossTableSearch
