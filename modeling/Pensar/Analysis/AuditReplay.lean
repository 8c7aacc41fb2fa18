import Pensar.Analysis.AuditedTable

/-!
# Replaying the log of an audited table

A row of a log table says how one row of the table changed.  Replayed in the order of their
ids, the committed rows of the log lead from the empty table to the committed rows of the
table, if the table was empty when it was registered and no other table writes to its log.

The last is not for the names alone to ensure: a long name is cut off, and two tables can then
have one log table.

The invariant is about all sets of transactions that may still commit: the changes that they
would leave in the history replay to the rows that they would leave in the table.

Main result: `audit_log_replays_to_table`.
-/

set_option autoImplicit false

namespace Pensar.Analysis.AuditReplay

open Pensar.Computation
open Pensar.Model
open Pensar.Interface
open Pensar.Analysis.AuditedTable

variable {R J : Type} [DecidableEq J] {toJsonb : R → J} {table log : SqlText}

/-! ## Replaying a log -/

/-- What a row of a log table says, none if it does not have the data that its action needs. -/
def change? (row : LogValues J) : Option (Change J) :=
  match row.action, row.oldData, row.newData with
  | .C, _, some new => some (.created new)
  | .U, some old, some new => some (.updated old new)
  | .D, some old, _ => some (.deleted old)
  | _, _, _ => none

/-- The bag of rows after a log, none if the replay gets stuck. -/
def replayLog (rows : List (LogRow J)) : Option (Multiset J) :=
  rows.foldlM (fun bag row => (change? row.toLogValues).bind (Change.apply bag)) 0

def inLogIdOrder (rows : List (LogRow J)) : List (LogRow J) :=
  rows.mergeSort fun a b => decide (a.logId ≤ b.logId)

omit [DecidableEq J] in
theorem change?_logValues (deed : Deed R) :
    change? (logValues toJsonb deed) = some (deed.change.map toJsonb) := by
  obtain ⟨user, startedAt, change⟩ := deed
  cases change <;> rfl

/-- The rows of a log that tells these changes replay as the changes do. -/
theorem replayLog_eq_replay {rows : List (LogRow J)} {deeds : List (Deed R)}
    (h : rows.map LogRow.toLogValues = deeds.map (logValues toJsonb)) :
    replayLog rows = Change.replay 0 (deeds.map fun deed => deed.change.map toJsonb) := by
  unfold replayLog Change.replay
  generalize (0 : Multiset J) = bag
  induction rows generalizing deeds bag with
  | nil =>
    have hdeeds : deeds = [] := by simpa using h.symm
    subst hdeeds
    rfl
  | cons row rows ih =>
    cases deeds with
    | nil => simp at h
    | cons deed deeds =>
      obtain ⟨hrow, hrows⟩ := List.cons.inj h
      rw [List.map_cons, List.foldlM_cons, List.foldlM_cons, hrow, change?_logValues]
      simp only [Option.bind_some]
      congr 1
      funext bag'
      exact ih hrows bag'

/-! ## The invariant -/

/-- Whoever commits, the changes that this leaves replay to the rows that it leaves. -/
def Replays (toJsonb : R → J) (table : SqlText) (db : Database R J) (history : History R) : Prop :=
  ∀ A : Xid → Bool,
    Change.replay 0 ((Tentative.visible A history).map fun deed => deed.change.map toJsonb) =
      some ((Cell.versions A (db.rows table) : Multiset R).map toJsonb)

theorem replays_step {db db' : Database R J} {history : History R} {event : AuditEvent R}
    (hreplays : Replays toJsonb table db history)
    (hstep : TableStep toJsonb db db' table log event) :
    Replays toJsonb table db' (record table history event) := by
  intro A
  cases hstep with
  | changed x deed cells i cell hchange hrows hlog =>
    have hcells : Cell.versions A cells = Cell.versions A (db.rows table) := by
      rcases hchange.found with h | h
      · rw [h]
      · rw [h, Cell.versions_append_blank]
    obtain ⟨rest, hbefore, hafter⟩ :=
      Cell.versions_write hchange.position hchange.free deed.change.new? A
    have hreplay := hreplays A
    rw [← hcells, hbefore] at hreplay
    rw [hrows, hafter]
    simp only [record, if_true, Tentative.visible_append, Tentative.visible_write]
    cases hA : A x with
    | false => simpa [hA] using hreplay
    | true =>
      simp only [hA, if_true, hchange.old, Multiset.map_add, map_present] at hreplay
      simp only [if_true, List.map_append, List.map_cons, List.map_nil, Multiset.map_add,
        map_present, ← Change.new?_map]
      rw [← Change.old?_map] at hreplay
      exact Change.replay_concat_swap hreplay
  | committed x hrows hlog =>
    rw [hrows, Cell.versions_commit]
    simpa only [record, Tentative.visible_commit] using hreplays (including A x)
  | rolledBack x hrows hlog =>
    rw [hrows, Cell.versions_rollback]
    simpa only [record, Tentative.visible_rollback] using hreplays (excluding A x)
  | elsewhere _ hrecord hrows hlog =>
    rw [hrows, hrecord]
    exact hreplays A

theorem replays_run {db : Database R J} {history : History R}
    (hlogged : Logged toJsonb table log db history) (hreplays : Replays toJsonb table db history)
    (calls : List (AuditCall R)) (hspares : ∀ call ∈ calls, Spares table log call) :
    Replays toJsonb table ((auditMachine toJsonb).run db calls)
      (((auditMachine toJsonb).outputs db calls).foldl (record table) history) := by
  have hrun := (auditMachine toJsonb).observed_invariant (record table)
    (fun db history => Logged toJsonb table log db history ∧ Replays toJsonb table db history)
    (fun _ call => Spares table log call) ?_ db history calls
    (((auditMachine toJsonb).along_const_iff _ _ _).mpr hspares) ⟨hlogged, hreplays⟩
  · exact hrun.2
  · rintro db history call ⟨hlogged, hreplays⟩ hcall
    have hstep := tableStep_step toJsonb hlogged.audits hlogged.own hcall
    exact ⟨logged_step hlogged hcall, replays_step hreplays hstep⟩

/-- A table that is empty, and that no transaction has changed. -/
theorem versions_eq_nil {cells : List (Cell Xid R)} (hquiet : ∀ cell ∈ cells, cell.pending = none)
    (hempty : Cell.versions (fun _ => false) cells = []) (A : Xid → Bool) :
    Cell.versions A cells = [] := by
  rw [← hempty]
  unfold Cell.versions
  apply List.filterMap_congr
  intro cell hcell
  simp [Cell.version, hquiet cell hcell]

/-! ## The log of a table -/

omit [DecidableEq J] in
theorem inLogIdOrder_eq {db : Database R J} {history : History R}
    (hlogged : Logged toJsonb table log db history) :
    inLogIdOrder (db.committedLog log) = db.committedLog log := by
  unfold inLogIdOrder Database.committedLog
  apply List.mergeSort_of_pairwise
  have hincreasing := hlogged.increasing.sublist (Tentative.visible_sublist (fun _ => false) _)
  exact hincreasing.imp fun h => by simpa using h.le

/-- **The committed rows of the log replay to the committed rows of the table**, for a table that
was registered when it was empty, and whose log table no other table is registered with. -/
theorem audit_log_replays_to_table (toJsonb : R → J) (tables : List SqlText)
    (before after : List (AuditCall R)) (pTable : SqlText)
    (hregistered : (perform toJsonb (databaseAfter toJsonb tables before)
      (.createAuditLog pTable)).isSome)
    (hempty : (databaseAfter toJsonb tables before).committedRows
      (CreateAuditLog.tableName pTable) = [])
    (hspares : ∀ call ∈ before ++ after,
      Spares (CreateAuditLog.tableName pTable) (CreateAuditLog.logName pTable) call) :
    replayLog (inLogIdOrder
        ((databaseAfter toJsonb tables (before ++ .createAuditLog pTable :: after)).committedLog
          (CreateAuditLog.logName pTable))) =
      some (((databaseAfter toJsonb tables (before ++ .createAuditLog pTable :: after)).committedRows
        (CreateAuditLog.tableName pTable) : Multiset R).map toJsonb) := by
  have hbefore : ∀ call ∈ before, _ := fun call h => hspares call (List.mem_append_left after h)
  have hafter : ∀ call ∈ after, _ := fun call h => hspares call (List.mem_append_right before h)
  obtain ⟨⟨db', event⟩, hregister⟩ := Option.isSome_iff_exists.mp hregistered
  have hlogged := logged_createAuditLog hbefore hregister
  rw [databaseAfter_createAuditLog hregister]
  have hreplays : Replays toJsonb (CreateAuditLog.tableName pTable) db' [] := by
    obtain ⟨_, hcreate, h⟩ := Option.map_eq_some_iff.mp hregister
    cases h
    obtain ⟨_, hquiet, rfl⟩ := createAuditLog_eq_some hcreate
    intro A
    rw [versions_eq_nil hquiet hempty A]
    rfl
  have hlast := logged_run hlogged after hafter
  rw [inLogIdOrder_eq hlast]
  exact (replayLog_eq_replay (visible_log hlast fun _ => false)).trans
    (replays_run hlogged hreplays after hafter fun _ => false)

/-- A row that gets another key, and whose deletion is rolled back. -/
theorem audit_log_replays_to_table_person :
    replayLog (inLogIdOrder ((databaseAfter (id : ℕ → ℕ) ["t_person".toList]
        ([] ++ .createAuditLog "T_Person".toList ::
          [.begin 1 0, .insert 1 ⟨none, ['a']⟩ "t_person".toList 7,
            .update 1 ⟨none, ['a']⟩ "t_person".toList 0 8, .commit 1, .begin 2 1,
            .delete 2 ⟨none, ['b']⟩ "t_person".toList 0, .rollback 2])).committedLog
          (CreateAuditLog.logName "T_Person".toList))) =
      some (((databaseAfter (id : ℕ → ℕ) ["t_person".toList]
        ([] ++ .createAuditLog "T_Person".toList ::
          [.begin 1 0, .insert 1 ⟨none, ['a']⟩ "t_person".toList 7,
            .update 1 ⟨none, ['a']⟩ "t_person".toList 0 8, .commit 1, .begin 2 1,
            .delete 2 ⟨none, ['b']⟩ "t_person".toList 0, .rollback 2])).committedRows
          (CreateAuditLog.tableName "T_Person".toList) : Multiset ℕ).map id) :=
  audit_log_replays_to_table id _ _ _ _ (by decide +kernel) (by decide +kernel) (by simp [Spares])

/-- Two names that differ in their last characters only, beyond what fits into the name of a log
table. -/
def longName (c : Char) : SqlText := "T_".toList ++ List.replicate 57 'a' ++ [c]

/-- The row of the one table in the log of the other. -/
theorem not_audit_log_replays_long_names :
    ¬ ∀ (tables : List SqlText) (before after : List (AuditCall ℕ)) (pTable : SqlText),
      (perform (id : ℕ → ℕ) (databaseAfter id tables before) (.createAuditLog pTable)).isSome →
      (databaseAfter (id : ℕ → ℕ) tables before).committedRows
        (CreateAuditLog.tableName pTable) = [] →
      (∀ pLogTable pBefore, .purge pLogTable pBefore ∉ before ++ after) →
      replayLog (inLogIdOrder
          ((databaseAfter (id : ℕ → ℕ) tables (before ++ .createAuditLog pTable :: after)).committedLog
            (CreateAuditLog.logName pTable))) =
        some (((databaseAfter (id : ℕ → ℕ) tables
          (before ++ .createAuditLog pTable :: after)).committedRows
            (CreateAuditLog.tableName pTable) : Multiset ℕ).map id) := by
  intro h
  have hlong := h [lower (longName 'b'), lower (longName 'c')] []
    [.createAuditLog (longName 'c'), .begin 1 0,
      .insert 1 ⟨none, ['a']⟩ (lower (longName 'c')) 7, .commit 1] (longName 'b')
    (by decide +kernel) (by decide +kernel) (by simp)
  have hlog : (databaseAfter (id : ℕ → ℕ) [lower (longName 'b'), lower (longName 'c')]
      ([] ++ .createAuditLog (longName 'b') ::
        [.createAuditLog (longName 'c'), .begin 1 0,
          .insert 1 ⟨none, ['a']⟩ (lower (longName 'c')) 7, .commit 1])).committedLog
        (CreateAuditLog.logName (longName 'b')) = [⟨⟨.C, ['a'], 0, none, some 7⟩, 1⟩] := by
    decide +kernel
  have hrows : (databaseAfter (id : ℕ → ℕ) [lower (longName 'b'), lower (longName 'c')]
      ([] ++ .createAuditLog (longName 'b') ::
        [.createAuditLog (longName 'c'), .begin 1 0,
          .insert 1 ⟨none, ['a']⟩ (lower (longName 'c')) 7, .commit 1])).committedRows
        (CreateAuditLog.tableName (longName 'b')) = [] := by
    decide +kernel
  rw [hlog, hrows, inLogIdOrder, List.mergeSort_singleton] at hlong
  exact absurd hlong (by decide)

end Pensar.Analysis.AuditReplay
