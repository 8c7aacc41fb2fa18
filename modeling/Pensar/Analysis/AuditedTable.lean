import Pensar.Interface.AuditHistory

/-!
# The log of an audited table

From its registration on, the log of a table has one row for each change of the table, in the
order of the changes and with ids that go up.  The row of a change is visible to exactly those
who see the change.

Main result: `logged_run`.
-/

set_option autoImplicit false

namespace Pensar.Analysis.AuditedTable

open Pensar.Computation
open Pensar.Model
open Pensar.Interface

variable {R J : Type} {toJsonb : R → J} {table log : SqlText}

/-- The log of `table` tells its history. -/
structure Logged (toJsonb : R → J) (table log : SqlText) (db : Database R J) (history : History R) :
    Prop where
  audits : Audits db table log
  own : OwnLog db table log
  told : (db.logs log).entries.map (Tentative.map LogRow.toLogValues) =
    history.map (Tentative.map (logValues toJsonb))
  increasing : ((db.logs log).entries.map Tentative.item).Pairwise fun a b => a.logId < b.logId
  bounded : ∀ row ∈ (db.logs log).entries.map Tentative.item, row.logId ≤ (db.logs log).lastId

/-- One call is carried out, or changes nothing. -/
theorem step_cases (toJsonb : R → J) (db : Database R J) (call : AuditCall R) :
    (auditMachine toJsonb).step db call = (db, .nothing) ∨
      ∃ db' event, (auditMachine toJsonb).step db call = (db', event) ∧
        Performed toJsonb db call db' event := by
  cases h : perform toJsonb db call with
  | none => exact Or.inl (step_of_not_perform h)
  | some result => exact Or.inr ⟨_, _, step_of_perform h, performed_of_perform h⟩

/-- One call, carried out or not, seen from a table that has its log for itself. -/
theorem tableStep_step (toJsonb : R → J) {db : Database R J} (haudits : Audits db table log)
    (hown : OwnLog db table log) {call : AuditCall R} (hspares : Spares table log call) :
    TableStep toJsonb db ((auditMachine toJsonb).step db call).1 table log
      ((auditMachine toJsonb).step db call).2 := by
  rcases step_cases toJsonb db call with h | ⟨db', event, h, hperformed⟩
  · rw [h]
    exact .elsewhere _ (fun _ => rfl) rfl rfl
  · rw [h]
    exact tableStep_of_performed haudits hown hspares hperformed

theorem audits_step (toJsonb : R → J) {db : Database R J} (haudits : Audits db table log)
    (call : AuditCall R) : Audits ((auditMachine toJsonb).step db call).1 table log := by
  rcases step_cases toJsonb db call with h | ⟨db', event, h, hperformed⟩
  · rwa [h]
  · rw [h]
    exact audits_of_performed haudits hperformed

theorem ownLog_step (toJsonb : R → J) {db : Database R J} (hown : OwnLog db table log)
    {call : AuditCall R} (hspares : Spares table log call) :
    OwnLog ((auditMachine toJsonb).step db call).1 table log := by
  rcases step_cases toJsonb db call with h | ⟨db', event, h, hperformed⟩
  · rwa [h]
  · rw [h]
    exact ownLog_of_performed hown hspares hperformed

/-- One call keeps the log and the history together. -/
theorem logged_step {db : Database R J} {history : History R}
    (hlogged : Logged toJsonb table log db history) {call : AuditCall R}
    (hspares : Spares table log call) :
    Logged toJsonb table log ((auditMachine toJsonb).step db call).1
      (record table history ((auditMachine toJsonb).step db call).2) := by
  have haudits := audits_step toJsonb hlogged.audits call
  have hown := ownLog_step toJsonb hlogged.own hspares
  have hstep := tableStep_step toJsonb hlogged.audits hlogged.own hspares
  generalize ((auditMachine toJsonb).step db call).1 = db' at haudits hown hstep ⊢
  generalize ((auditMachine toJsonb).step db call).2 = event at hstep ⊢
  obtain ⟨_, _, htold, hincreasing, hbounded⟩ := hlogged
  cases hstep with
  | changed x deed cells i cell hchange hrows hlog =>
    refine ⟨haudits, hown, ?_, ?_, ?_⟩
    · simp [hlog, LogTable.insert, record, htold, Tentative.map]
    · simp only [hlog, LogTable.insert, List.map_append, List.map_cons, List.map_nil]
      apply List.pairwise_append.mpr ⟨hincreasing, List.pairwise_singleton _ _, ?_⟩
      intro row hrow new hnew
      rw [List.mem_singleton.mp hnew]
      exact Nat.lt_succ_of_le (hbounded row hrow)
    · simp only [hlog, LogTable.insert, List.map_append, List.map_cons, List.map_nil,
        List.mem_append, List.mem_singleton]
      rintro row (hrow | rfl)
      · exact (hbounded row hrow).trans (Nat.le_succ _)
      · exact le_rfl
  | committed x hrows hlog =>
    refine ⟨haudits, hown, ?_, ?_, ?_⟩
    · simp only [hlog, record, ← Tentative.commit_map, htold]
    · simpa only [hlog, Tentative.map_item_commit] using hincreasing
    · simpa only [hlog, Tentative.map_item_commit] using hbounded
  | rolledBack x hrows hlog =>
    have hsublist : ((Tentative.rollback x (db.logs log).entries).map Tentative.item).Sublist
        ((db.logs log).entries.map Tentative.item) := (Tentative.rollback_sublist x _).map _
    refine ⟨haudits, hown, ?_, ?_, ?_⟩
    · simp only [hlog, record, ← Tentative.rollback_map, htold]
    · rw [hlog]
      exact hincreasing.sublist hsublist
    · intro row hrow
      rw [hlog] at hrow ⊢
      exact hbounded row (hsublist.subset hrow)
  | elsewhere _ hrecord hrows hlog =>
    refine ⟨haudits, hown, ?_, ?_, ?_⟩
    · rw [hlog, hrecord, htold]
    · rwa [hlog]
    · rwa [hlog]

/-- **The log tells the history**, over every run. -/
theorem logged_run {db : Database R J} {history : History R}
    (hlogged : Logged toJsonb table log db history) (calls : List (AuditCall R))
    (hspares : ∀ call ∈ calls, Spares table log call) :
    Logged toJsonb table log ((auditMachine toJsonb).run db calls)
      (((auditMachine toJsonb).outputs db calls).foldl (record table) history) := by
  apply (auditMachine toJsonb).observed_invariant (record table) (Logged toJsonb table log)
    (fun _ call => Spares table log call) _ _ _ _ _ hlogged
  · intro db history call hlogged hcall
    exact logged_step hlogged hcall
  · exact ((auditMachine toJsonb).along_const_iff _ _ _).mpr hspares

/-- What a session sees of the log and of the history. -/
theorem visible_log {db : Database R J} {history : History R}
    (hlogged : Logged toJsonb table log db history) (A : Xid → Bool) :
    (Tentative.visible A (db.logs log).entries).map LogRow.toLogValues =
      (Tentative.visible A history).map (logValues toJsonb) := by
  rw [← Tentative.visible_map, hlogged.told, Tentative.visible_map]

/-! ## The registration -/

/-- A table that nobody registered has an empty log. -/
theorem log_empty_run (toJsonb : R → J) (tables : List SqlText) (calls : List (AuditCall R))
    (hspares : ∀ call ∈ calls, Spares table log call) :
    OwnLog (databaseAfter toJsonb tables calls) table log ∧
      ((databaseAfter toJsonb tables calls).triggers.lookup table = none →
        (databaseAfter toJsonb tables calls).logs log = ⟨0, []⟩) := by
  have hrun := (auditMachine toJsonb).observed_invariant (fun _ _ => ())
    (fun db _ => OwnLog db table log ∧ (db.triggers.lookup table = none → db.logs log = ⟨0, []⟩))
    (fun _ call => Spares table log call) ?_ (Database.start tables) () calls
    (((auditMachine toJsonb).along_const_iff _ _ _).mpr hspares) ?_
  · exact hrun
  · rintro db _ call ⟨hown, hempty⟩ hcall
    refine ⟨ownLog_step toJsonb hown hcall, ?_⟩
    intro hnone
    rcases step_cases toJsonb db call with h | ⟨db', event, h, hperformed⟩
    · rw [h] at hnone ⊢
      exact hempty hnone
    · rw [h] at hnone ⊢
      have hbefore : db.triggers.lookup table = none := by
        rcases lookup_of_performed hperformed table with hsame | ⟨_, _, _, hbefore, _⟩
        · rw [← hsame, hnone]
        · exact hbefore
      exact log_empty_of_performed hown hbefore (hempty hbefore) hperformed
  · refine ⟨?_, fun _ => rfl⟩
    intro other vLog hlookup
    simp [Database.start] at hlookup

/-- The registration of a table whose log is empty. -/
theorem logged_of_perform {db db' : Database R J} {pTable : SqlText} {event : AuditEvent R}
    (hown : OwnLog db (CreateAuditLog.tableName pTable) (CreateAuditLog.logName pTable))
    (hempty : db.triggers.lookup (CreateAuditLog.tableName pTable) = none →
      db.logs (CreateAuditLog.logName pTable) = ⟨0, []⟩)
    (hregister : perform toJsonb db (.createAuditLog pTable) = some (db', event)) :
    Logged toJsonb (CreateAuditLog.tableName pTable) (CreateAuditLog.logName pTable) db' [] := by
  have hownLog := ownLog_of_performed hown
    (show Spares _ _ (AuditCall.createAuditLog pTable) from fun _ => rfl)
    (performed_of_perform hregister)
  obtain ⟨_, hcreate, h⟩ := Option.map_eq_some_iff.mp hregister
  cases h
  obtain ⟨hnone, _, rfl⟩ := createAuditLog_eq_some hcreate
  refine ⟨⟨CreateAuditLog.vLog pTable, by simp, rfl⟩, hownLog, ?_, ?_, ?_⟩
  · simp [hempty hnone]
  · simp [hempty hnone]
  · simp [hempty hnone]

/-- **The registration** of an empty table: its log is there, and tells the empty history. -/
theorem logged_createAuditLog {tables : List SqlText} {calls : List (AuditCall R)}
    {pTable : SqlText} {db' : Database R J} {event : AuditEvent R}
    (hspares : ∀ call ∈ calls,
      Spares (CreateAuditLog.tableName pTable) (CreateAuditLog.logName pTable) call)
    (hregister : perform toJsonb (databaseAfter toJsonb tables calls) (.createAuditLog pTable) =
      some (db', event)) :
    Logged toJsonb (CreateAuditLog.tableName pTable) (CreateAuditLog.logName pTable) db' [] := by
  obtain ⟨hown, hempty⟩ := log_empty_run toJsonb tables calls hspares
  exact logged_of_perform hown hempty hregister

theorem databaseAfter_createAuditLog {tables : List SqlText} {before : List (AuditCall R)}
    {pTable : SqlText} {db' : Database R J} {event : AuditEvent R}
    (hregister : perform toJsonb (databaseAfter toJsonb tables before) (.createAuditLog pTable) =
      some (db', event)) (after : List (AuditCall R)) :
    databaseAfter toJsonb tables (before ++ .createAuditLog pTable :: after) =
      (auditMachine toJsonb).run db' after := by
  unfold databaseAfter
  rw [Machine.run_append, Machine.run_cons]
  exact congrArg (fun db => (auditMachine toJsonb).run db after)
    (congrArg Prod.fst (step_of_perform hregister))

end Pensar.Analysis.AuditedTable
