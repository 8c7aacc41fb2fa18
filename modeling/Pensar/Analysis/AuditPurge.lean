import Pensar.Analysis.AuditedTable
import Pensar.Interface.AuditArchive

/-!
# The log of an audited table that is purged

Purges run between the statements of other sessions.  A purge does not see the rows of transactions
that are open, whenever these began; what it answers is what is missing from the log afterwards.

Main result: `purged_log_is_archive`.
-/

set_option autoImplicit false

namespace Pensar.Analysis.AuditPurge

open Pensar.Computation
open Pensar.Model
open Pensar.Interface
open Pensar.Analysis.AuditedTable

variable {R J : Type} {toJsonb : R → J} {table log : SqlText}

/-! ## Accounts -/

/-- Whoever commits, the changes of the table are those that the archive keeps and those that the
purges have taken. -/
def Accounts (history : History R) (archive : Archive R) : Prop :=
  ∀ A : Xid → Bool, (Tentative.visible A history).Perm
    (Tentative.visible A archive.kept ++ archive.purged)

theorem Accounts.record {history : History R} {archive : Archive R} (h : Accounts history archive)
    (table : SqlText) (event : AuditEvent R) :
    Accounts (record table history event)
      { archive with kept := record table archive.kept event } := by
  intro A
  cases event with
  | changed x target deed =>
    unfold Interface.record
    by_cases htarget : target = table
    · simp only [htarget, if_true, Tentative.visible_append]
      have hmiddle := List.perm_append_comm_assoc (Tentative.visible A archive.kept)
        (Tentative.visible A [⟨some x, deed⟩]) archive.purged
      rw [List.append_assoc]
      exact List.perm_append_comm.trans (((h A).append_left _).trans hmiddle.symm)
    · simp only [htarget, if_false]
      exact h A
  | committed x =>
    show (Tentative.visible A (Tentative.commit x history)).Perm
      (Tentative.visible A (Tentative.commit x archive.kept) ++ archive.purged)
    rw [Tentative.visible_commit, Tentative.visible_commit]
    exact h (including A x)
  | rolledBack x =>
    show (Tentative.visible A (Tentative.rollback x history)).Perm
      (Tentative.visible A (Tentative.rollback x archive.kept) ++ archive.purged)
    rw [Tentative.visible_rollback, Tentative.visible_rollback]
    exact h (excluding A x)
  | nothing => exact h A

theorem Accounts.purge {history : History R} {archive : Archive R} (h : Accounts history archive)
    (pBefore : Timestamp) : Accounts history (archive.purge pBefore) := by
  intro A
  have htaken := Tentative.visible_perm_expired A
    (fun deed : Deed R => decide (deed.startedAt < pBefore)) archive.kept
  have hswap := htaken.append_right archive.purged
  rw [List.append_assoc] at hswap
  exact (h A).trans (hswap.trans (List.perm_append_comm.append_left _))

/-! ## The log and the archive -/

/-- The log of `table` holds what the archive keeps, and the purges have said what they took. -/
structure Archived (toJsonb : R → J) (table log : SqlText) (db : Database R J)
    (history : History R) (archive : Archive R) (deleted : ℕ) : Prop where
  logged : Logged toJsonb table log db archive.kept
  accounts : Accounts history archive
  deleted : deleted = archive.purged.length

/-- The rows of the log that a purge deletes are those of the changes that it takes. -/
theorem Archived.entries_expired {db : Database R J} {history : History R} {archive : Archive R}
    {deleted : ℕ} (h : Archived toJsonb table log db history archive deleted)
    (pBefore : Timestamp) (keep : Bool) :
    ((db.logs log).entries.filter fun entry =>
        entry.expired (fun row => decide (row.actionAt < pBefore)) == keep).map
          (Tentative.map LogRow.toLogValues) =
      (archive.kept.filter fun entry =>
        entry.expired (fun deed => decide (deed.startedAt < pBefore)) == keep).map
          (Tentative.map (logValues toJsonb)) := by
  have hfilter := congrArg (List.filter fun entry =>
    entry.expired (fun values => decide (values.actionAt < pBefore)) == keep) h.logged.told
  rw [List.filter_map, List.filter_map] at hfilter
  exact hfilter

theorem Archived.vCount_eq {db : Database R J} {history : History R} {archive : Archive R}
    {deleted : ℕ} {pLogTable : SqlText}
    (h : Archived toJsonb table (identifier pLogTable) db history archive deleted)
    (pBefore : Timestamp) :
    db.vCount pLogTable pBefore = (archive.kept.filter
      (Tentative.expired fun deed => decide (deed.startedAt < pBefore))).length := by
  have hlength := congrArg List.length (h.entries_expired pBefore true)
  rw [List.length_map, List.length_map] at hlength
  simp only [beq_true] at hlength
  rw [← hlength, ← List.countP_eq_length_filter]
  rfl

theorem logs_fnPurgeAuditLog (db : Database R J) (pLogTable : SqlText) (pBefore : Timestamp) :
    (db.fnPurgeAuditLog pLogTable pBefore).logs (identifier pLogTable) =
      ⟨(db.logs (identifier pLogTable)).lastId,
        (db.logs (identifier pLogTable)).entries.filter fun entry =>
          entry.expired (fun row => decide (row.actionAt < pBefore)) == false⟩ := by
  have hkept : ∀ entry : Tentative Xid (LogRow J),
      (entry.writer.isSome || decide (pBefore ≤ entry.item.actionAt)) =
        (entry.expired (fun row => decide (row.actionAt < pBefore)) == false) := by
    intro entry
    unfold Tentative.expired
    cases entry.writer with
    | none =>
      by_cases hlt : entry.item.actionAt < pBefore
      · simp [hlt, not_le.mpr hlt]
      · simp [hlt, not_lt.mp hlt]
    | some x => rfl
  simp only [← hkept]
  exact Function.update_self _ _ _

/-- A purge of the log. -/
theorem Archived.purge {db : Database R J} {history : History R} {archive : Archive R}
    {deleted : ℕ} {pLogTable : SqlText}
    (h : Archived toJsonb table (identifier pLogTable) db history archive deleted)
    (pBefore : Timestamp) :
    Archived toJsonb table (identifier pLogTable) (db.fnPurgeAuditLog pLogTable pBefore) history
      (archive.purge pBefore) (deleted + db.vCount pLogTable pBefore) := by
  have hlogs := logs_fnPurgeAuditLog db pLogTable pBefore
  have hsublist : (((db.fnPurgeAuditLog pLogTable pBefore).logs (identifier pLogTable)).entries.map
      Tentative.item).Sublist ((db.logs (identifier pLogTable)).entries.map Tentative.item) := by
    rw [hlogs]
    exact List.filter_sublist.map _
  refine ⟨⟨h.logged.audits, h.logged.own, ?_, ?_, ?_⟩, h.accounts.purge pBefore, ?_⟩
  · have hkept := h.entries_expired pBefore false
    rw [hlogs, hkept]
    simp only [beq_false]
    rfl
  · exact h.logged.increasing.sublist hsublist
  · intro row hrow
    rw [hlogs]
    exact h.logged.bounded row (hsublist.subset hrow)
  · rw [h.deleted, h.vCount_eq, Archive.purge, List.length_append, List.length_map]

/-- The rest of the calls are no purges of the log. -/
theorem Archived.spared {db : Database R J} {history : History R} {archive : Archive R}
    {deleted : ℕ} (h : Archived toJsonb table log db history archive deleted)
    {call : AuditCall R} (hspares : Spares table log call) :
    Archived toJsonb table log ((auditMachine toJsonb).step db call).1
      (record table history ((auditMachine toJsonb).step db call).2)
      { archive with kept := record table archive.kept ((auditMachine toJsonb).step db call).2 }
      deleted where
  logged := logged_step h.logged hspares
  accounts := h.accounts.record table _
  deleted := h.deleted

/-- **One call.** -/
theorem Archived.step {db : Database R J} {history : History R} {archive : Archive R}
    {deleted : ℕ} (h : Archived toJsonb table log db history archive deleted)
    {call : AuditCall R} (hapart : Apart table log call) :
    Archived toJsonb table log ((replyMachine toJsonb).step db call).1
      (record table history ((replyMachine toJsonb).step db call).2.event)
      (archive.note table log ((replyMachine toJsonb).step db call).2)
      (deleted + deletedFrom log ((replyMachine toJsonb).step db call).2) := by
  cases call with
  | purge pLogTable pBefore =>
    show Archived toJsonb table log (db.fnPurgeAuditLog pLogTable pBefore) history
      (if identifier pLogTable = log then archive.purge pBefore else archive)
      (deleted + if identifier pLogTable = log then db.vCount pLogTable pBefore else 0)
    by_cases hlog : identifier pLogTable = log
    · subst hlog
      rw [if_pos rfl, if_pos rfl]
      exact h.purge pBefore
    · have hspares : Spares table log (.purge pLogTable pBefore : AuditCall R) := hlog
      rw [if_neg hlog, if_neg hlog]
      exact h.spared hspares
  | _ => exact h.spared hapart

/-- **The log holds what the archive keeps**, over every run. -/
theorem Archived.run {db : Database R J} {history : History R} {archive : Archive R}
    {deleted : ℕ} (h : Archived toJsonb table log db history archive deleted)
    (calls : List (AuditCall R)) (hapart : ∀ call ∈ calls, Apart table log call) :
    Archived toJsonb table log ((auditMachine toJsonb).run db calls)
      (((auditMachine toJsonb).outputs db calls).foldl (record table) history)
      (((replyMachine toJsonb).outputs db calls).foldl (Archive.note table log) archive)
      (deleted + (((replyMachine toJsonb).outputs db calls).map (deletedFrom log)).sum) := by
  induction calls generalizing db history archive deleted with
  | nil => exact h
  | cons call calls ih =>
    have hnext := ih (h.step (hapart call List.mem_cons_self)) fun c hc =>
      hapart c (List.mem_cons_of_mem call hc)
    rw [add_assoc] at hnext
    exact hnext

/-! ## The registration -/

theorem ownLog_of_apart (toJsonb : R → J) {db : Database R J} (hown : OwnLog db table log)
    {call : AuditCall R} (hapart : Apart table log call) :
    OwnLog ((auditMachine toJsonb).step db call).1 table log := by
  cases call with
  | purge pLogTable pBefore => exact hown
  | _ => exact ownLog_step toJsonb hown hapart

/-- A table that nobody registered has an empty log, whatever was purged. -/
theorem log_empty_of_apart (toJsonb : R → J) (tables : List SqlText) (calls : List (AuditCall R))
    (hapart : ∀ call ∈ calls, Apart table log call) :
    OwnLog (databaseAfter toJsonb tables calls) table log ∧
      ((databaseAfter toJsonb tables calls).triggers.lookup table = none →
        (databaseAfter toJsonb tables calls).logs log = ⟨0, []⟩) := by
  have hrun := (auditMachine toJsonb).observed_invariant (fun _ _ => ())
    (fun db _ => OwnLog db table log ∧ (db.triggers.lookup table = none → db.logs log = ⟨0, []⟩))
    (fun _ call => Apart table log call) ?_ (Database.start tables) () calls
    (((auditMachine toJsonb).along_const_iff _ _ _).mpr hapart) ?_
  · exact hrun
  · rintro db _ call ⟨hown, hempty⟩ hcall
    refine ⟨ownLog_of_apart toJsonb hown hcall, fun hnone => ?_⟩
    rcases step_cases toJsonb db call with h | ⟨db', event, h, hperformed⟩
    · rw [h] at hnone ⊢
      exact hempty hnone
    · rw [h] at hnone ⊢
      have hbefore : db.triggers.lookup table = none := by
        rcases lookup_of_performed hperformed table with hsame | ⟨_, _, _, hbefore, _⟩
        · rw [← hsame, hnone]
        · exact hbefore
      exact log_empty_of_performed hown hbefore (hempty hbefore) hperformed
  · refine ⟨fun other vLog hlookup => ?_, fun _ => rfl⟩
    simp [Database.start] at hlookup

/-- **A log that is purged is an archive.**  Of a registered table whose log no other table is
registered with, the log holds, in the order of their ids, the committed changes that no purge has
taken; nothing else is missing, and what the purges answered is how many they have taken. -/
theorem purged_log_is_archive (toJsonb : R → J) (tables : List SqlText)
    (before after : List (AuditCall R)) (pTable : SqlText)
    (hregistered : (perform toJsonb (databaseAfter toJsonb tables before)
      (.createAuditLog pTable)).isSome)
    (hapart : ∀ call ∈ before ++ after,
      Apart (CreateAuditLog.tableName pTable) (CreateAuditLog.logName pTable) call) :
    ((databaseAfter toJsonb tables (before ++ .createAuditLog pTable :: after)).committedLog
          (CreateAuditLog.logName pTable)).map LogRow.toLogValues =
        (committedDeeds (archiveAfter toJsonb tables before after pTable).kept).map
          (logValues toJsonb) ∧
      ((databaseAfter toJsonb tables (before ++ .createAuditLog pTable :: after)).committedLog
        (CreateAuditLog.logName pTable)).Pairwise (fun a b => a.logId < b.logId) ∧
      (committedDeeds (historyAfter toJsonb tables before after pTable)).Perm
        (committedDeeds (archiveAfter toJsonb tables before after pTable).kept ++
          (archiveAfter toJsonb tables before after pTable).purged) ∧
      deletedAfter toJsonb tables before after pTable =
        (archiveAfter toJsonb tables before after pTable).purged.length := by
  have hbefore : ∀ call ∈ before, _ := fun call h => hapart call (List.mem_append_left after h)
  have hafter : ∀ call ∈ after, _ := fun call h => hapart call (List.mem_append_right before h)
  obtain ⟨⟨db, event⟩, hregister⟩ := Option.isSome_iff_exists.mp hregistered
  obtain ⟨hown, hempty⟩ := log_empty_of_apart toJsonb tables before hbefore
  have hstart : Archived toJsonb (CreateAuditLog.tableName pTable) (CreateAuditLog.logName pTable)
      db [] .empty 0 :=
    ⟨logged_of_perform hown hempty hregister, fun _ => List.Perm.refl _, rfl⟩
  have hend := hstart.run after hafter
  have hdb : databaseAfter toJsonb tables (before ++ [.createAuditLog pTable]) = db :=
    databaseAfter_createAuditLog hregister []
  rw [databaseAfter_createAuditLog hregister]
  unfold historyAfter deletedAfter archiveAfter repliesAfter
  rw [hdb, outputs_replyMachine]
  refine ⟨visible_log hend.logged _, ?_, hend.accounts _, ?_⟩
  · exact hend.logged.increasing.sublist (Tentative.visible_sublist (fun _ => false) _)
  · exact (Nat.zero_add _).symm.trans hend.deleted

/-! ## A purge beside an open transaction -/

/-- The first transaction is still open when the log is purged, and a second one has ended. -/
def purgedCalls : List (AuditCall ℕ) :=
  [.begin 1 0, .insert 1 ⟨none, ['a']⟩ "t_person".toList 7, .begin 2 1,
    .insert 2 ⟨none, ['b']⟩ "t_person".toList 8, .commit 2, .purge "t_log_person".toList 5,
    .commit 1]

theorem purged_log_is_archive_person :
    ((databaseAfter (id : ℕ → ℕ) ["t_person".toList]
          ([] ++ .createAuditLog "T_Person".toList :: purgedCalls)).committedLog
            (CreateAuditLog.logName "T_Person".toList)).map LogRow.toLogValues =
        (committedDeeds (archiveAfter id ["t_person".toList] [] purgedCalls
          "T_Person".toList).kept).map (logValues id) ∧
      ((databaseAfter (id : ℕ → ℕ) ["t_person".toList]
        ([] ++ .createAuditLog "T_Person".toList :: purgedCalls)).committedLog
          (CreateAuditLog.logName "T_Person".toList)).Pairwise (fun a b => a.logId < b.logId) ∧
      (committedDeeds (historyAfter (id : ℕ → ℕ) ["t_person".toList] [] purgedCalls
          "T_Person".toList)).Perm
        (committedDeeds (archiveAfter id ["t_person".toList] [] purgedCalls
            "T_Person".toList).kept ++
          (archiveAfter id ["t_person".toList] [] purgedCalls "T_Person".toList).purged) ∧
      deletedAfter (id : ℕ → ℕ) ["t_person".toList] [] purgedCalls "T_Person".toList =
        (archiveAfter id ["t_person".toList] [] purgedCalls "T_Person".toList).purged.length :=
  purged_log_is_archive id _ _ _ _ (by decide +kernel) (by simp [Apart, purgedCalls])

end Pensar.Analysis.AuditPurge
