import Pensar.Computation.Machine
import Pensar.Model.AuditedDatabase

/-!
# Histories of audited tables

Sessions begin transactions, change rows in them and end them, in any order of their statements.
A statement about a row that another transaction holds waits, so that it is a later step.  A
statement that waits or fails changes nothing.

The history of a table is what the sessions know of its changes, in the order in which they were
made: it does not look at the log.
-/

set_option autoImplicit false

namespace Pensar.Interface

open Pensar.Computation
open Pensar.Model

variable {R J : Type}

inductive AuditCall (R : Type) where
  | begin (x : Xid) (now : Timestamp)
  | createAuditLog (pTable : SqlText)
  | insert (x : Xid) (session : SessionUser) (table : SqlText) (new : R)
  | update (x : Xid) (session : SessionUser) (table : SqlText) (i : ℕ) (new : R)
  | delete (x : Xid) (session : SessionUser) (table : SqlText) (i : ℕ)
  | purge (pLogTable : SqlText) (pBefore : Timestamp)
  | commit (x : Xid)
  | rollback (x : Xid)

/-- A change of a row, with its user and the start of its transaction. -/
structure Deed (R : Type) where
  user : SqlText
  startedAt : Timestamp
  change : Change R
  deriving DecidableEq, Repr

/-- What the sessions learn from a call. -/
inductive AuditEvent (R : Type) where
  | changed (x : Xid) (table : SqlText) (deed : Deed R)
  | committed (x : Xid)
  | rolledBack (x : Xid)
  | nothing

/-- A change of the row in `cell`, the one at `i` of `cells`. -/
def changeStatement (toJsonb : R → J) (db : Database R J) (x : Xid) (session : SessionUser)
    (table : SqlText) (cells : List (Cell Xid R)) (i : ℕ) (cell : Cell Xid R) (op : Change R) :
    Option (Database R J × AuditEvent R) := do
  let now ← db.active.lookup x
  let db' ← db.changeRow toJsonb x now session table cells i cell op
  return (db', .changed x table ⟨session.vUser, now, op⟩)

/-- What a call does, `none` if it waits or fails. -/
def perform (toJsonb : R → J) (db : Database R J) :
    AuditCall R → Option (Database R J × AuditEvent R)
  | .begin x now => (db.begin x now).map (·, .nothing)
  | .createAuditLog pTable => (db.createAuditLog pTable).map (·, .nothing)
  | .insert x session table new =>
    if db.tables.contains table then
      changeStatement toJsonb db x session table (db.rows table ++ [Cell.blank])
        (db.rows table).length Cell.blank (.created new)
    else
      none
  | .update x session table i new => do
    let cell ← (db.rows table)[i]?
    let old ← cell.current x
    changeStatement toJsonb db x session table (db.rows table) i cell (.updated old new)
  | .delete x session table i => do
    let cell ← (db.rows table)[i]?
    let old ← cell.current x
    changeStatement toJsonb db x session table (db.rows table) i cell (.deleted old)
  | .purge pLogTable pBefore => some (db.fnPurgeAuditLog pLogTable pBefore, .nothing)
  | .commit x => (db.commit x).map (·, .committed x)
  | .rollback x => (db.rollback x).map (·, .rolledBack x)

def auditMachine (toJsonb : R → J) : Machine (Database R J) (AuditCall R) (AuditEvent R) where
  step db call := (perform toJsonb db call).getD (db, .nothing)

/-- The database after these calls. -/
def databaseAfter (toJsonb : R → J) (tables : List SqlText) (calls : List (AuditCall R)) :
    Database R J :=
  (auditMachine toJsonb).run (Database.start tables) calls

/-- The changes of a table, each with its transaction as long as that is open. -/
abbrev History (R : Type) := List (Tentative Xid (Deed R))

def record (table : SqlText) (history : History R) : AuditEvent R → History R
  | .changed x changed deed => if changed = table then history ++ [⟨some x, deed⟩] else history
  | .committed x => Tentative.commit x history
  | .rolledBack x => Tentative.rollback x history
  | .nothing => history

/-- The history of a table over a run. -/
def historyOf (table : SqlText) (events : List (AuditEvent R)) : History R :=
  events.foldl (record table) []

/-- The committed changes of a table. -/
def committedDeeds (history : History R) : List (Deed R) :=
  Tentative.visible (fun _ => false) history

/-! ## What a call does -/

theorem step_of_perform {toJsonb : R → J} {db : Database R J} {call : AuditCall R}
    {result : Database R J × AuditEvent R} (h : perform toJsonb db call = some result) :
    (auditMachine toJsonb).step db call = result := by
  simp [auditMachine, h]

theorem step_of_not_perform {toJsonb : R → J} {db : Database R J} {call : AuditCall R}
    (h : perform toJsonb db call = none) :
    (auditMachine toJsonb).step db call = (db, .nothing) := by
  simp [auditMachine, h]

/-- The row that the trigger inserts for a change. -/
def logValues (toJsonb : R → J) (deed : Deed R) : LogValues J where
  action := match deed.change with
    | .created _ => .C
    | .updated _ _ => .U
    | .deleted _ => .D
  actionBy := deed.user
  actionAt := deed.startedAt
  oldData := deed.change.old?.map toJsonb
  newData := deed.change.new?.map toJsonb

theorem fnAuditLog_eq_some {toJsonb : R → J} {session : SessionUser} {now : Timestamp}
    {op : Change R} {values : LogValues J} (h : fnAuditLog toJsonb session now op = some values) :
    values = logValues toJsonb ⟨session.vUser, now, op⟩ := by
  simp only [fnAuditLog, Option.ite_none_right_eq_some, Option.some.injEq] at h
  cases op <;> exact h.2.symm

/-- A change of the row in `cell`, which `x` sees as `op` says and which no other transaction
holds: it writes the cell, and the log if the table is audited. -/
structure RowChange (toJsonb : R → J) (db db' : Database R J) (x : Xid) (target : SqlText)
    (deed : Deed R) (cells : List (Cell Xid R)) (i : ℕ) (cell : Cell Xid R) : Prop where
  found : cells = db.rows target ∨ cells = db.rows target ++ [Cell.blank]
  position : cells[i]? = some cell
  free : cell.freeFor x = true
  old : cell.current x = deed.change.old?
  started : db.active.lookup x = some deed.startedAt
  active : db'.active = db.active
  triggers : db'.triggers = db.triggers
  rows : db'.rows = Function.update db.rows target (cells.set i (cell.write x deed.change.new?))
  unaudited : db.triggers.lookup target = none → db'.logs = db.logs
  audited : ∀ vLog, db.triggers.lookup target = some vLog →
    db'.logs = Function.update db.logs (identifier vLog)
      ((db.logs (identifier vLog)).insert x (logValues toJsonb deed))

/-- What a call that is carried out does. -/
inductive Performed (toJsonb : R → J) (db : Database R J) :
    AuditCall R → Database R J → AuditEvent R → Prop where
  | begin (x : Xid) (now : Timestamp) :
      Performed toJsonb db (.begin x now) { db with active := (x, now) :: db.active } .nothing
  | createAuditLog (pTable : SqlText)
      (hnone : db.triggers.lookup (CreateAuditLog.tableName pTable) = none)
      (hquiet : ∀ cell ∈ db.rows (CreateAuditLog.tableName pTable), cell.pending = none) :
      Performed toJsonb db (.createAuditLog pTable)
        { db with triggers :=
          (CreateAuditLog.tableName pTable, CreateAuditLog.vLog pTable) :: db.triggers } .nothing
  | change (call : AuditCall R) (db' : Database R J) (x : Xid) (target : SqlText) (deed : Deed R)
      (cells : List (Cell Xid R)) (i : ℕ) (cell : Cell Xid R)
      (hchange : RowChange toJsonb db db' x target deed cells i cell) :
      Performed toJsonb db call db' (.changed x target deed)
  | purge (pLogTable : SqlText) (pBefore : Timestamp) :
      Performed toJsonb db (.purge pLogTable pBefore) (db.fnPurgeAuditLog pLogTable pBefore)
        .nothing
  | commit (x : Xid) :
      Performed toJsonb db (.commit x)
        { db with
          active := db.active.filter fun open_ => open_.1 ≠ x
          rows := fun table => (db.rows table).map (Cell.commit x)
          logs := fun log => ⟨(db.logs log).lastId, Tentative.commit x (db.logs log).entries⟩ }
        (.committed x)
  | rollback (x : Xid) :
      Performed toJsonb db (.rollback x)
        { db with
          active := db.active.filter fun open_ => open_.1 ≠ x
          rows := fun table => (db.rows table).map (Cell.rollback x)
          logs := fun log => ⟨(db.logs log).lastId, Tentative.rollback x (db.logs log).entries⟩ }
        (.rolledBack x)

theorem rowChange_of_changeStatement {toJsonb : R → J} {db db' : Database R J} {x : Xid}
    {session : SessionUser} {target : SqlText} {cells : List (Cell Xid R)} {i : ℕ}
    {cell : Cell Xid R} {op : Change R} {event : AuditEvent R}
    (hcells : cells = db.rows target ∨ cells = db.rows target ++ [Cell.blank])
    (hcell : cells[i]? = some cell) (hold : cell.current x = op.old?)
    (h : changeStatement toJsonb db x session target cells i cell op = some (db', event)) :
    ∃ deed, event = .changed x target deed ∧
      RowChange toJsonb db db' x target deed cells i cell := by
  obtain ⟨now, hnow, h⟩ := Option.bind_eq_some_iff.mp h
  obtain ⟨db'', hchange, h⟩ := Option.bind_eq_some_iff.mp h
  cases h
  refine ⟨⟨session.vUser, now, op⟩, rfl, ?_⟩
  unfold Database.changeRow at hchange
  cases hfree : cell.freeFor x with
  | false => simp [hfree] at hchange
  | true =>
    simp only [hfree, if_true] at hchange
    cases hlookup : db.triggers.lookup target with
    | none =>
      simp only [hlookup, Option.some.injEq] at hchange
      subst hchange
      exact ⟨hcells, hcell, hfree, hold, hnow, rfl, rfl, rfl, fun _ => rfl, by simp [hlookup]⟩
    | some vLog =>
      simp only [hlookup, Option.map_eq_some_iff] at hchange
      obtain ⟨values, hvalues, rfl⟩ := hchange
      refine ⟨hcells, hcell, hfree, hold, hnow, rfl, rfl, rfl, by simp [hlookup], ?_⟩
      intro other hother
      rw [fnAuditLog_eq_some hvalues, Option.some.inj (hlookup.symm.trans hother)]

/-- A new audit log: the table had none, and nobody is changing it. -/
theorem createAuditLog_eq_some {db db' : Database R J} {pTable : SqlText}
    (h : db.createAuditLog pTable = some db') :
    db.triggers.lookup (CreateAuditLog.tableName pTable) = none ∧
      (∀ cell ∈ db.rows (CreateAuditLog.tableName pTable), cell.pending = none) ∧
      db' = { db with triggers :=
        (CreateAuditLog.tableName pTable, CreateAuditLog.vLog pTable) :: db.triggers } := by
  simp only [Database.createAuditLog, Option.ite_none_right_eq_some, Option.some.injEq,
    List.all_eq_true, Option.isNone_iff_eq_none] at h
  obtain ⟨⟨_, _, _, hnone, hquiet⟩, rfl⟩ := h
  exact ⟨hnone, hquiet, rfl⟩

/-- **The inversion of one call.** -/
theorem performed_of_perform {toJsonb : R → J} {db db' : Database R J} {call : AuditCall R}
    {event : AuditEvent R} (h : perform toJsonb db call = some (db', event)) :
    Performed toJsonb db call db' event := by
  have hchange : ∀ {x session target cells i cell op},
      cells = db.rows target ∨ cells = db.rows target ++ [Cell.blank] →
      cells[i]? = some cell → cell.current x = op.old? →
      changeStatement toJsonb db x session target cells i cell op = some (db', event) →
      Performed toJsonb db call db' event := by
    intro x session target cells i cell op hcells hcell hold h
    obtain ⟨deed, rfl, hrow⟩ := rowChange_of_changeStatement hcells hcell hold h
    exact .change call db' x target deed cells i cell hrow
  cases call with
  | begin x now =>
    simp only [perform, Database.begin, Option.map_eq_some_iff, Option.ite_none_left_eq_some,
      Option.some.injEq, Prod.mk.injEq] at h
    obtain ⟨_, ⟨_, rfl⟩, rfl, rfl⟩ := h
    exact .begin x now
  | createAuditLog pTable =>
    obtain ⟨_, hcreate, h⟩ := Option.map_eq_some_iff.mp h
    cases h
    obtain ⟨hnone, hquiet, rfl⟩ := createAuditLog_eq_some hcreate
    exact .createAuditLog pTable hnone hquiet
  | insert x session target new =>
    simp only [perform, Option.ite_none_right_eq_some] at h
    exact hchange (Or.inr rfl) (by simp) rfl h.2
  | update x session target i new =>
    obtain ⟨cell, hcell, h⟩ := Option.bind_eq_some_iff.mp h
    obtain ⟨old, hold, h⟩ := Option.bind_eq_some_iff.mp h
    exact hchange (Or.inl rfl) hcell hold h
  | delete x session target i =>
    obtain ⟨cell, hcell, h⟩ := Option.bind_eq_some_iff.mp h
    obtain ⟨old, hold, h⟩ := Option.bind_eq_some_iff.mp h
    exact hchange (Or.inl rfl) hcell hold h
  | purge pLogTable pBefore =>
    cases h
    exact .purge pLogTable pBefore
  | commit x =>
    simp only [perform, Database.commit, Option.map_eq_some_iff, Option.ite_none_right_eq_some,
      Option.some.injEq, Prod.mk.injEq] at h
    obtain ⟨_, ⟨_, rfl⟩, rfl, rfl⟩ := h
    exact .commit x
  | rollback x =>
    simp only [perform, Database.rollback, Option.map_eq_some_iff, Option.ite_none_right_eq_some,
      Option.some.injEq, Prod.mk.injEq] at h
    obtain ⟨_, ⟨_, rfl⟩, rfl, rfl⟩ := h
    exact .rollback x

/-! ## One table and its log -/

/-- `table` is audited, and its trigger writes to `log`. -/
def Audits (db : Database R J) (table log : SqlText) : Prop :=
  ∃ vLog, db.triggers.lookup table = some vLog ∧ identifier vLog = log

/-- No other table writes to `log`. -/
def OwnLog (db : Database R J) (table log : SqlText) : Prop :=
  ∀ other vLog, db.triggers.lookup other = some vLog → identifier vLog = log → other = table

/-- No call registers another table with the same log, and none purges the log. -/
def Spares (table log : SqlText) : AuditCall R → Prop
  | .createAuditLog pTable =>
    CreateAuditLog.logName pTable = log → CreateAuditLog.tableName pTable = table
  | .purge pLogTable _ => identifier pLogTable ≠ log
  | _ => True

/-- What a call does to a table and its log, and what the sessions learn. -/
inductive TableStep (toJsonb : R → J) (db db' : Database R J) (table log : SqlText) :
    AuditEvent R → Prop where
  | changed (x : Xid) (deed : Deed R) (cells : List (Cell Xid R)) (i : ℕ) (cell : Cell Xid R)
      (hchange : RowChange toJsonb db db' x table deed cells i cell)
      (hrows : db'.rows table = cells.set i (cell.write x deed.change.new?))
      (hlog : db'.logs log = (db.logs log).insert x (logValues toJsonb deed)) :
      TableStep toJsonb db db' table log (.changed x table deed)
  | committed (x : Xid) (hrows : db'.rows table = (db.rows table).map (Cell.commit x))
      (hlog : db'.logs log = ⟨(db.logs log).lastId, Tentative.commit x (db.logs log).entries⟩) :
      TableStep toJsonb db db' table log (.committed x)
  | rolledBack (x : Xid) (hrows : db'.rows table = (db.rows table).map (Cell.rollback x))
      (hlog : db'.logs log = ⟨(db.logs log).lastId, Tentative.rollback x (db.logs log).entries⟩) :
      TableStep toJsonb db db' table log (.rolledBack x)
  | elsewhere (event : AuditEvent R)
      (hrecord : ∀ history, record table history event = history)
      (hrows : db'.rows table = db.rows table) (hlog : db'.logs log = db.logs log) :
      TableStep toJsonb db db' table log event

/-- A change of another table leaves the log alone. -/
theorem logs_of_rowChange {toJsonb : R → J} {db db' : Database R J} {x : Xid} {target : SqlText}
    {deed : Deed R} {cells : List (Cell Xid R)} {i : ℕ} {cell : Cell Xid R}
    (hchange : RowChange toJsonb db db' x target deed cells i cell) {log : SqlText}
    (hother : ∀ vLog, db.triggers.lookup target = some vLog → identifier vLog ≠ log) :
    db'.logs log = db.logs log := by
  cases hlookup : db.triggers.lookup target with
  | none => rw [hchange.unaudited hlookup]
  | some vLog =>
    rw [hchange.audited vLog hlookup, Function.update_of_ne (Ne.symm (hother vLog hlookup))]

/-- **One call**, seen from a table that has its log for itself. -/
theorem tableStep_of_performed {toJsonb : R → J} {db db' : Database R J} {table log : SqlText}
    (haudits : Audits db table log) (hown : OwnLog db table log) {call : AuditCall R}
    (hspares : Spares table log call) {event : AuditEvent R}
    (h : Performed toJsonb db call db' event) : TableStep toJsonb db db' table log event := by
  cases h with
  | begin x now => exact .elsewhere _ (fun _ => rfl) rfl rfl
  | createAuditLog pTable hnone hquiet => exact .elsewhere _ (fun _ => rfl) rfl rfl
  | change _ _ x target deed cells i cell hchange =>
    by_cases htable : target = table
    · subst htable
      obtain ⟨vLog, hlookup, rfl⟩ := haudits
      refine .changed x deed cells i cell hchange ?_ ?_
      · rw [hchange.rows, Function.update_self]
      · rw [hchange.audited vLog hlookup, Function.update_self]
    · refine .elsewhere _ (fun _ => if_neg htable) ?_ ?_
      · rw [hchange.rows, Function.update_of_ne (Ne.symm htable)]
      · apply logs_of_rowChange hchange
        intro vLog hlookup hlog
        exact htable (hown target vLog hlookup hlog)
  | purge pLogTable pBefore =>
    exact .elsewhere _ (fun _ => rfl) rfl (Function.update_of_ne (Ne.symm hspares) _ _)
  | commit x => exact .committed x rfl rfl
  | rollback x => exact .rolledBack x rfl rfl

/-- A call keeps the triggers, but for a new one of a table that had none. -/
theorem lookup_of_performed {toJsonb : R → J} {db db' : Database R J} {call : AuditCall R}
    {event : AuditEvent R} (h : Performed toJsonb db call db' event) (table : SqlText) :
    db'.triggers.lookup table = db.triggers.lookup table ∨
      ∃ pTable, call = .createAuditLog pTable ∧ table = CreateAuditLog.tableName pTable ∧
        db.triggers.lookup table = none ∧
        db'.triggers.lookup table = some (CreateAuditLog.vLog pTable) := by
  cases h with
  | createAuditLog pTable hnone _ =>
    by_cases htable : table = CreateAuditLog.tableName pTable
    · subst htable
      exact Or.inr ⟨pTable, rfl, rfl, hnone, by simp⟩
    · left
      rw [List.lookup_cons, beq_false_of_ne htable]
  | begin x now => exact Or.inl rfl
  | change _ _ x target deed cells i cell hchange => exact Or.inl (by rw [hchange.triggers])
  | purge pLogTable pBefore => exact Or.inl rfl
  | commit x => exact Or.inl rfl
  | rollback x => exact Or.inl rfl

theorem audits_of_performed {toJsonb : R → J} {db db' : Database R J} {table log : SqlText}
    {call : AuditCall R} {event : AuditEvent R} (haudits : Audits db table log)
    (h : Performed toJsonb db call db' event) : Audits db' table log := by
  obtain ⟨vLog, hlookup, hlog⟩ := haudits
  refine ⟨vLog, ?_, hlog⟩
  rcases lookup_of_performed h table with hsame | ⟨_, _, _, hnone, _⟩
  · rw [hsame, hlookup]
  · simp [hlookup] at hnone

theorem ownLog_of_performed {toJsonb : R → J} {db db' : Database R J} {table log : SqlText}
    {call : AuditCall R} {event : AuditEvent R} (hown : OwnLog db table log)
    (hspares : Spares table log call) (h : Performed toJsonb db call db' event) :
    OwnLog db' table log := by
  intro other vLog hlookup hlog
  rcases lookup_of_performed h other with hsame | ⟨pTable, rfl, rfl, _, hnew⟩
  · exact hown other vLog (hsame ▸ hlookup) hlog
  · rw [hnew] at hlookup
    cases hlookup
    exact hspares hlog

/-- The log of a table that is not audited yet. -/
theorem log_empty_of_performed {toJsonb : R → J} {db db' : Database R J} {table log : SqlText}
    (hown : OwnLog db table log) (hnone : db.triggers.lookup table = none)
    (hempty : db.logs log = ⟨0, []⟩) {call : AuditCall R} {event : AuditEvent R}
    (h : Performed toJsonb db call db' event) : db'.logs log = ⟨0, []⟩ := by
  cases h with
  | begin x now => exact hempty
  | createAuditLog pTable hnone hquiet => exact hempty
  | change _ _ x target deed cells i cell hchange =>
    rw [logs_of_rowChange hchange, hempty]
    intro vLog hlookup hlog
    rw [hown target vLog hlookup hlog, hnone] at hlookup
    exact absurd hlookup (by simp)
  | purge pLogTable pBefore =>
    by_cases hlog : identifier pLogTable = log
    · subst hlog
      simp [Database.fnPurgeAuditLog, hempty]
    · exact (Function.update_of_ne (Ne.symm hlog) _ _).trans hempty
  | commit x => simp [hempty, Tentative.commit]
  | rollback x => simp [hempty, Tentative.rollback]

end Pensar.Interface
