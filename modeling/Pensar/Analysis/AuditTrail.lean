import Pensar.Analysis.AuditReplay
import Pensar.Analysis.ContactRemoval
import Pensar.Analysis.CrossTableSearch
import Pensar.Analysis.PersonRegister
import Pensar.Model.AuditedContacts

/-!
# The audit trail of the DAO classes

Every change of a row of an audited table is in the log of the table, also of the rows that go with
a row that is removed.  So from the logs alone the tables can be had back as they were after any of
the calls.

Main result: `audit_trail_recovers`.
-/

set_option autoImplicit false

namespace Pensar.Analysis.AuditTrail

open Pensar.Computation
open Pensar.Interface
open Pensar.Model
open Pensar.Analysis.AuditReplay
open AuditedContacts (session triggered written)

variable {V D J : Type}

/-! ## Rows that a call does not come to -/

section Missed

variable {s : ContactTables V D} {r : Row V D}

theorem mem_insertRow (hr : r ∈ s.rows) (table : Table) (build : ℤ → Option (Row V D))
    {after : List (Row V D) → List (Row V D)} (hafter : ∀ rows, r ∈ rows → r ∈ after rows)
    (fate : Fate) : r ∈ (s.insertRow table build after fate).1.rows := by
  rcases s.insertRow_cases table build after fate with ⟨new, rows, -, -, hrows, heq⟩ | ⟨-, heq⟩
  · obtain ⟨-, -, rfl⟩ := Row.schema.insert_eq_some_iff.mp hrows
    rw [heq]
    exact hafter _ (List.mem_append_left _ hr)
  · rw [heq]
    exact hr

theorem mem_insertOwned (hr : r ∈ s.rows) (table : Table) (personId orgUnitId : ℤ)
    (build : ℤ → ContactOwner → Option (Row V D)) (fate : Fate) :
    r ∈ (s.insertOwned table personId orgUnitId build fate).1.rows := by
  unfold ContactTables.insertOwned
  cases ContactDAO.owner personId orgUnitId with
  | none => exact hr
  | some o => exact mem_insertRow hr table _ (fun _ h => h) fate

theorem mem_updateRow (hr : r ∈ s.rows) {key : RowKey} {change : Row V D → Option (Row V D)}
    (hchange : ∀ old new, change old = some new → new.key = key) (hkey : r.key ≠ key)
    (fate : Fate) : r ∈ (s.updateRow key change fate).1.rows := by
  rcases s.updateRow_cases key change fate with
    ⟨old, new, rows, -, -, hnew, hrows, heq⟩ | ⟨-, -, heq⟩ | ⟨-, heq⟩
  · obtain ⟨-, rfl⟩ := Row.schema.update_eq_some_iff.mp hrows
    rw [heq]
    refine (Row.schema.mem_replace_iff).mpr (Or.inr ⟨hr, ?_⟩)
    show r.key ≠ new.key
    rwa [hchange old new hnew]
  · rw [heq]
    exact hr
  · rw [heq]
    exact hr

theorem mem_removeRow (hrows : Row.schema.Consistent s.rows) (hr : r ∈ s.rows) {key : RowKey}
    {fate : Fate} (hkept : r.key ∈ (s.removeRow key fate).1.rows.map Row.key)
    (hweak : ∀ k ∈ r.weak, k ∈ (s.removeRow key fate).1.rows.map Row.key) :
    r ∈ (s.removeRow key fate).1.rows := by
  rcases s.removeRow_cases key fate with ⟨-, heq⟩ | ⟨-, heq⟩
  · rw [heq] at hkept hweak ⊢
    change r.key ∈ (Row.schema.delete s.rows key).map Row.key at hkept
    change ∀ k ∈ r.weak, k ∈ (Row.schema.delete s.rows key).map Row.key at hweak
    show r ∈ Row.schema.delete s.rows key
    have hleft : ∀ k ∈ (Row.schema.delete s.rows key).map Row.key, ∃ x ∈ s.rows,
        ¬ DependsOn s.rows key x ∧ x.key = k := by
      intro k hk
      rw [delete_eq_filter hrows, List.map_map] at hk
      obtain ⟨x, hx, hxkey⟩ := List.mem_map.mp hk
      obtain ⟨hmem, hdepends⟩ := List.mem_filter.mp hx
      have hxkey : (detach key x).key = k := hxkey
      rw [detach, show (x.setNull _).key = x.key from Row.schema.key_setNull _ x] at hxkey
      exact ⟨x, hmem, of_decide_eq_true hdepends, hxkey⟩
    have hself : detach key r = r := by
      refine Row.setNull_eq_self _ r fun k hk => decide_eq_false ?_
      rintro rfl
      obtain ⟨x, -, hdepends, hxkey⟩ := hleft _ (hweak k hk)
      exact hdepends (Or.inl hxkey)
    obtain ⟨x, hx, hdepends, hxkey⟩ := hleft _ hkept
    obtain rfl : x = r := List.inj_on_of_nodup_map hrows.keys hx hr hxkey
    rw [delete_eq_filter hrows]
    exact List.mem_map.mpr ⟨x, List.mem_filter.mpr ⟨hx, decide_eq_true hdepends⟩, hself⟩
  · rw [heq]
    exact hr

/-- **The frame of a call**: the other rows are as they were. -/
theorem mem_step (ts : TextSearch V) (dates : DateText D) (hrows : Row.schema.Consistent s.rows)
    (call : DaoCall D) (fate : Fate) (hr : r ∈ s.rows)
    (hmissed : call.hit ((contactSystem ts dates).step s (call, fate)).1.rows r = false) :
    r ∈ ((contactSystem ts dates).step s (call, fate)).1.rows := by
  simp only [DaoCall.hit, Bool.or_eq_false_iff, decide_eq_false_iff_not, not_not,
    List.any_eq_false, Bool.not_eq_true] at hmissed
  obtain ⟨⟨hupdated, hkept⟩, hweak⟩ := hmissed
  cases call with
  | updatePerson p =>
    refine mem_updateRow hr (fun _ new h => ?_) (fun hkey => hupdated (congrArg some hkey.symm)) fate
    obtain ⟨row, hrow, rfl⟩ := Option.map_eq_some_iff.mp h
    exact congrArg (Prod.mk _) ((PersonDAO.row_eq_some_iff ts dates).mp hrow).1
  | updateOrgUnit o =>
    refine mem_updateRow hr (fun _ new h => ?_) (fun hkey => hupdated (congrArg some hkey.symm)) fate
    obtain ⟨_, -, rfl⟩ := Option.map_eq_some_iff.mp h
    rfl
  | insertLocalized loc =>
    refine mem_insertRow hr _ _ (fun rows h => List.mem_map.mpr ⟨r, h, ?_⟩) fate
    cases r with
    | orgUnit o =>
      have hid : o.id ≠ loc.orgUnitId := by
        rintro hid
        exact hupdated (congrArg (fun id => some (Table.tOrgUnit, id)) hid.symm)
      exact congrArg Row.orgUnit (if_neg hid)
    | _ => rfl
  | insertPhone | insertEmail | insertAddress => exact mem_insertOwned hr _ _ _ _ fate
  | insertVisibility v =>
    show r ∈ (s.insertVisibility v fate).1.rows
    unfold ContactTables.insertVisibility
    cases VisibilityDAO.viewer v with
    | none => exact hr
    | some viewer => exact mem_insertRow hr _ _ (fun _ h => h) fate
  | insertPerson | insertOrgUnit | insertRole | insertLocalizedRole | insertPersonOrgRelation
  | assignRole => exact mem_insertRow hr _ _ (fun _ h => h) fate
  | _ => exact mem_removeRow hrows hr hkept hweak

end Missed

/-! ## What a call writes -/

section Calls

variable (server : Server V D J)

/-- The user in the logs. -/
def user (c : UserCall D) : SqlText := (session server c.username).vUser

theorem eq_of_mapM_fnAuditLog {toJsonb : Row V D → J} {session : SessionUser} {now : Timestamp}
    {changes : List (Change (Row V D))} {values : List (LogValues J)}
    (h : changes.mapM (fnAuditLog toJsonb session now) = some values) :
    values = changes.map fun change => logValues toJsonb ⟨session.vUser, now, change⟩ := by
  rw [CrossTableSearch.mapM_eq_some_iff] at h
  induction changes generalizing values with
  | nil => exact List.map_eq_nil_iff.mp h.symm
  | cons change changes ih =>
    cases values with
    | nil => cases h
    | cons value values =>
      obtain ⟨hvalue, hvalues⟩ := List.cons.inj h
      rw [List.map_cons, ← fnAuditLog_eq_some hvalue, ← ih hvalues]

/-- **What a call does to the tables and the logs.** -/
theorem step_cases (s : AuditedContacts V D J) (c : UserCall D) :
    (auditedContacts server).step s c = (s, .threw) ∨
      ∃ s' answer, (auditedContacts server).step s c = (s', answer) ∧ answer ≠ .threw ∧
        (contactSystem server.ts server.dates).step s.tables (c.call, c.fate) =
          (s'.tables, answer) ∧
        (∀ table ∈ AUDITED, s'.logs table = s.logs table ++
          (triggered server c.call s.tables.rows s'.tables.rows table).map fun change =>
            logValues server.toJsonb ⟨user server c, c.now, change⟩) ∧
        ∀ table ∉ AUDITED, s'.logs table = s.logs table := by
  obtain ⟨⟨tables, answer⟩, hbase⟩ : ∃ base, base =
      (contactSystem server.ts server.dates).step s.tables (c.call, c.fate) := ⟨_, rfl⟩
  have hstep : answer ≠ .threw → (auditedContacts server).step s c =
      if AUDITED.all fun table => (written server c s.tables.rows tables.rows table).isSome then
        (⟨tables, fun table => if table ∈ AUDITED then s.logs table ++
          (written server c s.tables.rows tables.rows table).getD [] else s.logs table⟩, answer)
      else (s, .threw) := by
    intro hanswer
    dsimp only [auditedContacts]
    rw [← hbase]
    cases answer with
    | threw => exact absurd rfl hanswer
    | _ => rfl
  by_cases hanswer : answer = .threw
  · left
    dsimp only [auditedContacts]
    rw [← hbase, hanswer]
  rw [hstep hanswer]
  split
  · next hwritten =>
    refine Or.inr ⟨_, answer, rfl, hanswer, hbase.symm, fun table htable => ?_,
      fun table htable => ?_⟩
    · obtain ⟨values, hvalues⟩ :=
        Option.isSome_iff_exists.mp (List.all_eq_true.mp hwritten table htable)
      show (if table ∈ AUDITED then _ else _) = _
      rw [if_pos htable, hvalues, Option.getD_some, eq_of_mapM_fnAuditLog hvalues]
      rfl
    · exact if_neg htable
  · exact Or.inl rfl

end Calls

/-! ## Every run -/

section Runs

variable (server : Server V D J)

/-- The tables and the logs after those calls. -/
def auditedAfter (calls : List (UserCall D)) : AuditedContacts V D J :=
  (auditedContacts server).run .installed calls

/-- What is kept of the constraints and the logs. -/
structure Trail [DecidableEq J] (s : AuditedContacts V D J) : Prop where
  consistent : Row.schema.Consistent s.tables.rows
  told : ∀ table ∈ AUDITED, ∃ deeds : List (Deed (Row V D)),
    s.logs table = deeds.map (logValues server.toJsonb) ∧
      Change.replay 0 (deeds.map fun deed => deed.change.map server.toJsonb) =
        some ((rowsOf table s.tables.rows : Multiset (Row V D)).map server.toJsonb)

theorem nodup_rowsOf {rows : List (Row V D)} (hrows : Row.schema.Consistent rows) (table : Table) :
    ((rowsOf table rows).map Row.key).Nodup :=
  hrows.keys.sublist (List.filter_sublist.map _)

theorem Trail.step [DecidableEq J] {s : AuditedContacts V D J} (h : Trail server s)
    (c : UserCall D) : Trail server ((auditedContacts server).step s c).1 := by
  rcases step_cases server s c with heq | ⟨s', answer, heq, -, hbase, hlogs, -⟩
  · rw [heq]
    exact h
  rw [heq]
  have hchange := contactSystem_change server.ts server.dates s.tables c.call c.fate
  rw [hbase] at hchange
  have hrows := hchange.consistent h.consistent
  refine ⟨hrows, fun table htable => ?_⟩
  obtain ⟨deeds, hdeeds, hreplay⟩ := h.told table htable
  refine ⟨deeds ++ (triggered server c.call s.tables.rows s'.tables.rows table).map fun change =>
    ⟨user server c, c.now, change⟩, ?_, ?_⟩
  · rw [hlogs table htable, hdeeds, List.map_append, List.map_map]
    rfl
  · rw [List.map_append, List.map_map]
    refine Change.replay_rowChanges server.toJsonb (nodup_rowsOf h.consistent table)
      (nodup_rowsOf hrows table) (fun r hr hmissed => ?_) (server.order.perm _) hreplay
    obtain ⟨hmem, htable⟩ := List.mem_filter.mp hr
    refine List.mem_filter.mpr ⟨?_, htable⟩
    have hframe := mem_step server.ts server.dates h.consistent c.call c.fate hmem
    rw [hbase] at hframe
    exact hframe hmissed

theorem trail_after [DecidableEq J] (calls : List (UserCall D)) :
    Trail server (auditedAfter server calls) := by
  refine (auditedContacts server).run_invariant (Trail server) (fun s c h => h.step server c) _
    calls ⟨Row.schema.consistent_nil, fun table _ => ⟨[], rfl, ?_⟩⟩
  rfl

/-- A log only grows. -/
theorem exists_log_append (s : AuditedContacts V D J) (calls : List (UserCall D)) (table : Table) :
    ∃ later, ((auditedContacts server).run s calls).logs table = s.logs table ++ later := by
  induction calls generalizing s with
  | nil => exact ⟨[], (List.append_nil _).symm⟩
  | cons c calls ih =>
    obtain ⟨later, hlater⟩ := ih ((auditedContacts server).step s c).1
    rw [Machine.run_cons, hlater]
    rcases step_cases server s c with heq | ⟨s', answer, heq, -, -, hlogs, hother⟩
    · rw [heq]
      exact ⟨later, rfl⟩
    · rw [heq]
      by_cases htable : table ∈ AUDITED
      · rw [hlogs table htable, List.append_assoc]
        exact ⟨_, rfl⟩
      · rw [hother table htable]
        exact ⟨later, rfl⟩

/-! ## Recovery -/

theorem map_toLogValues_logTable (s : AuditedContacts V D J) (serial : Serial) (table : Table) :
    (s.logTable serial table).map LogRow.toLogValues = s.logs table := by
  unfold AuditedContacts.logTable
  rw [List.map_map]
  exact List.zipIdx_map_fst 0 _

theorem map_filter_logTable (s : AuditedContacts V D J) (serial : Serial) (table : Table)
    (p : LogValues J → Bool) :
    ((s.logTable serial table).filter fun row => p row.toLogValues).map LogRow.toLogValues =
      (s.logs table).filter p := by
  rw [← map_toLogValues_logTable s serial table, List.filter_map]
  rfl

theorem inLogIdOrder_logTable (s : AuditedContacts V D J) (serial : Serial) (table : Table) :
    inLogIdOrder (s.logTable serial table) = s.logTable serial table := by
  refine List.mergeSort_of_pairwise (List.pairwise_map.mpr ?_)
  refine (List.pairwise_iff_getElem.mpr fun i j hi hj hij => ?_)
  simpa using serial.strictMono.monotone hij.le

/-- **The audit trail of the DAO classes.**  After any calls, the first rows of a log, in the order
of their ids, replay to the rows that its table had when they were all: so the tables can be had
back as they were after any of the calls. -/
theorem audit_trail_recovers [DecidableEq J] (calls : List (UserCall D)) (n : ℕ) (serial : Serial)
    {table : Table} (htable : table ∈ AUDITED) :
    replayLog ((inLogIdOrder ((auditedAfter server calls).logTable serial table)).take
        ((auditedAfter server (calls.take n)).logs table).length) =
      some ((rowsOf table (auditedAfter server (calls.take n)).tables.rows :
        Multiset (Row V D)).map server.toJsonb) := by
  obtain ⟨deeds, hdeeds, hreplay⟩ := (trail_after server (calls.take n)).told table htable
  obtain ⟨later, hlater⟩ :=
    exists_log_append server (auditedAfter server (calls.take n)) (calls.drop n) table
  rw [inLogIdOrder_logTable, ← hreplay]
  refine replayLog_eq_replay ?_
  have hall : (auditedAfter server calls).logs table =
      (auditedAfter server (calls.take n)).logs table ++ later := by
    rw [← hlater, auditedAfter, auditedAfter, ← Machine.run_append, List.take_append_drop]
  rw [List.map_take, map_toLogValues_logTable, hall, List.take_left, hdeeds]

end Runs

/-! ## A person that is inserted and removed -/

/-- The rows are their own JSON values, and come to the trigger as they are. -/
def plainServer : Server SqlText {text : SqlText // text ≠ []}
    (Row SqlText {text : SqlText // text ≠ []}) where
  ts := plainSearch
  dates := writtenDates
  toJsonb r := r
  idOf r := some r.key.2
  idOf_toJsonb _ := rfl
  databaseUser := "pensar".toList
  order := ⟨fun changes => changes, List.Perm.refl, fun _ => List.pairwise_of_forall (by simp)⟩

def anaComesAndGoes : List (UserCall {text : SqlText // text ≠ []}) :=
  [{ call := .insertPerson ana, now := 1 }, { call := .removePerson 1, now := 2 }]

open scoped Classical in
theorem audit_trail_recovers_ana :
    replayLog ((inLogIdOrder ((auditedAfter plainServer anaComesAndGoes).logTable
        ⟨fun n => n, strictMono_id⟩ .tPerson)).take
        ((auditedAfter plainServer (anaComesAndGoes.take 1)).logs .tPerson).length) =
      some ((rowsOf .tPerson (auditedAfter plainServer (anaComesAndGoes.take 1)).tables.rows :
        Multiset (Row SqlText {text : SqlText // text ≠ []})).map plainServer.toJsonb) :=
  audit_trail_recovers plainServer anaComesAndGoes 1 ⟨fun n => n, strictMono_id⟩ (by decide)

end Pensar.Analysis.AuditTrail
