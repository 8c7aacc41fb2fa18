import Pensar.Analysis.AuditTrail
import Pensar.Analysis.EntityTimestamps
import Pensar.Computation.LifeCycle

/-!
# The life of an entity in the logs of the DAO classes

The rows of a log about one id tell one life: the row is inserted, each update finds what the last
change has left, and nothing comes after the delete, as an id is not handed out again.

Main result: `entity_life`.
-/

set_option autoImplicit false

namespace Pensar.Analysis.EntityLife

open Pensar.Computation
open Pensar.Interface
open Pensar.Model
open Pensar.Analysis.AuditReplay
open Pensar.Analysis.AuditTrail
open Pensar.Analysis.EntityTimestamps
open Pensar.Analysis.RowLocks
open AuditedContacts (triggered)

variable {V D J : Type} (server : Server V D J)

/-! ## The changes of a call about one id -/

/-- The changes of a call to the rows of a table. -/
def deedsOf (c : UserCall D) (changes : List (Change (Row V D))) : List (Deed (Row V D)) :=
  changes.map fun change => ⟨user server c, c.now, change⟩

theorem isAbout_eq {table : Table} {deed : Deed (Row V D)}
    (hold : ∀ r, deed.change.old? = some r → r.key.1 = table)
    (hnew : ∀ r, deed.change.new? = some r → r.key.1 = table) (id : ℤ) :
    isAbout server.idOf server.toJsonb id deed = deed.change.about Row.key (table, id) := by
  have hkey : ∀ o : Option (Row V D), (∀ r, o = some r → r.key.1 = table) →
      decide ((o.bind fun r => server.idOf (server.toJsonb r)) = some id) =
        o.any fun r => r.key = (table, id) := by
    intro o ho
    cases o with
    | none => rfl
    | some r =>
      rw [Option.bind_some, server.idOf_toJsonb, Option.any_some, decide_eq_decide, Prod.ext_iff,
        Option.some.injEq]
      exact (and_iff_right (ho r rfl)).symm
  unfold isAbout Change.about
  rw [hkey _ hnew, hkey _ hold, Bool.or_comm]

/-- **The rows of the log that a call writes about one id.** -/
theorem filter_touches_triggered {rows rows' : List (Row V D)}
    (hrows : Row.schema.Consistent rows) (hrows' : Row.schema.Consistent rows') (c : UserCall D)
    (table : Table) (id : ℤ) :
    (((triggered server c.call rows rows' table).map fun change =>
        logValues server.toJsonb ⟨user server c, c.now, change⟩).filter (touches server.idOf id)) =
      (deedsOf server c (changeAt Row.key (c.call.hit rows') (rowsOf table rows)
        (rowsOf table rows') (table, id))).map (logValues server.toJsonb) := by
  have htable : ∀ rows : List (Row V D), ∀ r ∈ rowsOf table rows, r.key.1 = table :=
    fun rows r hr => of_decide_eq_true (List.mem_filter.mp hr).2
  have hperm := server.order.perm
    (rowChanges Row.key (c.call.hit rows') (rowsOf table rows) (rowsOf table rows'))
  rw [← filter_about_of_perm (nodup_rowsOf hrows table) (nodup_rowsOf hrows' table) hperm, deedsOf,
    List.map_map, List.filter_map]
  congr 1
  refine List.filter_congr fun change hchange => ?_
  obtain ⟨hold, hnew⟩ := mem_rowChanges (hperm.subset hchange)
  show touches server.idOf id (logValues server.toJsonb ⟨_, _, change⟩) = _
  rw [touches_logValues_eq]
  exact isAbout_eq server (fun r hr => htable rows r (hold r hr))
    (fun r hr => htable rows' r (hnew r hr)) id

/-! ## Every run -/

/-- The ids that are there were handed out. -/
def IdsGranted (s : ContactTables V D) : Prop := ∀ k ∈ s.rows.map Row.key, k.2 ≤ s.lastId k.1

/-- What a log says about one id. -/
structure Lives [DecidableEq J] (s : AuditedContacts V D J) (table : Table) (id : ℤ)
    (deeds : List (Deed (Row V D))) : Prop where
  logged : (s.logs table).filter (touches server.idOf id) = deeds.map (logValues server.toJsonb)
  life : lifeOf (deeds.map fun deed => deed.change.map server.toJsonb) =
    some (lifeAt Row.key server.toJsonb (rowsOf table s.tables.rows) (table, id)
      (deeds.map (fun deed => deed.change.map server.toJsonb) ≠ []))
  born : deeds ≠ [] → id ≤ s.tables.lastId table

theorem mem_keys_rowsOf {rows : List (Row V D)} {table : Table} {id : ℤ} :
    (table, id) ∈ (rowsOf table rows).map Row.key ↔ (table, id) ∈ rows.map Row.key := by
  constructor
  · exact fun h => (List.filter_sublist.map Row.key).subset h
  · intro h
    obtain ⟨r, hr, hkey⟩ := List.mem_map.mp h
    have htable : decide (r.key.1 = table) = true := decide_eq_true (congrArg Prod.fst hkey)
    exact List.mem_map.mpr ⟨r, List.mem_filter.mpr ⟨hr, htable⟩, hkey⟩

theorem Lives.step [DecidableEq J] {s : AuditedContacts V D J} {table : Table} {id : ℤ}
    {deeds : List (Deed (Row V D))} (h : Lives server s table id deeds) (htrail : Trail server s)
    (hids : IdsGranted s.tables) (htable : table ∈ AUDITED) (c : UserCall D) :
    IdsGranted ((auditedContacts server).step s c).1.tables ∧
      ∃ deeds, Lives server ((auditedContacts server).step s c).1 table id deeds := by
  rcases step_cases server s c with heq | ⟨s', answer, heq, -, hbase, hlogs, -⟩
  · rw [heq]
    exact ⟨hids, deeds, h⟩
  rw [heq]
  have hchange := contactSystem_change server.ts server.dates s.tables c.call c.fate
  rw [hbase] at hchange
  have hrows := htrail.consistent
  have hrows' : Row.schema.Consistent s'.tables.rows := hchange.consistent hrows
  have hids' : IdsGranted s'.tables := hchange.ids hids
  have hgrown : (s.tables.lastId table : ℤ) ≤ s'.tables.lastId table := by
    exact_mod_cast hchange.lastId_le table
  refine ⟨hids', deeds ++ deedsOf server c (changeAt Row.key (c.call.hit s'.tables.rows)
    (rowsOf table s.tables.rows) (rowsOf table s'.tables.rows) (table, id)), ?_, ?_, ?_⟩
  · rw [hlogs table htable, List.filter_append, h.logged, List.map_append,
      filter_touches_triggered server hrows hrows']
  · have hmap : (deedsOf server c (changeAt Row.key (c.call.hit s'.tables.rows)
        (rowsOf table s.tables.rows) (rowsOf table s'.tables.rows) (table, id))).map
          (fun deed => deed.change.map server.toJsonb) =
        (changeAt Row.key (c.call.hit s'.tables.rows) (rowsOf table s.tables.rows)
          (rowsOf table s'.tables.rows) (table, id)).map (Change.map server.toJsonb) := by
      rw [deedsOf, List.map_map]
      rfl
    rw [List.map_append, hmap]
    refine lifeOf_rowChanges server.toJsonb (nodup_rowsOf hrows table) (nodup_rowsOf hrows' table)
      (fun r hr hmissed => ?_) (fun hthere habsent => ?_) h.life
    · obtain ⟨hmem, hkey⟩ := List.mem_filter.mp hr
      have hframe := mem_step server.ts server.dates hrows c.call c.fate hmem
      rw [hbase] at hframe
      exact List.mem_filter.mpr ⟨hframe hmissed, hkey⟩
    · rw [mem_keys_rowsOf] at hthere habsent
      have hgranted := (hchange.keys hthere).resolve_left habsent
      have hlt : (s.tables.lastId table : ℤ) < id := (hchange.grantedId hgranted).1
      by_contra hne
      exact absurd (h.born fun hnil => hne (by rw [hnil]; rfl)) (not_le.mpr hlt)
  · intro hne
    by_cases hdeeds : deeds = []
    · rw [hdeeds, List.nil_append, deedsOf, Ne, List.map_eq_nil_iff] at hne
      rcases mem_keys_of_changeAt hne with hthere | hthere
      · exact (hids _ (mem_keys_rowsOf.mp hthere)).trans hgrown
      · exact hids' _ (mem_keys_rowsOf.mp hthere)
    · exact (h.born hdeeds).trans hgrown

theorem lives_after [DecidableEq J] (calls : List (UserCall D)) {table : Table}
    (htable : table ∈ AUDITED) (id : ℤ) :
    ∃ deeds, Lives server (auditedAfter server calls) table id deeds := by
  have hrun := (auditedContacts server).run_invariant
    (fun s => Trail server s ∧ IdsGranted s.tables ∧ ∃ deeds, Lives server s table id deeds)
    (fun s c ⟨htrail, hids, deeds, hlives⟩ =>
      ⟨htrail.step server c, hlives.step server htrail hids htable c⟩)
    .installed calls
    ⟨trail_after server [], fun _ hk => absurd hk List.not_mem_nil, [], rfl, rfl, absurd rfl⟩
  exact hrun.2.2

/-! ## The answer of a log -/

/-- The life that rows of a log tell, `none` if one does not follow from those before it. -/
def lifeInLog [DecidableEq J] (rows : List (LogRow J)) : Option (Life J) :=
  (rows.mapM fun row => change? row.toLogValues).bind lifeOf

theorem lifeInLog_eq [DecidableEq J] {rows : List (LogRow J)} {deeds : List (Deed (Row V D))}
    (h : rows.map LogRow.toLogValues = deeds.map (logValues server.toJsonb)) :
    lifeInLog rows = lifeOf (deeds.map fun deed => deed.change.map server.toJsonb) := by
  have hchanges : (rows.mapM fun row => change? row.toLogValues) =
      some (deeds.map fun deed => deed.change.map server.toJsonb) := by
    rw [CrossTableSearch.mapM_eq_some_iff, ← Function.comp_def, ← List.map_map, h, List.map_map,
      List.map_map]
    exact List.map_congr_left fun deed _ => change?_logValues deed
  rw [lifeInLog, hchanges, Option.bind_some]

/-- **The life of an entity.**  After any calls, the rows of a log about an id follow one another
from the insert on, and lead to the row that the table has now, if it has one. -/
theorem entity_life [DecidableEq J] (calls : List (UserCall D)) (serial : Serial) {table : Table}
    (htable : table ∈ AUDITED) (id : ℤ) :
    ∃ life, lifeInLog ((inLogIdOrder ((auditedAfter server calls).logTable serial table)).filter
        fun row => touches server.idOf id row.toLogValues) = some life ∧
      ∀ j, life = .alive j ↔ ∃ r ∈ (auditedAfter server calls).tables.rows,
        r.key = (table, id) ∧ server.toJsonb r = j := by
  obtain ⟨deeds, hlives⟩ := lives_after server calls htable id
  have hrows := nodup_rowsOf (trail_after server calls).consistent table
  refine ⟨_, (lifeInLog_eq server ?_).trans hlives.life, fun j => ?_⟩
  · rw [inLogIdOrder_logTable, map_filter_logTable, hlives.logged]
  · rw [lifeAt_eq_alive_iff hrows]
    constructor
    · rintro ⟨r, hr, hkey, hj⟩
      exact ⟨r, (List.mem_filter.mp hr).1, hkey, hj⟩
    · rintro ⟨r, hr, hkey, hj⟩
      have htable : decide (r.key.1 = table) = true := decide_eq_true (congrArg Prod.fst hkey)
      exact ⟨r, List.mem_filter.mpr ⟨hr, htable⟩, hkey, hj⟩

open scoped Classical in
theorem entity_life_ana :
    ∃ life, lifeInLog ((inLogIdOrder ((auditedAfter plainServer anaComesAndGoes).logTable
        ⟨fun n => n, strictMono_id⟩ .tPerson)).filter fun row =>
          touches plainServer.idOf 1 row.toLogValues) = some life ∧
      ∀ j, life = .alive j ↔ ∃ r ∈ (auditedAfter plainServer anaComesAndGoes).tables.rows,
        r.key = (.tPerson, 1) ∧ plainServer.toJsonb r = j :=
  entity_life plainServer anaComesAndGoes ⟨fun n => n, strictMono_id⟩ (by decide) 1

end Pensar.Analysis.EntityLife
