import Pensar.Analysis.ContactRemoval
import Pensar.Analysis.SearchVectors
import Pensar.Computation.TopRows
import Pensar.Interface.UnitRegister

/-!
# `OrgDAO` is a register of units

The units that the tables hold, as they are read, are those of the register.

Main results: `orgDAO_refines_register`, `updateOrgUnit_unmodified`.
-/

set_option autoImplicit false

namespace Pensar.Analysis

open Pensar.Computation
open Pensar.Interface
open Pensar.Model
open ContactTables (orgUnitDto)

variable {V D : Type}

/-! ## Rows and units -/

/-- The unit that a row stands for. -/
def rowUnit (r : Row V D) : Option OrgUnitDTO := r.orgUnit?.map orgUnitDto

theorem filterMap_rowUnit (rows : List (Row V D)) :
    rows.filterMap rowUnit = (Row.select Row.orgUnit? rows).map orgUnitDto :=
  List.map_filterMap.symm

theorem rowUnit_eq_some {r : Row V D} {u : OrgUnitDTO} (h : rowUnit r = some u) :
    ∃ o, r = .orgUnit o ∧ orgUnitDto o = u := by
  obtain ⟨o, ho, rfl⟩ := Option.map_eq_some_iff.mp h
  cases r with
  | orgUnit r =>
    cases ho
    exact ⟨o, rfl, rfl⟩
  | _ => cases ho

theorem Refreshes.rowUnit {f : Row V D → Row V D} (hf : Refreshes f) (r : Row V D) :
    rowUnit (f r) = rowUnit r :=
  hf.kind_eq (fun _ _ => rfl) r

theorem mem_keys_orgUnit {rows : List (Row V D)} {id : ℤ} :
    (Table.tOrgUnit, id) ∈ rows.map Row.key ↔ ∃ u ∈ rows.filterMap rowUnit, u.id = id := by
  constructor
  · intro h
    obtain ⟨r, hr, hkey⟩ := List.mem_map.mp h
    cases r with
    | orgUnit o =>
      exact ⟨orgUnitDto o, List.mem_filterMap.mpr ⟨_, hr, rfl⟩, congrArg Prod.snd hkey⟩
    | _ => cases congrArg Prod.fst hkey
  · rintro ⟨u, hu, rfl⟩
    obtain ⟨r, hr, hru⟩ := List.mem_filterMap.mp hu
    obtain ⟨o, rfl, rfl⟩ := rowUnit_eq_some hru
    exact List.mem_map.mpr ⟨_, hr, rfl⟩

/-! ## Rows that are deleted -/

/-- A unit depends on itself alone. -/
theorem dependsOn_unit_iff {rows : List (Row V D)} {o : OrgUnit V} {k : RowKey} :
    DependsOn rows k (.orgUnit o) ↔ k = (.tOrgUnit, o.id) := by
  unfold DependsOn
  constructor
  · rintro (hk | hk | ⟨q, -, -, hq⟩)
    · exact hk.symm
    · cases hk
    · cases hq
  · rintro rfl
    exact Or.inl rfl

theorem rowUnit_detach (id : ℤ) (r : Row V D) :
    rowUnit (detach (.tOrgUnit, id) r) = (rowUnit r).map (UnitRegister.orphaned id) := by
  cases r with
  | orgUnit o =>
    refine congrArg some ?_
    unfold UnitRegister.orphaned orgUnitDto
    cases hparent : o.parentId with
    | none =>
      by_cases hid : (0 : ℤ) = id <;> simp [hid]
    | some p =>
      by_cases hid : p = id <;> simp [Option.filter, hid]
  | _ => rfl

/-- **The units that a delete leaves.** -/
theorem units_delete {rows : List (Row V D)} (hrows : Row.schema.Consistent rows) (id : ℤ) :
    (Row.schema.delete rows (.tOrgUnit, id)).filterMap rowUnit =
      ((rows.filterMap rowUnit).filter fun u => u.id ≠ id).map (UnitRegister.orphaned id) := by
  rw [delete_eq_filter hrows, List.filterMap_map,
    show rowUnit ∘ detach (V := V) (D := D) (.tOrgUnit, id) =
      fun r => (rowUnit r).map (UnitRegister.orphaned id) from funext (rowUnit_detach id),
    ← List.map_filterMap]
  refine congrArg _ (filterMap_filter_of fun r _ u hu => ?_)
  obtain ⟨o, rfl, rfl⟩ := rowUnit_eq_some hu
  rw [decide_eq_decide, dependsOn_unit_iff, Prod.mk.injEq]
  simp [orgUnitDto, eq_comm]

theorem units_delete_other {rows : List (Row V D)} (hrows : Row.schema.Consistent rows)
    {k : RowKey} (hk : k.1 ≠ .tOrgUnit) :
    (Row.schema.delete rows k).filterMap rowUnit = rows.filterMap rowUnit := by
  rw [delete_eq_filter hrows, List.filterMap_map]
  have hdetach : ∀ r : Row V D, (rowUnit ∘ detach k) r = rowUnit r := by
    intro r
    cases r with
    | orgUnit o =>
      have hparent : (o.parentId.filter fun id => !decide ((Table.tOrgUnit, id) = k)) =
          o.parentId := by
        cases o.parentId with
        | none => rfl
        | some id =>
          have hne : (Table.tOrgUnit, id) ≠ k := fun h => hk (congrArg Prod.fst h).symm
          simp [Option.filter, hne]
      exact congrArg some (congrArg (fun p => orgUnitDto { o with parentId := p }) hparent)
    | _ => rfl
  rw [show rowUnit ∘ detach k = rowUnit (V := V) (D := D) from funext hdetach,
    filterMap_filter_of (q := fun _ => true)]
  · exact List.filter_true _
  · intro r _ u hu
    obtain ⟨o, rfl, rfl⟩ := rowUnit_eq_some hu
    rw [decide_eq_true_iff, dependsOn_unit_iff]
    exact fun h => hk (congrArg Prod.fst h)

/-- A call that writes another table leaves the units as they are read. -/
theorem TableChange.units {s s' : ContactTables V D} {table : Table} {answer : ContactAnswer}
    (h : TableChange s table s' answer) (hs : Row.schema.Consistent s.rows)
    (ht : table ≠ .tOrgUnit) : s'.rows.filterMap rowUnit = s.rows.filterMap rowUnit := by
  have hnone : ∀ r : Row V D, r.key.1 = table → rowUnit r = none := by
    intro r hr
    cases r with
    | orgUnit o => exact absurd hr.symm ht
    | _ => rfl
  cases h with
  | same => rfl
  | insert id new rows f _ hkey hrows hf =>
    obtain ⟨-, -, rfl⟩ := Row.schema.insert_eq_some_iff.mp hrows
    show ((s.rows ++ [new]).map f).filterMap rowUnit = _
    rw [List.filterMap_map, show rowUnit ∘ f = rowUnit from funext hf.rowUnit,
      List.filterMap_append, List.filterMap_cons_none (hnone new (congrArg Prod.fst hkey))]
    exact List.append_nil _
  | update new rows hkey hrows =>
    obtain ⟨-, rfl⟩ := Row.schema.update_eq_some_iff.mp hrows
    show (Row.schema.replace s.rows new).filterMap rowUnit = _
    unfold Schema.replace
    rw [List.filterMap_map]
    refine List.filterMap_congr fun r _ => ?_
    rw [Function.comp_apply]
    split
    · next hsame =>
      have hrkey : r.key = new.key := hsame
      rw [hnone new hkey, hnone r (hrkey ▸ hkey)]
    · rfl
  | delete id => exact units_delete_other hs (k := (table, id)) ht

/-! ## The tables hold the units of the register -/

structure KeepsUnits (s : ContactTables V D) (m : UnitRegister) : Prop where
  consistent : Row.schema.Consistent s.rows
  ids : ∀ k ∈ s.rows.map Row.key, k.2 ≤ s.lastId k.1
  lastId : s.lastId .tOrgUnit = m.lastId
  units : s.rows.filterMap rowUnit = m.units

section Keeps

variable {ts : TextSearch V} {s : ContactTables V D} {m : UnitRegister}

theorem KeepsUnits.find_isSome_iff (h : KeepsUnits s m) (id : ℤ) :
    (m.find id).isSome ↔ (Table.tOrgUnit, id) ∈ s.rows.map Row.key := by
  rw [mem_keys_orgUnit, h.units, UnitRegister.find, List.find?_isSome]
  simp only [decide_eq_true_eq]

/-! ## The row of a unit -/

theorem columns_eq_some_iff {o : OrgUnitDTO} {orgType : SqlText} {taxId : Option SqlText} :
    OrgDAO.columns o = some (orgType, taxId) ↔
      varchar 20 o.orgType = some orgType ∧ nullable (varchar 20) o.federalTaxId = some taxId := by
  have hcolumns : OrgDAO.columns o = (do
      let orgType ← varchar 20 o.orgType
      let taxId ← nullable (varchar 20) o.federalTaxId
      pure (orgType, taxId)) := by
    unfold OrgDAO.columns nullable
    cases nullIfEmpty o.federalTaxId with
    | none => rfl
    | some text =>
      show (varchar 20 o.orgType).bind (fun orgType => (varchar 20 text).bind fun taxId =>
          some (orgType, some taxId)) = (varchar 20 o.orgType).bind fun orgType =>
            ((varchar 20 text).map some).bind fun taxId => some (orgType, taxId)
      simp only [Option.bind_map, Function.comp_def]
  rw [hcolumns]
  simp only [Option.bind_eq_bind, Option.bind_eq_some_iff, Option.pure_def, Option.some.injEq,
    Prod.mk.injEq]
  constructor
  · rintro ⟨_, htype, _, htax, rfl, rfl⟩
    exact ⟨htype, htax⟩
  · rintro ⟨htype, htax⟩
    exact ⟨_, htype, _, htax, rfl, rfl⟩

/-- What the columns hold if every value fits. -/
theorem orgUnitRow_eq_some_iff {o : OrgUnitDTO} {id : ℤ} {new : Row V D} :
    s.orgUnitRow ts o id = some new ↔
      ∃ u : OrgUnit V, new = .orgUnit u ∧ u.id = id ∧ u.parentId = OrgDAO.parent o ∧
        varchar 20 o.orgType = some u.orgType ∧
        nullable (varchar 20) o.federalTaxId = some u.federalTaxId ∧
        o.isActive = u.isActive ∧ nullIfEmpty o.keywords = u.keywords ∧
        u.searchVector = some (unitVector ts s.rows u) := by
  unfold ContactTables.orgUnitRow
  rw [Option.map_eq_some_iff]
  constructor
  · rintro ⟨⟨orgType, taxId⟩, hcolumns, rfl⟩
    obtain ⟨htype, htax⟩ := columns_eq_some_iff.mp hcolumns
    exact ⟨_, rfl, rfl, rfl, htype, htax, rfl, rfl, rfl⟩
  · rintro ⟨u, rfl, rfl, hparent, htype, htax, hactive, hkeywords, hvector⟩
    refine ⟨(u.orgType, u.federalTaxId), columns_eq_some_iff.mpr ⟨htype, htax⟩, ?_⟩
    refine congrArg Row.orgUnit (OrgUnit.ext rfl hparent.symm rfl rfl hactive hkeywords ?_)
    rw [hvector, unitVector, ← hkeywords]
    rfl

theorem parent_getD (o : OrgUnitDTO) : (OrgDAO.parent o).getD 0 = o.parentId := by
  unfold OrgDAO.parent
  split
  · next h => exact h.symm
  · rfl

/-- **What is kept of a unit** is what its row reads back as, if there is such a type. -/
theorem kept_of_row {o : OrgUnitDTO} {id : ℤ} {u : OrgUnit V}
    (h : s.orgUnitRow ts o id = some (.orgUnit u)) :
    UnitRegister.kept o id =
      if ORG_TYPES.contains u.orgType then some (orgUnitDto u) else none := by
  obtain ⟨u, ⟨⟩, rfl, hparent, htype, htax, hactive, hkeywords, -⟩ := orgUnitRow_eq_some_iff.mp h
  have htaxId : varchar 20 o.federalTaxId = some (u.federalTaxId.getD []) := by
    rw [← nullable_varchar_getD, htax, Option.map_some]
  have hdto : orgUnitDto u =
      { o with id := u.id, orgType := u.orgType, federalTaxId := u.federalTaxId.getD [] } := by
    unfold orgUnitDto
    rw [hparent, parent_getD, ← hkeywords, nullIfEmpty_getD, hactive]
  unfold UnitRegister.kept
  rw [htype, htaxId, hdto]
  rfl

theorem kept_eq_none {o : OrgUnitDTO} {id : ℤ} (h : s.orgUnitRow ts o id = none) :
    UnitRegister.kept o id = none := by
  unfold UnitRegister.kept
  rw [← nullable_varchar_getD 20 o.federalTaxId]
  cases htype : varchar 20 o.orgType with
  | none => rfl
  | some orgType =>
    cases htax : nullable (varchar 20) o.federalTaxId with
    | none => rfl
    | some taxId =>
      have hcolumns := columns_eq_some_iff.mpr ⟨htype, htax⟩
      rw [ContactTables.orgUnitRow, hcolumns] at h
      cases h

/-- **When a unit is accepted**: there is such a type, and its parent is there. -/
theorem KeepsUnits.accepts_iff (h : KeepsUnits s m) {o : OrgUnitDTO} {id : ℤ} {u : OrgUnit V}
    (hu : s.orgUnitRow ts o id = some (.orgUnit u)) :
    Row.schema.Accepts s.rows (.orgUnit u) ↔ ORG_TYPES.contains u.orgType ∧
      (o.parentId = 0 ∨ o.parentId = id ∨ (m.find o.parentId).isSome) := by
  obtain ⟨u, ⟨⟩, rfl, hparent, htype, htax, -⟩ := orgUnitRow_eq_some_iff.mp hu
  have hcheck : (Row.orgUnit u : Row V D).check = true ↔ ORG_TYPES.contains u.orgType := by
    simp [Row.check, length_varchar htype, length_of_nullable htax]
  have hweak : (∀ k ∈ Row.orgUnits u.parentId,
      k = (Table.tOrgUnit, u.id) ∨ k ∈ s.rows.map Row.key) ↔
        (o.parentId = 0 ∨ o.parentId = u.id ∨ (m.find o.parentId).isSome) := by
    rw [h.find_isSome_iff, hparent]
    unfold Row.orgUnits OrgDAO.parent
    by_cases hzero : o.parentId = 0
    · simp [hzero]
    · simp [hzero]
  unfold Schema.Accepts
  constructor
  · rintro ⟨hrefers, -, hvalid⟩
    exact ⟨hcheck.mp hvalid, hweak.mp hrefers⟩
  · rintro ⟨htypes, hrefers⟩
    exact ⟨hweak.mpr hrefers, fun _ hunique => absurd hunique List.not_mem_nil, hcheck.mpr htypes⟩

/-- What is admitted to the register is what the row that is built reads back as. -/
theorem KeepsUnits.admitted_eq (h : KeepsUnits s m) {o : OrgUnitDTO} {id : ℤ} {u : OrgUnit V}
    (hu : s.orgUnitRow ts o id = some (.orgUnit u))
    (haccepts : Row.schema.Accepts s.rows (.orgUnit u)) :
    m.admitted o id = some (orgUnitDto u) := by
  obtain ⟨htypes, hparent⟩ := (h.accepts_iff hu).mp haccepts
  obtain ⟨u, ⟨⟩, -, hparentId, -⟩ := orgUnitRow_eq_some_iff.mp hu
  unfold UnitRegister.admitted
  rw [kept_of_row hu, if_pos htypes]
  refine Option.filter_some_pos (decide_eq_true ?_)
  rw [show (orgUnitDto u).parentId = o.parentId from
    (congrArg (·.getD 0) hparentId).trans (parent_getD o)]
  exact hparent

theorem KeepsUnits.admitted_eq_none (h : KeepsUnits s m) {o : OrgUnitDTO} {id : ℤ}
    (hrefused : ∀ new, s.orgUnitRow ts o id = some new → ¬ Row.schema.Accepts s.rows new) :
    m.admitted o id = none := by
  unfold UnitRegister.admitted
  cases hrow : s.orgUnitRow ts o id with
  | none => rw [kept_eq_none hrow, Option.filter_none]
  | some new =>
    obtain ⟨u, rfl, -, hparentId, -⟩ := orgUnitRow_eq_some_iff.mp hrow
    rw [kept_of_row hrow]
    split
    · next htypes =>
      refine Option.filter_some_neg ?_
      rw [show (orgUnitDto u).parentId = o.parentId from
        (congrArg (·.getD 0) hparentId).trans (parent_getD o), decide_eq_false_iff_not]
      exact fun hparent => hrefused _ hrow ((h.accepts_iff hrow).mpr ⟨htypes, hparent⟩)
    · exact Option.filter_none _

/-! ## Calls -/

/-- A row that is replaced by that of a unit. -/
theorem units_replace (rows : List (Row V D)) (u : OrgUnit V) :
    (Row.schema.replace rows (.orgUnit u)).filterMap rowUnit =
      (rows.filterMap rowUnit).map fun v => if v.id = u.id then orgUnitDto u else v := by
  unfold Schema.replace
  rw [List.filterMap_map, List.map_filterMap]
  refine List.filterMap_congr fun r _ => ?_
  rw [Function.comp_apply]
  cases r with
  | orgUnit o =>
    have hkey : Row.schema.key (Row.orgUnit o : Row V D) =
        Row.schema.key (Row.orgUnit u : Row V D) ↔ o.id = u.id :=
      ⟨congrArg Prod.snd, congrArg (Prod.mk Table.tOrgUnit)⟩
    by_cases hid : o.id = u.id
    · rw [if_pos (hkey.mpr hid)]
      exact congrArg some (if_pos hid).symm
    · rw [if_neg (mt hkey.mp hid)]
      exact congrArg some (if_neg hid).symm
  | _ => rw [if_neg (fun hkey => by cases congrArg Prod.fst hkey)]; rfl

theorem orgUnitRow_key {o : OrgUnitDTO} {id : ℤ} {new : Row V D}
    (h : s.orgUnitRow ts o id = some new) : new.key = (.tOrgUnit, id) := by
  obtain ⟨u, rfl, rfl, -⟩ := orgUnitRow_eq_some_iff.mp h
  rfl

theorem KeepsUnits.of_other {s' : ContactTables V D} (h : KeepsUnits s m) {table : Table}
    {answer : ContactAnswer} (hchange : TableChange s table s' answer) (ht : table ≠ .tOrgUnit) :
    KeepsUnits s' m where
  consistent := hchange.consistent h.consistent
  ids := hchange.ids h.ids
  lastId := (hchange.lastId_of_ne ht.symm).trans h.lastId
  units := (hchange.units h.consistent ht).trans h.units

variable (ts) in
theorem KeepsUnits.insert (h : KeepsUnits s m) (o : OrgUnitDTO) (fate : Fate) :
    KeepsUnits (s.insertOrgUnit ts o fate).1 (m.insert o fate).1 ∧
      (s.insertOrgUnit ts o fate).2 = (m.insert o fate).2 := by
  have hchange : TableChange s .tOrgUnit (s.insertOrgUnit ts o fate).1
      (s.insertOrgUnit ts o fate).2 :=
    insertRow_change_id s .tOrgUnit (fun _ _ => orgUnitRow_key) fate
  have hid : m.lastId + fate.skipped + 1 = s.nextId .tOrgUnit fate := by
    rw [ContactTables.nextId, h.lastId]
  rcases s.insertRow_cases .tOrgUnit (s.orgUnitRow ts o) id fate with
    ⟨new, rows, hfate, hnew, hrows, heq⟩ | ⟨hrefused, heq⟩
  · obtain ⟨u, rfl, -⟩ := orgUnitRow_eq_some_iff.mp hnew
    obtain ⟨-, haccepts, rfl⟩ := Row.schema.insert_eq_some_iff.mp hrows
    have hregister : m.insert o fate =
        (⟨m.units ++ [orgUnitDto u], s.nextId .tOrgUnit fate⟩,
          .inserted (s.nextId .tOrgUnit fate)) := by
      unfold UnitRegister.insert
      rw [hid, hfate]
      simp [h.admitted_eq hnew haccepts]
    rw [show s.insertOrgUnit ts o fate = _ from heq] at hchange ⊢
    rw [hregister]
    refine ⟨⟨hchange.consistent h.consistent, hchange.ids h.ids, by simp, ?_⟩, rfl⟩
    show (s.rows ++ [Row.orgUnit u]).filterMap rowUnit = _
    rw [List.filterMap_append, h.units]
    rfl
  · have hnone : (if fate.refused then none else m.admitted o (s.nextId .tOrgUnit fate)) =
        none := by
      cases hfate : fate.refused with
      | true => rfl
      | false =>
        have hnew := hrefused.resolve_left (by simp [hfate])
        have hnot : ∀ new, s.orgUnitRow ts o (s.nextId .tOrgUnit fate) = some new →
            ¬ Row.schema.Accepts s.rows new := by
          intro new hrow haccepts
          have hkey : new.key ∉ s.rows.map Row.key := by
            rw [orgUnitRow_key hrow]
            intro hmem
            have hle := h.ids _ hmem
            unfold ContactTables.nextId at hle
            push_cast at hle
            omega
          have hsome : Row.schema.insert s.rows new = some _ :=
            Row.schema.insert_eq_some_iff.mpr ⟨hkey, haccepts, rfl⟩
          rw [hnew _ hrow] at hsome
          cases hsome
        exact h.admitted_eq_none hnot
    have hregister : m.insert o fate = (m, .threw) := by
      unfold UnitRegister.insert
      simp only [hid, hnone]
    rw [hregister, show s.insertOrgUnit ts o fate = _ from heq]
    exact ⟨h, rfl⟩

variable (ts) in
theorem KeepsUnits.update (h : KeepsUnits s m) (o : OrgUnitDTO) (fate : Fate) :
    KeepsUnits (s.updateOrgUnit ts o fate).1 (m.update o fate).1 ∧
      (s.updateOrgUnit ts o fate).2 = (m.update o fate).2 := by
  have hchange : TableChange s .tOrgUnit (s.updateOrgUnit ts o fate).1
      (s.updateOrgUnit ts o fate).2 :=
    updateRow_change s .tOrgUnit o.id (fun _ _ => orgUnitRow_key) fate
  have hfind : m.find o.id = none ↔ (Table.tOrgUnit, o.id) ∉ s.rows.map Row.key := by
    rw [← h.find_isSome_iff, Option.not_isSome_iff_eq_none]
  rcases s.updateRow_cases (.tOrgUnit, o.id) (fun _ => s.orgUnitRow ts o o.id) fate with
    ⟨old, new, rows, hfate, hold, hnew, hrows, heq⟩ | ⟨hfate, hnone, heq⟩ | ⟨hrefused, heq⟩
  · obtain ⟨u, rfl, hu, -⟩ := orgUnitRow_eq_some_iff.mp hnew
    obtain ⟨haccepts, rfl⟩ := Row.schema.update_eq_some_iff.mp hrows
    have hfound : m.find o.id ≠ none := by
      rw [Ne, hfind, not_not]
      have hkey := List.find?_some hold
      exact List.mem_map.mpr ⟨old, List.mem_of_find?_eq_some hold, of_decide_eq_true hkey⟩
    have hregister : m.update o fate =
        ({ m with units := m.units.map fun v => if v.id = o.id then orgUnitDto u else v },
          .found true) := by
      unfold UnitRegister.update
      rw [hfate, h.admitted_eq hnew haccepts]
      simp [hfound]
    rw [show s.updateOrgUnit ts o fate = _ from heq] at hchange ⊢
    rw [hregister]
    refine ⟨⟨hchange.consistent h.consistent, hchange.ids h.ids, h.lastId, ?_⟩, rfl⟩
    show (Row.schema.replace s.rows (.orgUnit u)).filterMap rowUnit = _
    rw [units_replace, h.units, hu]
  · have hmissing : m.find o.id = none := by
      rw [hfind]
      intro hkey
      obtain ⟨r, hr, hrkey⟩ := List.mem_map.mp hkey
      exact hnone r hr hrkey
    have hregister : m.update o fate = (m, .found false) := by
      simp [UnitRegister.update, hfate, hmissing]
    rw [hregister, show s.updateOrgUnit ts o fate = _ from heq]
    exact ⟨h, rfl⟩
  · have hregister : m.update o fate = (m, .threw) := by
      cases hfate : fate.refused with
      | true => simp [UnitRegister.update, hfate]
      | false =>
        obtain ⟨old, hmem, hold, hnew⟩ := hrefused.resolve_left (by simp [hfate])
        have hfound : m.find o.id ≠ none := by
          rw [Ne, hfind, not_not]
          have hkey := List.find?_some hold
          exact List.mem_map.mpr ⟨old, hmem, of_decide_eq_true hkey⟩
        have hnot : ∀ new, s.orgUnitRow ts o o.id = some new →
            ¬ Row.schema.Accepts s.rows new := by
          intro new hrow haccepts
          have hsome := Row.schema.update_eq_some_iff.mpr ⟨haccepts, rfl⟩
          rw [hnew new hrow] at hsome
          cases hsome
        simp [UnitRegister.update, hfate, hfound, h.admitted_eq_none hnot]
    rw [hregister, show s.updateOrgUnit ts o fate = _ from heq]
    exact ⟨h, rfl⟩

theorem KeepsUnits.remove (h : KeepsUnits s m) (id : ℤ) (fate : Fate) :
    KeepsUnits (s.removeOrgUnit id fate).1 (m.remove id fate).1 ∧
      (s.removeOrgUnit id fate).2 = (m.remove id fate).2 := by
  have hchange := removeRow_change s .tOrgUnit id fate
  rcases s.removeRow_cases (.tOrgUnit, id) fate with ⟨hfate, heq⟩ | ⟨hfate, heq⟩
  · have hanswer : (s.rows.any fun r => r.key = (.tOrgUnit, id)) = (m.find id).isSome := by
      rw [Bool.eq_iff_iff, h.find_isSome_iff]
      simp
    have hregister : m.remove id fate =
        ({ m with units := (m.units.filter fun u => u.id ≠ id).map (UnitRegister.orphaned id) },
          .found (s.rows.any fun r => r.key = (.tOrgUnit, id))) := by
      simp [UnitRegister.remove, hfate, hanswer]
    rw [heq] at hchange
    rw [hregister, show s.removeOrgUnit id fate = _ from heq]
    refine ⟨⟨hchange.consistent h.consistent, hchange.ids h.ids, h.lastId, ?_⟩, rfl⟩
    show (Row.schema.delete s.rows (.tOrgUnit, id)).filterMap rowUnit = _
    rw [units_delete h.consistent, h.units]
  · have hregister : m.remove id fate = (m, .threw) := by
      simp [UnitRegister.remove, hfate]
    rw [hregister, show s.removeOrgUnit id fate = _ from heq]
    exact ⟨h, rfl⟩

end Keeps

/-! ## Every run -/

section Runs

variable (ts : TextSearch V) (dates : DateText D)

theorem keepsUnits_installed : KeepsUnits (.installed : ContactTables V D) .empty where
  consistent := Row.schema.consistent_nil
  ids := fun _ hk => absurd hk List.not_mem_nil
  lastId := rfl
  units := rfl

/-- What a caller of `OrgDAO` sees of an answer about a unit. -/
def unitAnswer (call : DaoCall D × Fate) (answer : ContactAnswer) : Option ContactAnswer :=
  if DaoCall.table call.1 = .tOrgUnit then some answer else none

/-- **One call.** -/
theorem KeepsUnits.step {s : ContactTables V D} {m : UnitRegister} (h : KeepsUnits s m)
    (call : DaoCall D × Fate) :
    KeepsUnits ((contactSystem ts dates).step s call).1 (UnitRegister.machine.step m call).1 ∧
      unitAnswer call ((contactSystem ts dates).step s call).2 =
        (UnitRegister.machine.step m call).2 := by
  obtain ⟨call, fate⟩ := call
  have hother := fun ht => h.of_other (contactSystem_change ts dates s call fate) ht
  cases call with
  | insertOrgUnit o =>
    obtain ⟨hkeeps, hanswer⟩ := h.insert ts o fate
    exact ⟨hkeeps, congrArg some hanswer⟩
  | updateOrgUnit o =>
    obtain ⟨hkeeps, hanswer⟩ := h.update ts o fate
    exact ⟨hkeeps, congrArg some hanswer⟩
  | removeOrgUnit id =>
    obtain ⟨hkeeps, hanswer⟩ := h.remove id fate
    exact ⟨hkeeps, congrArg some hanswer⟩
  | _ => exact ⟨hother (by simp [DaoCall.table]), rfl⟩

theorem keepsUnits_run (calls : List (DaoCall D × Fate)) :
    List.zipWith unitAnswer calls ((contactSystem ts dates).outputs .installed calls) =
        UnitRegister.machine.outputs .empty calls ∧
      KeepsUnits (reached ts dates calls) (UnitRegister.machine.run .empty calls) :=
  (contactSystem ts dates).outputs_eq_of_related UnitRegister.machine unitAnswer
    KeepsUnits (fun _ _ call h => h.step ts dates call) _ _ calls keepsUnits_installed

variable {s : ContactTables V D} {m : UnitRegister}

theorem KeepsUnits.findById (h : KeepsUnits s m) (id : ℤ) : s.findOrgUnitById id = m.find id := by
  unfold ContactTables.findOrgUnitById UnitRegister.find
  rw [← h.units, filterMap_rowUnit, List.find?_map]
  rfl

/-- No id that was given is 0, so that 0 can stand for no parent. -/
theorem ne_zero_of_mem_keys {calls : List (DaoCall D × Fate)} {k : RowKey}
    (hk : k ∈ (reached ts dates calls).rows.map Row.key) : k.2 ≠ 0 := by
  rcases keys_run ts dates _ calls hk with hold | hgranted
  · exact absurd hold List.not_mem_nil
  · have hpos := lt_of_mem_grantedIds ts dates k.1 _ calls _ hgranted
    exact (lt_of_le_of_lt (Nat.cast_nonneg _) hpos).ne'

/-- The children of a unit have increasing ids, so that `ORDER BY id` leaves them as they are. -/
theorem findChildren_eq (calls : List (DaoCall D × Fate))
    (order : OrderBy (Ascending (OrgUnit.id (V := V)))) (parentId : ℤ) :
    (reached ts dates calls).findChildren order parentId =
      ((reached ts dates calls).rows.filterMap rowUnit).filter fun u =>
        u.parentId = parentId ∧ parentId ≠ 0 := by
  have hconsistent := reached_consistent ts dates calls
  have hids : ((Row.select Row.orgUnit? (reached ts dates calls).rows).map OrgUnit.id).Pairwise
      (· < ·) := by
    refine ids_select .tOrgUnit (fun r => ?_) (idsAscend_reached ts dates calls)
    cases r <;> simp [Row.orgUnit?, Row.key]
  have hchild : ∀ o ∈ Row.select Row.orgUnit? (reached ts dates calls).rows,
      decide (o.parentId = some parentId) =
        decide ((orgUnitDto o).parentId = parentId ∧ parentId ≠ 0) := by
    intro o ho
    rw [decide_eq_decide]
    unfold orgUnitDto
    cases hparent : o.parentId with
    | none =>
      rw [Option.getD_none]
      constructor
      · intro hnone
        cases hnone
      · rintro ⟨hzero, hne⟩
        exact absurd hzero.symm hne
    | some id =>
      rw [Option.getD_some, Option.some.injEq, iff_self_and]
      rintro rfl
      obtain ⟨r, hr, hro⟩ := List.mem_filterMap.mp ho
      cases r with
      | orgUnit r =>
        cases hro
        have hmem := hconsistent.weak _ hr (.tOrgUnit, id) (by simp [Row.schema, Row.weak,
          Row.orgUnits, hparent])
        exact ne_zero_of_mem_keys ts dates hmem
      | _ => cases hro
  have hsort : order.sort ((Row.select Row.orgUnit? (reached ts dates calls).rows).filter fun o =>
      o.parentId = some parentId) =
        (Row.select Row.orgUnit? (reached ts dates calls).rows).filter fun o =>
          o.parentId = some parentId := by
    apply order.sort_eq (List.Perm.refl _)
    exact hids.sublist (List.filter_sublist.map _)
  unfold ContactTables.findChildren
  rw [hsort, List.filter_congr hchild, filterMap_rowUnit, List.filter_map]
  rfl

/-- **`OrgDAO` is a register of units.**  After any calls of all DAO classes, its inserts, updates
and removes have been answered as by the register, `find_by_id` finds under every id what the
register holds, and `find_children` lists the units under a unit in the order of the register,
whatever the server does where `ORDER BY` leaves a choice. -/
theorem orgDAO_refines_register (calls : List (DaoCall D × Fate)) :
    List.zipWith unitAnswer calls ((contactSystem ts dates).outputs .installed calls) =
        UnitRegister.machine.outputs .empty calls ∧
      (∀ id, (reached ts dates calls).findOrgUnitById id =
        (UnitRegister.machine.run .empty calls).find id) ∧
      ∀ (order : OrderBy (Ascending (OrgUnit.id (V := V)))) (id : ℤ),
        (reached ts dates calls).findChildren order id =
          (UnitRegister.machine.run .empty calls).children id := by
  obtain ⟨hanswers, hkeeps⟩ := keepsUnits_run ts dates calls
  refine ⟨hanswers, hkeeps.findById, fun order id => ?_⟩
  rw [findChildren_eq, hkeeps.units]
  rfl

end Runs

/-! ## Saving what was read -/

/-- No text is stored that is empty where it can be `NULL`. -/
def TextsOrNull (rows : List (Row V D)) : Prop :=
  ∀ o, Row.orgUnit o ∈ rows → o.federalTaxId ≠ some [] ∧ o.keywords ≠ some []

theorem nullIfEmpty_ne_nil (text : SqlText) : nullIfEmpty text ≠ some [] := by
  unfold nullIfEmpty
  split
  · exact fun h => by cases h
  · next hne => exact fun h => hne (Option.some.inj h)

section Texts

variable {ts : TextSearch V} {s s' : ContactTables V D}

theorem TextsOrNull.map {rows : List (Row V D)} (h : TextsOrNull rows) {f : Row V D → Row V D}
    (hf : ∀ r o, f r = .orgUnit o →
      ∃ u, r = .orgUnit u ∧ u.federalTaxId = o.federalTaxId ∧ u.keywords = o.keywords) :
    TextsOrNull (rows.map f) := by
  intro o ho
  obtain ⟨r, hr, hro⟩ := List.mem_map.mp ho
  obtain ⟨u, rfl, htax, hkeywords⟩ := hf r o hro
  rw [← htax, ← hkeywords]
  exact h u hr

theorem TextsOrNull.delete {rows : List (Row V D)} (h : TextsOrNull rows)
    (hrows : Row.schema.Consistent rows) (k : RowKey) :
    TextsOrNull (Row.schema.delete rows k) := by
  rw [delete_eq_filter hrows]
  apply TextsOrNull.map
  · exact fun o ho => h o (List.mem_filter.mp ho).1
  · intro r o hro
    cases r with
    | orgUnit u =>
      cases hro
      exact ⟨u, rfl, rfl, rfl⟩
    | _ => cases hro

theorem textsOrNull_orgUnitRow {o : OrgUnitDTO} {id : ℤ} {u : OrgUnit V}
    (h : s.orgUnitRow ts o id = some (.orgUnit u)) :
    u.federalTaxId ≠ some [] ∧ u.keywords ≠ some [] := by
  obtain ⟨u, ⟨⟩, -, -, -, htax, -, hkeywords, -⟩ := orgUnitRow_eq_some_iff.mp h
  exact ⟨ne_nil_of_nullable (by norm_num) htax, hkeywords ▸ nullIfEmpty_ne_nil o.keywords⟩

/-- A call that writes another table. -/
theorem TextsOrNull.of_other (h : TextsOrNull s.rows) (hs : Row.schema.Consistent s.rows)
    {table : Table} {answer : ContactAnswer} (hchange : TableChange s table s' answer)
    (ht : table ≠ .tOrgUnit) : TextsOrNull s'.rows := by
  cases hchange with
  | same => exact h
  | insert id new rows f _ hkey hrows hf =>
    obtain ⟨-, -, rfl⟩ := Row.schema.insert_eq_some_iff.mp hrows
    apply TextsOrNull.map
    · intro o ho
      rcases List.mem_append.mp ho with hold | hnew
      · exact h o hold
      · obtain rfl := List.mem_singleton.mp hnew
        exact absurd (congrArg Prod.fst hkey).symm ht
    · intro r o hro
      cases r with
      | orgUnit u =>
        obtain ⟨v, hv⟩ := hf.unit u
        rw [hv] at hro
        cases hro
        exact ⟨u, rfl, rfl, rfl⟩
      | _ =>
        rw [hf.other _ rfl] at hro
        cases hro
  | update new rows hkey hrows =>
    obtain ⟨-, rfl⟩ := Row.schema.update_eq_some_iff.mp hrows
    intro o ho
    rcases Row.schema.mem_replace_iff.mp ho with ⟨rfl, -⟩ | ⟨hold, -⟩
    · exact absurd hkey.symm ht
    · exact h o hold
  | delete id => exact h.delete hs (table, id)

/-- **One call.** -/
theorem TextsOrNull.step (ts : TextSearch V) (dates : DateText D) (h : TextsOrNull s.rows)
    (hs : Row.schema.Consistent s.rows) (call : DaoCall D × Fate) :
    TextsOrNull ((contactSystem ts dates).step s call).1.rows := by
  obtain ⟨call, fate⟩ := call
  have hother := fun ht => h.of_other hs (contactSystem_change ts dates s call fate) ht
  cases call with
  | insertOrgUnit o =>
    rcases s.insertRow_cases .tOrgUnit (s.orgUnitRow ts o) id fate with
      ⟨new, rows, -, hnew, hrows, heq⟩ | ⟨-, heq⟩
    · obtain ⟨-, -, rfl⟩ := Row.schema.insert_eq_some_iff.mp hrows
      rw [show (contactSystem ts dates).step s (.insertOrgUnit o, fate) = _ from heq]
      intro u hu
      rcases List.mem_append.mp hu with hold | hu
      · exact h u hold
      · obtain rfl := List.mem_singleton.mp hu
        exact textsOrNull_orgUnitRow hnew
    · rw [show (contactSystem ts dates).step s (.insertOrgUnit o, fate) = _ from heq]
      exact h
  | updateOrgUnit o =>
    rcases s.updateRow_cases (.tOrgUnit, o.id) (fun _ => s.orgUnitRow ts o o.id) fate with
      ⟨old, new, rows, -, -, hnew, hrows, heq⟩ | ⟨-, -, heq⟩ | ⟨-, heq⟩
    · obtain ⟨-, rfl⟩ := Row.schema.update_eq_some_iff.mp hrows
      rw [show (contactSystem ts dates).step s (.updateOrgUnit o, fate) = _ from heq]
      intro u hu
      rcases Row.schema.mem_replace_iff.mp hu with ⟨rfl, -⟩ | ⟨hold, -⟩
      · exact textsOrNull_orgUnitRow hnew
      · exact h u hold
    · rw [show (contactSystem ts dates).step s (.updateOrgUnit o, fate) = _ from heq]
      exact h
    · rw [show (contactSystem ts dates).step s (.updateOrgUnit o, fate) = _ from heq]
      exact h
  | removeOrgUnit id =>
    rcases s.removeRow_cases (.tOrgUnit, id) fate with ⟨-, heq⟩ | ⟨-, heq⟩
    · rw [show (contactSystem ts dates).step s (.removeOrgUnit id, fate) = _ from heq]
      exact h.delete hs _
    · rw [show (contactSystem ts dates).step s (.removeOrgUnit id, fate) = _ from heq]
      exact h
  | _ => exact hother (by simp [DaoCall.table])

end Texts

section Saving

variable (ts : TextSearch V) (dates : DateText D)

theorem textsOrNull_reached (calls : List (DaoCall D × Fate)) :
    TextsOrNull (reached ts dates calls).rows := by
  have hrun := (contactSystem ts dates).run_invariant
    (fun s => Row.schema.Consistent s.rows ∧ TextsOrNull s.rows)
    (fun s i h => ⟨(contactSystem_change ts dates s i.1 i.2).consistent h.1,
      h.2.step ts dates h.1 i⟩) .installed calls
    ⟨Row.schema.consistent_nil, fun _ ho => absurd ho List.not_mem_nil⟩
  exact hrun.2

/-- **A row of a unit is built again from what it reads back as.** -/
theorem orgUnitRow_dto (calls : List (DaoCall D × Fate)) {o : OrgUnit V}
    (ho : Row.orgUnit o ∈ (reached ts dates calls).rows) :
    (reached ts dates calls).orgUnitRow ts (orgUnitDto o) o.id = some (.orgUnit o) := by
  have hconsistent := reached_consistent ts dates calls
  obtain ⟨htax, hkeywords⟩ := textsOrNull_reached ts dates calls o ho
  have hcheck : o.orgType.length ≤ 20 ∧ ORG_TYPES.contains o.orgType = true ∧
      o.federalTaxId.all (·.length ≤ 20) = true := by
    have hrow := hconsistent.check _ ho
    simpa [Row.schema, Row.check, and_assoc] using hrow
  have hparent : OrgDAO.parent (orgUnitDto o) = o.parentId := by
    unfold OrgDAO.parent orgUnitDto
    cases hid : o.parentId with
    | none => rfl
    | some id =>
      have hmem := hconsistent.weak _ ho (.tOrgUnit, id) (by simp [Row.schema, Row.weak,
        Row.orgUnits, hid])
      exact if_neg (ne_zero_of_mem_keys ts dates hmem)
  have hstored : ∀ text : Option SqlText, text ≠ some [] → nullIfEmpty (text.getD []) = text := by
    intro text hne
    cases text with
    | none => rfl
    | some text => exact if_neg fun hnil => hne (congrArg some hnil)
  apply orgUnitRow_eq_some_iff.mpr
  refine ⟨o, rfl, rfl, hparent.symm, varchar_of_length_le hcheck.1, ?_, rfl,
    hstored _ hkeywords, unitVectors_reached ts dates calls o ho⟩
  show nullable (varchar 20) (o.federalTaxId.getD []) = some o.federalTaxId
  unfold nullable
  rw [hstored _ htax]
  cases htaxId : o.federalTaxId with
  | none => rfl
  | some taxId =>
    have hlength := hcheck.2.2
    rw [htaxId] at hlength
    exact congrArg (Option.map some) (varchar_of_length_le (of_decide_eq_true hlength))

/-- **Saving a unit as it was read** changes nothing, in no table, after any calls. -/
theorem updateOrgUnit_unmodified (calls : List (DaoCall D × Fate)) {id : ℤ} {o : OrgUnitDTO}
    (ho : (reached ts dates calls).findOrgUnitById id = some o) (skipped : ℕ) :
    (reached ts dates calls).updateOrgUnit ts o ⟨skipped, false⟩ =
      (reached ts dates calls, .found true) := by
  unfold ContactTables.findOrgUnitById at ho
  obtain ⟨u, hu, rfl⟩ := Option.map_eq_some_iff.mp ho
  obtain ⟨r, hr, hru⟩ := List.mem_filterMap.mp (List.mem_of_find?_eq_some hu)
  cases r with
  | orgUnit u =>
    cases hru
    have hrow := orgUnitRow_dto ts dates calls hr
    have hself := Row.schema.update_self (reached_consistent ts dates calls) hr
    rcases (reached ts dates calls).updateRow_cases (.tOrgUnit, u.id)
        (fun _ => (reached ts dates calls).orgUnitRow ts (orgUnitDto u) u.id)
        ⟨skipped, false⟩ with
      ⟨old, new, rows, -, -, hnew, hrows, heq⟩ | ⟨-, hnone, -⟩ | ⟨hrefused, -⟩
    · rw [hrow] at hnew
      cases hnew
      rw [hself] at hrows
      cases hrows
      exact heq
    · exact absurd rfl (hnone _ hr)
    · obtain ⟨old, -, -, hnew⟩ := hrefused.resolve_left (by simp)
      have hrows := hnew _ hrow
      rw [hself] at hrows
      cases hrows
  | _ => cases hru

end Saving

/-! ## A unit under another -/

def company : OrgUnitDTO := { orgType := "Company".toList, federalTaxId := "12".toList }

def team : OrgUnitDTO := { parentId := 1, orgType := "Team".toList, keywords := "south".toList }

theorem findOrgUnitById_team :
    (reached plainSearch writtenDates
        [(.insertOrgUnit company, {}), (.insertOrgUnit team, {})]).findOrgUnitById 2 =
      some { team with id := 2 } := rfl

theorem updateOrgUnit_unmodified_team :
    (reached plainSearch writtenDates
        [(.insertOrgUnit company, {}), (.insertOrgUnit team, {})]).updateOrgUnit plainSearch
          { team with id := 2 } ⟨0, false⟩ =
      (reached plainSearch writtenDates
        [(.insertOrgUnit company, {}), (.insertOrgUnit team, {})], .found true) :=
  updateOrgUnit_unmodified plainSearch writtenDates _ findOrgUnitById_team 0

end Pensar.Analysis
