import Pensar.Computation.AncestorChain
import Pensar.Computation.KeyedRows
import Pensar.Model.OrgHierarchy

/-!
# The rows of the hierarchy

A unit is listed for a locale if it and all its ancestors, up to a unit without a parent, have a
name in that locale.  These are the units at the end of a path of `namedUnits`, a descent that
need not cover all units: a unit on a cycle of parents, or below one, has no path.

Round `n` of the recursion finds the units whose path has `n + 1` units on it (`mem_iterate_iff`).
Paths do not meet a unit twice, so that a round with no rows comes (`iterate_childRows_length`),
and a unit has one path and one name, so that no unit comes twice (`nodup_orgTreeRows`).

Main result: `fnOrgHierarchy_exact`.
-/

set_option autoImplicit false

namespace Pensar.Analysis

open Pensar.Computation
open Pensar.Model
open OrgDatabase (Keys)

variable {V : Type}

/-! ## Units with names -/

/-- The unit has that name in the locale. -/
def Named (db : OrgDatabase V) (code : SqlText) (o : OrgUnit V) (name : SqlText) : Prop :=
  ∃ loc ∈ db.tLocalizedOrgUnit, ∃ l ∈ db.tLocale,
    loc.orgUnitId = o.id ∧ l.id = loc.localeId ∧ l.code = code ∧ loc.name = name

/-- The units with a name in the locale: which have no parent, and which have which parent. -/
def namedUnits (db : OrgDatabase V) (code : SqlText) : Descent (OrgUnit V) where
  IsRoot o := o ∈ db.tOrgUnit ∧ o.parentId = none ∧ ∃ name, Named db code o name
  Child p o := p ∈ db.tOrgUnit ∧ o ∈ db.tOrgUnit ∧ o.parentId = some p.id ∧
    ∃ name, Named db code o name

/-- The row of a unit with its path. -/
def hierarchyRow (path : List (OrgUnit V)) (o : OrgUnit V) (name : SqlText) : HierarchyRow :=
  ⟨o.id, o.parentId, name, o.orgType, o.keywords, path.length, path.map OrgUnit.id⟩

/-- The row belongs into the hierarchy for the locale: its unit and all ancestors of it have a
name, the depth is the number of these units and the path is the list of their ids from the root
on. -/
def Listed (db : OrgDatabase V) (code : SqlText) (row : HierarchyRow) : Prop :=
  ∃ path o name, (namedUnits db code).Path path o ∧ Named db code o name ∧
    row = hierarchyRow path o name

theorem mem_localizedNames {db : OrgDatabase V} {code : SqlText} {o : OrgUnit V}
    {name : SqlText} : name ∈ db.localizedNames code o ↔ Named db code o name := by
  unfold OrgDatabase.localizedNames Named
  simp only [List.mem_flatMap, List.mem_filter, List.mem_map, decide_eq_true_eq, Bool.and_eq_true]
  constructor
  · rintro ⟨loc, ⟨hloc, hunit⟩, l, ⟨hl, hid, hcode⟩, hname⟩
    exact ⟨loc, hloc, l, hl, hunit, hid, hcode, hname⟩
  · rintro ⟨loc, hloc, l, hl, hunit, hid, hcode, hname⟩
    exact ⟨loc, ⟨hloc, hunit⟩, l, ⟨hl, hid, hcode⟩, hname⟩

theorem namedUnits_functional {db : OrgDatabase V} (hkeys : db.Keys) (code : SqlText) :
    (namedUnits db code).Functional where
  root o p hroot hchild := by
    have hnone := hroot.2.1
    rw [hchild.2.2.1] at hnone
    cases hnone
  parent o p q hp hq := by
    have hid : some p.id = some q.id := hp.2.2.1.symm.trans hq.2.2.1
    exact eq_of_key hkeys.orgUnitId hp.1 hq.1 (Option.some.inj hid)

/-- A unit at the end of a path is a unit with a name. -/
theorem path_end {db : OrgDatabase V} {code : SqlText} {path : List (OrgUnit V)} {o : OrgUnit V}
    (h : (namedUnits db code).Path path o) :
    o ∈ db.tOrgUnit ∧ ∃ name, Named db code o name := by
  cases h with
  | root h => exact ⟨h.1, h.2.2⟩
  | child _ h => exact ⟨h.2.1, h.2.2.2⟩

theorem path_subset {db : OrgDatabase V} {code : SqlText} {path : List (OrgUnit V)}
    {o : OrgUnit V} (h : (namedUnits db code).Path path o) : path ⊆ db.tOrgUnit := by
  intro x hx
  obtain ⟨q, hq, -⟩ := h.to_mem hx
  exact (path_end hq).1

/-! ## The rounds of the recursion -/

theorem mem_rootRows {db : OrgDatabase V} {code : SqlText} {row : HierarchyRow} :
    row ∈ db.rootRows code ↔
      ∃ o name, (namedUnits db code).IsRoot o ∧ Named db code o name ∧
        row = hierarchyRow [o] o name := by
  unfold OrgDatabase.rootRows
  simp only [List.mem_flatMap, List.mem_filter, List.mem_map, Option.isNone_iff_eq_none,
    mem_localizedNames]
  constructor
  · rintro ⟨o, ⟨ho, hroot⟩, name, hname, rfl⟩
    exact ⟨o, name, ⟨ho, hroot, name, hname⟩, hname, rfl⟩
  · rintro ⟨o, name, ⟨ho, hroot, -⟩, hname, rfl⟩
    exact ⟨o, ⟨ho, hroot⟩, name, hname, rfl⟩

theorem mem_childRows {db : OrgDatabase V} {code : SqlText} {rows : List HierarchyRow}
    {row : HierarchyRow} :
    row ∈ db.childRows code rows ↔
      ∃ o ∈ db.tOrgUnit, ∃ name, Named db code o name ∧ ∃ t ∈ rows, o.parentId = some t.id ∧
        row = ⟨o.id, o.parentId, name, o.orgType, o.keywords, t.depth + 1, t.path ++ [o.id]⟩ := by
  unfold OrgDatabase.childRows
  simp only [List.mem_flatMap, List.mem_filter, List.mem_map, mem_localizedNames,
    decide_eq_true_eq]
  constructor
  · rintro ⟨o, ho, name, hname, t, ⟨ht, hparent⟩, rfl⟩
    exact ⟨o, ho, name, hname, t, ht, hparent, rfl⟩
  · rintro ⟨o, ho, name, hname, t, ht, hparent, rfl⟩
    exact ⟨o, ho, name, hname, t, ⟨ht, hparent⟩, rfl⟩

/-- **Round `n` finds the units with `n + 1` units on their path.** -/
theorem mem_iterate_iff {db : OrgDatabase V} {code : SqlText} (n : ℕ) (row : HierarchyRow) :
    row ∈ (db.childRows code)^[n] (db.rootRows code) ↔
      ∃ path o name, (namedUnits db code).Path path o ∧ path.length = n + 1 ∧
        Named db code o name ∧ row = hierarchyRow path o name := by
  induction n generalizing row with
  | zero =>
    rw [Function.iterate_zero, id_eq, mem_rootRows]
    constructor
    · rintro ⟨o, name, hroot, hname, rfl⟩
      exact ⟨[o], o, name, .root hroot, rfl, hname, rfl⟩
    · rintro ⟨path, o, name, hpath, hlength, hname, rfl⟩
      cases hpath with
      | root h => exact ⟨o, name, h, hname, rfl⟩
      | child hpath h =>
        have hpos := List.length_pos_of_ne_nil hpath.ne_nil
        rw [List.length_append, List.length_singleton] at hlength
        omega
  | succ n ih =>
    rw [Function.iterate_succ_apply', mem_childRows]
    constructor
    · rintro ⟨o, ho, name, hname, t, ht, hparent, rfl⟩
      obtain ⟨path, p, pname, hpath, hlength, hpname, rfl⟩ := (ih t).mp ht
      have hchild : (namedUnits db code).Child p o := ⟨(path_end hpath).1, ho, hparent, name, hname⟩
      refine ⟨path ++ [o], o, name, .child hpath hchild, by simp [hlength], hname, ?_⟩
      simp [hierarchyRow]
    · rintro ⟨path, o, name, hpath, hlength, hname, rfl⟩
      cases hpath with
      | root h => simp at hlength
      | @child path _ p hpath h =>
        rw [List.length_append, List.length_singleton, Nat.add_right_cancel_iff] at hlength
        obtain ⟨pname, hpname⟩ := (path_end hpath).2
        have ht := (ih (hierarchyRow path p pname)).mpr
          ⟨path, p, pname, hpath, hlength, hpname, rfl⟩
        refine ⟨o, h.2.1, name, hname, _, ht, h.2.2.1, ?_⟩
        simp [hierarchyRow]

/-- A round without rows comes: there are no longer paths. -/
theorem iterate_childRows_length {db : OrgDatabase V} (hkeys : db.Keys) (code : SqlText) :
    (db.childRows code)^[db.tOrgUnit.length] (db.rootRows code) = [] := by
  refine List.eq_nil_iff_forall_not_mem.mpr ?_
  intro row hrow
  obtain ⟨path, o, name, hpath, hlength, -⟩ := (mem_iterate_iff _ row).mp hrow
  have hle := hpath.length_le (namedUnits_functional hkeys code) db.tOrgUnit (path_subset hpath)
  omega

/-- The rows of all rounds. -/
def orgTreeRows (db : OrgDatabase V) (code : SqlText) : List HierarchyRow :=
  rounds (db.childRows code) db.tOrgUnit.length (db.rootRows code)

theorem orgTree_eq {db : OrgDatabase V} (hkeys : db.Keys) (code : SqlText) {fuel : ℕ}
    (hfuel : db.tOrgUnit.length < fuel) : db.orgTree fuel code = some (orgTreeRows db code) := by
  refine recursiveUnion_eq ?_ (iterate_childRows_length hkeys code) hfuel
  simp [OrgDatabase.childRows]

theorem mem_orgTreeRows {db : OrgDatabase V} (hkeys : db.Keys) {code : SqlText}
    {row : HierarchyRow} : row ∈ orgTreeRows db code ↔ Listed db code row := by
  unfold orgTreeRows Listed
  rw [mem_rounds]
  constructor
  · rintro ⟨k, -, hrow⟩
    obtain ⟨path, o, name, hpath, -, hname, rfl⟩ := (mem_iterate_iff k row).mp hrow
    exact ⟨path, o, name, hpath, hname, rfl⟩
  · rintro ⟨path, o, name, hpath, hname, rfl⟩
    have hle := hpath.length_le (namedUnits_functional hkeys code) db.tOrgUnit (path_subset hpath)
    have hpos := List.length_pos_of_ne_nil hpath.ne_nil
    refine ⟨path.length - 1, by omega, (mem_iterate_iff _ _).mpr ?_⟩
    exact ⟨path, o, name, hpath, by omega, hname, rfl⟩

/-! ## No unit comes twice -/

/-- A unit has at most one name in a locale. -/
theorem length_localizedNames {db : OrgDatabase V} (hkeys : db.Keys) (code : SqlText)
    (o : OrgUnit V) : (db.localizedNames code o).length ≤ 1 := by
  let names := db.tLocalizedOrgUnit.filter fun loc => loc.orgUnitId = o.id
  let join := fun loc : LocalizedOrgUnit =>
    (db.tLocale.filter fun l => l.id = loc.localeId && l.code = code).map fun l => (loc, l)
  have hnames : (names.map LocalizedOrgUnit.localeId).Nodup := by
    have hpairs := nodup_filter_key hkeys.localized fun loc => loc.orgUnitId = o.id
    have hmap : names.map (fun loc => (loc.orgUnitId, loc.localeId)) =
        (names.map LocalizedOrgUnit.localeId).map fun id => (o.id, id) := by
      rw [List.map_map]
      refine List.map_congr_left fun loc hloc => ?_
      have hunit : loc.orgUnitId = o.id := by simpa [names] using (List.mem_filter.mp hloc).2
      simp [hunit]
    exact .of_map _ (hmap ▸ hpairs)
  have hkey : ∀ loc ∈ names, ∀ pair ∈ join loc, pair.2.id = loc.localeId := by
    intro loc _ pair hpair
    obtain ⟨l, hl, rfl⟩ := List.mem_map.mp hpair
    simpa using And.left (by simpa using (List.mem_filter.mp hl).2 : l.id = loc.localeId ∧ _)
  have hone : ∀ loc ∈ names, (join loc).length ≤ 1 := by
    intro loc _
    rw [List.length_map]
    refine length_filter_le_one hkeys.localeId _ (k := loc.localeId) ?_
    intro l hl
    simpa using And.left (by simpa using hl : l.id = loc.localeId ∧ _)
  have hpairs : ((names.flatMap join).map fun pair => pair.2.id).Nodup :=
    nodup_map_flatMap hnames hkey hone
  have hlength : (names.flatMap join).length ≤ 1 := by
    refine length_le_one_of_key hpairs ?_
    intro a ha b hb
    have hlocale : ∀ pair ∈ names.flatMap join, pair.2 ∈ db.tLocale ∧ pair.2.code = code := by
      intro pair hpair
      obtain ⟨loc, -, hpair⟩ := List.mem_flatMap.mp hpair
      obtain ⟨l, hl, rfl⟩ := List.mem_map.mp hpair
      simp only [List.mem_filter, Bool.and_eq_true, decide_eq_true_eq] at hl
      exact ⟨hl.1, hl.2.2⟩
    have hab := eq_of_key hkeys.localeCode (hlocale a ha).1 (hlocale b hb).1
      ((hlocale a ha).2.trans (hlocale b hb).2.symm)
    rw [hab]
  have hnames_eq : db.localizedNames code o =
      (names.flatMap join).map fun pair => pair.1.name := by
    simp [OrgDatabase.localizedNames, names, join, List.map_flatMap, Function.comp_def]
  rw [hnames_eq, List.length_map]
  exact hlength

theorem nodup_rootRows {db : OrgDatabase V} (hkeys : db.Keys) (code : SqlText) :
    ((db.rootRows code).map HierarchyRow.id).Nodup := by
  refine nodup_map_flatMap (nodup_filter_key hkeys.orgUnitId _) ?_ ?_
  · intro o _ row hrow
    obtain ⟨name, -, rfl⟩ := List.mem_map.mp hrow
    rfl
  · intro o _
    rw [List.length_map]
    exact length_localizedNames hkeys code o

theorem nodup_childRows {db : OrgDatabase V} (hkeys : db.Keys) (code : SqlText)
    {rows : List HierarchyRow} (hrows : (rows.map HierarchyRow.id).Nodup) :
    ((db.childRows code rows).map HierarchyRow.id).Nodup := by
  refine nodup_map_flatMap hkeys.orgUnitId ?_ ?_
  · intro o _ row hrow
    obtain ⟨name, -, hrow⟩ := List.mem_flatMap.mp hrow
    obtain ⟨t, -, rfl⟩ := List.mem_map.mp hrow
    rfl
  · intro o _
    refine length_flatMap_le_one (length_localizedNames hkeys code o) ?_
    intro name _
    rw [List.length_map]
    -- at most one row of the working table is the parent's
    cases hparent : o.parentId with
    | none => simp
    | some p =>
      refine length_filter_le_one hrows _ (k := p) ?_
      intro t ht
      simpa [eq_comm] using ht

theorem nodup_iterate {db : OrgDatabase V} (hkeys : db.Keys) (code : SqlText) (n : ℕ) :
    (((db.childRows code)^[n] (db.rootRows code)).map HierarchyRow.id).Nodup := by
  induction n with
  | zero => exact nodup_rootRows hkeys code
  | succ n ih =>
    rw [Function.iterate_succ_apply']
    exact nodup_childRows hkeys code ih

/-- **No unit comes twice**: in one round because of the keys, in two because its path has one
length. -/
theorem nodup_orgTreeRows {db : OrgDatabase V} (hkeys : db.Keys) (code : SqlText) :
    ((orgTreeRows db code).map HierarchyRow.id).Nodup := by
  unfold orgTreeRows rounds
  rw [List.map_flatMap, List.nodup_flatMap]
  refine ⟨fun k _ => nodup_iterate hkeys code k, ?_⟩
  refine List.Nodup.pairwise_of_forall_ne List.nodup_range ?_
  intro j _ k _ hjk id hj hk
  obtain ⟨row, hrow, rfl⟩ := List.mem_map.mp hj
  obtain ⟨row', hrow', hid⟩ := List.mem_map.mp hk
  obtain ⟨path, o, name, hpath, hlength, -, rfl⟩ := (mem_iterate_iff j row).mp hrow
  obtain ⟨path', o', name', hpath', hlength', -, rfl⟩ := (mem_iterate_iff k row').mp hrow'
  obtain rfl := eq_of_key hkeys.orgUnitId (path_end hpath').1 (path_end hpath).1 hid
  have hsame := hpath.unique (namedUnits_functional hkeys code) hpath'
  rw [hsame] at hlength
  omega

/-! ## `fn_org_hierarchy` -/

theorem returnQuery_same {R : Type} (rule : ReturnRule) (rows : List R) :
    returnQuery rule HIERARCHY_COLUMNS LIVE_COLUMNS rows = some rows := by
  simp [returnQuery, HIERARCHY_COLUMNS, LIVE_COLUMNS, rule.same]

theorem fnOrgHierarchy_eq (rule : ReturnRule) {db : OrgDatabase V} (hkeys : db.Keys)
    (code : SqlText) {fuel : ℕ} (hfuel : db.tOrgUnit.length < fuel) :
    db.fnOrgHierarchy rule fuel code = some (orgTreeRows db code) := by
  rw [OrgDatabase.fnOrgHierarchy, orgTree_eq hkeys code hfuel, Option.bind_some, returnQuery_same]

/-- **The hierarchy is complete and exact.**  Whatever the parents of the units are, the recursion
ends within one round more than there are units, with the same rows for any larger number; no
unit comes twice, and the rows are those that are listed.  `OrgDAO::hierarchy` returns an object
for each. -/
theorem fnOrgHierarchy_exact (rule : ReturnRule) (db : OrgDatabase V) (hkeys : db.Keys)
    (code : SqlText) :
    ∃ rows, (∀ fuel, db.tOrgUnit.length < fuel →
        db.fnOrgHierarchy rule fuel code = some rows ∧
        OrgDAO.hierarchy rule db fuel code = some (rows.map OrgHierarchyDTO.ofRow)) ∧
      (rows.map HierarchyRow.id).Nodup ∧ ∀ row, row ∈ rows ↔ Listed db code row := by
  refine ⟨orgTreeRows db code, ?_, nodup_orgTreeRows hkeys code, fun row => mem_orgTreeRows hkeys⟩
  intro fuel hfuel
  have hrows := fnOrgHierarchy_eq rule hkeys code hfuel
  exact ⟨hrows, by rw [OrgDAO.hierarchy, hrows, Option.map_some]⟩

/-- A unit, one below it, one that is its own parent, and two that are each other's. -/
def unitsWithCycles : OrgDatabase Unit where
  tLocale := INSTALLED_LOCALES
  tOrgUnit :=
    [⟨2, some 1, "Team".toList, none, true, none, none⟩,
      ⟨1, none, "Group".toList, none, true, none, none⟩,
      ⟨3, some 3, "Team".toList, none, true, none, none⟩,
      ⟨4, some 5, "Team".toList, none, true, none, none⟩,
      ⟨5, some 4, "Team".toList, none, true, none, none⟩]
  tLocalizedOrgUnit :=
    [⟨1, 1, 1, "A".toList⟩, ⟨2, 2, 1, "B".toList⟩, ⟨3, 3, 1, "C".toList⟩, ⟨4, 4, 1, "D".toList⟩,
      ⟨5, 5, 1, "E".toList⟩]

theorem fnOrgHierarchy_unitsWithCycles :
    ∃ rows, (∀ fuel, unitsWithCycles.tOrgUnit.length < fuel →
        unitsWithCycles.fnOrgHierarchy .exact fuel "pt-BR".toList = some rows ∧
        OrgDAO.hierarchy .exact unitsWithCycles fuel "pt-BR".toList =
          some (rows.map OrgHierarchyDTO.ofRow)) ∧
      (rows.map HierarchyRow.id).Nodup ∧
      ∀ row, row ∈ rows ↔ Listed unitsWithCycles "pt-BR".toList row :=
  fnOrgHierarchy_exact .exact unitsWithCycles (by decide) "pt-BR".toList

example : unitsWithCycles.fnOrgHierarchy .exact 6 "pt-BR".toList =
    some [⟨1, none, "A".toList, "Group".toList, none, 1, [1]⟩,
      ⟨2, some 1, "B".toList, "Team".toList, none, 2, [1, 2]⟩] := by
  decide

end Pensar.Analysis
