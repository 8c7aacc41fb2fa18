import Pensar.Computation.KeyedRows
import Pensar.Model.OrgDatabase

/-!
# Is the search vector of a unit current?

`search_vector` is computed from two columns of the unit and from its name in the default locale.
The trigger on the names has the unit of the new row refreshed.  An update that takes a name to
another unit leaves the vector of the unit it is taken from as it was.

Main result: `searchIsCurrent_iff` says for which statements every vector stays the current one.
-/

set_option autoImplicit false

namespace Pensar.Analysis

open Pensar.Computation
open Pensar.Model
open OrgDatabase (weightedVector refreshSearch)

variable {V : Type}

/-! ## What the vector should be -/

/-- The name of a unit in the default locale, if it has one. -/
def NameInDefaultLocale (db : OrgDatabase V) (unit : ℤ) (name : Option SqlText) : Prop :=
  ∀ n, name = some n ↔ ∃ loc ∈ db.tLocalizedOrgUnit, loc.orgUnitId = unit ∧
    (∃ l ∈ db.tLocale, l.id = loc.localeId ∧ l.isDefault = true) ∧ loc.name = n

/-- Every unit has the vector of its columns and of its name. -/
def SearchIsCurrent (ts : TextSearch V) (db : OrgDatabase V) : Prop :=
  ∀ o ∈ db.tOrgUnit, ∃ name, NameInDefaultLocale db o.id name ∧
    o.searchVector = some (weightedVector ts name o.federalTaxId o.keywords)

/-! ## The statements -/

/-- A statement on `T_OrgUnit` or `T_LocalizedOrgUnit` that does not assign `search_vector`. -/
def OnUnits : OrgStatement V → Prop
  | .insertLocale _ => False
  | .updateLocale _ _ => False
  | .deleteLocale _ => False
  | .updateOrgUnit _ set => set.searchVector = none
  | _ => True

/-- Such a statement, and whether it is refused for a reason outside these tables: a text that is
too long for a `tsvector`, an audit log that cannot be written. -/
structure UnitChange (V : Type) where
  statement : OrgStatement V
  refused : Bool := false
  onUnits : OnUnits statement

/-- The database server under these statements. -/
def unitServer (ts : TextSearch V) : Machine (OrgDatabase V) (UnitChange V) Bool where
  step db c := if c.refused then (db, false) else (OrgDatabase.server ts).step db c.statement

/-- The tables with the row of that id replaced. -/
def withName (db : OrgDatabase V) (id : ℤ) (row : LocalizedOrgUnit) : OrgDatabase V :=
  { db with
    tLocalizedOrgUnit := db.tLocalizedOrgUnit.map fun loc => if loc.id = id then row else loc }

/-- No update that is accepted takes the name in the default locale from a unit whose vector has
something of it. -/
def MovesCleanly (ts : TextSearch V) (db : OrgDatabase V) (c : UnitChange V) : Prop :=
  match c.statement with
  | .updateLocalized id row =>
    c.refused = false → (withName db id row).Consistent →
      ∀ old ∈ db.tLocalizedOrgUnit, old.id = id → db.isDefaultLocale old.localeId →
        ∀ o ∈ db.tOrgUnit, o.id = old.orgUnitId → o.id ≠ row.orgUnitId →
          weightedVector ts (some old.name) o.federalTaxId o.keywords =
            weightedVector ts none o.federalTaxId o.keywords
  | _ => True

/-! ## Names -/

/-- What these statements keep. -/
structure UnitTables (db : OrgDatabase V) : Prop where
  consistent : db.Consistent
  locales : db.tLocale = INSTALLED_LOCALES

/-- The rows that `fn_orgunit_search_vector` selects. -/
def defaultNames (db : OrgDatabase V) (unit : ℤ) : List LocalizedOrgUnit :=
  db.tLocalizedOrgUnit.filter fun loc => loc.orgUnitId = unit && db.isDefaultLocale loc.localeId

theorem defaultName_eq (db : OrgDatabase V) (unit : ℤ) :
    db.defaultName unit = (defaultNames db unit).head?.map LocalizedOrgUnit.name := by
  rw [OrgDatabase.defaultName, defaultNames, List.head?_filter]

theorem mem_defaultNames {db : OrgDatabase V} {unit : ℤ} {loc : LocalizedOrgUnit} :
    loc ∈ defaultNames db unit ↔
      loc ∈ db.tLocalizedOrgUnit ∧ loc.orgUnitId = unit ∧
        db.isDefaultLocale loc.localeId = true := by
  simp [defaultNames]

theorem isDefaultLocale_iff {db : OrgDatabase V} {id : ℤ} :
    db.isDefaultLocale id = true ↔ ∃ l ∈ db.tLocale, l.id = id ∧ l.isDefault = true := by
  simp [OrgDatabase.isDefaultLocale]

/-- There is one default locale. -/
theorem isDefaultLocale_eq {db : OrgDatabase V} (hdb : UnitTables db) {id : ℤ}
    (h : db.isDefaultLocale id = true) : id = 1 := by
  obtain ⟨l, hl, rfl, hdefault⟩ := isDefaultLocale_iff.mp h
  rw [hdb.locales] at hl
  revert l
  simp [INSTALLED_LOCALES]

theorem length_defaultNames_le_one {db : OrgDatabase V} (hdb : UnitTables db) (unit : ℤ) :
    (defaultNames db unit).length ≤ 1 := by
  refine length_filter_le_one hdb.consistent.keys.localized _ (k := (unit, 1)) ?_
  intro loc hloc
  rw [Bool.and_eq_true, decide_eq_true_eq] at hloc
  rw [hloc.1, isDefaultLocale_eq hdb hloc.2]

theorem defaultNames_eq_singleton {db : OrgDatabase V} (hdb : UnitTables db) {unit : ℤ}
    {loc : LocalizedOrgUnit} (h : loc ∈ defaultNames db unit) : defaultNames db unit = [loc] := by
  obtain ⟨loc', hloc'⟩ := List.length_eq_one_iff.mp
    (le_antisymm (length_defaultNames_le_one hdb unit) (List.length_pos_of_mem h))
  rw [hloc', List.mem_singleton] at h
  rw [hloc', h]

/-- **The trigger finds the name.** -/
theorem nameInDefaultLocale_iff {db : OrgDatabase V} (hdb : UnitTables db) {unit : ℤ}
    {name : Option SqlText} : NameInDefaultLocale db unit name ↔ name = db.defaultName unit := by
  have hfound : ∀ n, db.defaultName unit = some n ↔
      ∃ loc ∈ db.tLocalizedOrgUnit, loc.orgUnitId = unit ∧
        (∃ l ∈ db.tLocale, l.id = loc.localeId ∧ l.isDefault = true) ∧ loc.name = n := by
    intro n
    rw [defaultName_eq]
    constructor
    · intro h
      obtain ⟨loc, hloc, rfl⟩ := Option.map_eq_some_iff.mp h
      obtain ⟨hmem, hunit, hdefault⟩ := mem_defaultNames.mp (List.mem_of_head? hloc)
      exact ⟨loc, hmem, hunit, isDefaultLocale_iff.mp hdefault, rfl⟩
    · rintro ⟨loc, hmem, hunit, hdefault, rfl⟩
      have hloc := mem_defaultNames.mpr ⟨hmem, hunit, isDefaultLocale_iff.mpr hdefault⟩
      rw [defaultNames_eq_singleton hdb hloc]
      rfl
  constructor
  · intro h
    refine Option.ext fun n => ?_
    rw [h n, hfound n]
  · rintro rfl n
    exact hfound n

theorem searchIsCurrent_iff_defaultName {ts : TextSearch V} {db : OrgDatabase V}
    (hdb : UnitTables db) : SearchIsCurrent ts db ↔
      ∀ o ∈ db.tOrgUnit, o.searchVector =
        some (weightedVector ts (db.defaultName o.id) o.federalTaxId o.keywords) := by
  unfold SearchIsCurrent
  refine forall₂_congr fun o _ => ?_
  constructor
  · rintro ⟨name, hname, hvector⟩
    rwa [(nameInDefaultLocale_iff hdb).mp hname] at hvector
  · intro hvector
    exact ⟨_, (nameInDefaultLocale_iff hdb).mpr rfl, hvector⟩

/-- A unit that is not there has no names. -/
theorem defaultName_eq_none {db : OrgDatabase V} (hdb : db.Consistent) {unit : ℤ}
    (hunit : unit ∉ db.tOrgUnit.map OrgUnit.id) : db.defaultName unit = none := by
  have hnames : defaultNames db unit = [] := by
    rw [List.eq_nil_iff_forall_not_mem]
    intro loc hloc
    obtain ⟨hmem, rfl, -⟩ := mem_defaultNames.mp hloc
    exact hunit (hdb.references.orgUnit loc hmem)
  rw [defaultName_eq, hnames]
  rfl

/-! ## Refreshing a unit -/

section Refresh

variable {ts : TextSearch V} {db : OrgDatabase V}

/-- The columns of a unit that the constraints read. -/
def constrained (o : OrgUnit V) : ℤ × Option ℤ × SqlText × Option SqlText :=
  (o.id, o.parentId, o.orgType, o.federalTaxId)

theorem consistent_of_constrained {db' : OrgDatabase V} (hlocale : db'.tLocale = db.tLocale)
    (hnames : db'.tLocalizedOrgUnit = db.tLocalizedOrgUnit)
    (hunits : db'.tOrgUnit.map constrained = db.tOrgUnit.map constrained)
    (hdb : db.Consistent) : db'.Consistent := by
  have hids : db'.tOrgUnit.map OrgUnit.id = db.tOrgUnit.map OrgUnit.id := by
    have hfst := congrArg (List.map Prod.fst) hunits
    rwa [List.map_map, List.map_map] at hfst
  have hsame : ∀ o' ∈ db'.tOrgUnit, ∃ o ∈ db.tOrgUnit, constrained o = constrained o' := by
    intro o' ho'
    have hmem : constrained o' ∈ db'.tOrgUnit.map constrained := List.mem_map_of_mem ho'
    rw [hunits] at hmem
    exact List.mem_map.mp hmem
  obtain ⟨hkeys, hrefs, hchecks⟩ := hdb
  refine ⟨⟨?_, ?_, ?_, ?_, ?_⟩, ⟨?_, ?_, ?_, ?_⟩, ⟨?_, ?_, ?_, ?_⟩⟩
  · exact hlocale ▸ hkeys.localeId
  · exact hlocale ▸ hkeys.localeCode
  · exact hids ▸ hkeys.orgUnitId
  · exact hnames ▸ hkeys.localizedId
  · exact hnames ▸ hkeys.localized
  · intro o' ho' p hp
    obtain ⟨o, ho, hcolumns⟩ := hsame o' ho'
    have hparent : o.parentId = o'.parentId := congrArg (fun c => c.2.1) hcolumns
    rw [hids]
    exact hrefs.parent o ho p (hparent ▸ hp)
  · rw [hids, hnames]
    exact hrefs.orgUnit
  · rw [hlocale, hnames]
    exact hrefs.locale
  · exact hlocale ▸ hrefs.qualifier
  · exact hlocale ▸ hchecks.code
  · intro o' ho'
    obtain ⟨o, ho, hcolumns⟩ := hsame o' ho'
    have htype : o.orgType = o'.orgType := congrArg (fun c => c.2.2.1) hcolumns
    exact htype ▸ hchecks.orgType o ho
  · intro o' ho' t ht
    obtain ⟨o, ho, hcolumns⟩ := hsame o' ho'
    have htax : o.federalTaxId = o'.federalTaxId := congrArg (fun c => c.2.2.2) hcolumns
    exact hchecks.federalTaxId o ho t (htax ▸ ht)
  · exact hnames ▸ hchecks.name

/-- The constraints do not read what a refresh changes. -/
theorem consistent_refreshSearch_iff (unit : ℤ) :
    (refreshSearch ts db unit).Consistent ↔ db.Consistent := by
  have hunits : (refreshSearch ts db unit).tOrgUnit.map constrained =
      db.tOrgUnit.map constrained := by
    rw [refreshSearch, List.map_map]
    refine List.map_congr_left fun o _ => ?_
    rw [Function.comp_apply]
    split <;> rfl
  constructor
  · exact consistent_of_constrained rfl rfl hunits.symm
  · exact consistent_of_constrained rfl rfl hunits

/-- **A change of names and the refresh of one unit** leave the vectors current if the other units
have the vectors of the names they now have. -/
theorem searchIsCurrent_refresh_iff {renamed : OrgDatabase V} {unit : ℤ} (hdb : UnitTables db)
    (hcurrent : SearchIsCurrent ts db) (hdb' : UnitTables (refreshSearch ts renamed unit))
    (hunits : renamed.tOrgUnit = db.tOrgUnit) :
    SearchIsCurrent ts (refreshSearch ts renamed unit) ↔
      ∀ o ∈ db.tOrgUnit, o.id ≠ unit →
        weightedVector ts (db.defaultName o.id) o.federalTaxId o.keywords =
          weightedVector ts (renamed.defaultName o.id) o.federalTaxId o.keywords := by
  rw [searchIsCurrent_iff_defaultName hdb']
  rw [searchIsCurrent_iff_defaultName hdb] at hcurrent
  constructor
  · intro h o ho hne
    have hvector := h _ (List.mem_map_of_mem (hunits ▸ ho))
    rw [if_neg hne, hcurrent o ho] at hvector
    exact Option.some.inj hvector
  · intro h o' ho'
    obtain ⟨o, ho, rfl⟩ := List.mem_map.mp ho'
    rw [hunits] at ho
    by_cases hunit : o.id = unit
    · rw [if_pos hunit]
      rfl
    · rw [if_neg hunit, hcurrent o ho, h o ho hunit]
      rfl

end Refresh

/-- The tables with one more name. -/
def withNewName (db : OrgDatabase V) (row : LocalizedOrgUnit) : OrgDatabase V :=
  { db with tLocalizedOrgUnit := db.tLocalizedOrgUnit ++ [row] }

/-- The tables without the row of that id. -/
def withoutName (db : OrgDatabase V) (id : ℤ) : OrgDatabase V :=
  { db with tLocalizedOrgUnit := db.tLocalizedOrgUnit.filter fun loc => loc.id ≠ id }

/-! ## The names after a statement -/

section Names

variable {db : OrgDatabase V}

/-- A name that is added is one of its unit. -/
theorem defaultNames_withNewName {row : LocalizedOrgUnit} {unit : ℤ}
    (h : unit ≠ row.orgUnitId) :
    defaultNames (withNewName db row) unit = defaultNames db unit := by
  simp [defaultNames, withNewName, List.filter_append, OrgDatabase.isDefaultLocale, h.symm]

/-- A name that is deleted is gone. -/
theorem defaultNames_withoutName (id unit : ℤ) :
    defaultNames (withoutName db id) unit =
      (defaultNames db unit).filter fun loc => loc.id ≠ id :=
  List.filter_comm _ _ _

/-- A name that is taken to another unit is gone. -/
theorem defaultNames_withName {id : ℤ} {row : LocalizedOrgUnit} {unit : ℤ}
    (h : unit ≠ row.orgUnitId) :
    defaultNames (withName db id row) unit =
      (defaultNames db unit).filter fun loc => loc.id ≠ id := by
  refine filter_map_replace _ ?_ _
  simp [h.symm]

/-- Without a name that the unit does not have. -/
theorem filter_defaultNames_of_ne {id unit : ℤ}
    (h : ∀ loc ∈ defaultNames db unit, loc.id ≠ id) :
    ((defaultNames db unit).filter fun loc => loc.id ≠ id) = defaultNames db unit := by
  rw [List.filter_eq_self]
  intro loc hloc
  exact decide_eq_true (h loc hloc)

/-- Without the name that the unit has. -/
theorem filter_defaultNames_of_mem (hdb : UnitTables db) {unit : ℤ} {old : LocalizedOrgUnit}
    (h : old ∈ defaultNames db unit) :
    ((defaultNames db unit).filter fun loc => loc.id ≠ old.id) = [] := by
  rw [defaultNames_eq_singleton hdb h]
  simp

end Names

/-! ## The statements -/

section Statements

variable {ts : TextSearch V} {db : OrgDatabase V}

theorem change_updateLocalized {id : ℤ} {row : LocalizedOrgUnit}
    (h : ∃ loc ∈ db.tLocalizedOrgUnit, loc.id = id) :
    db.change ts (.updateLocalized id row) =
      refreshSearch ts (withName db id row) row.orgUnitId :=
  if_pos (by simpa using h)

theorem change_updateLocalized_missing {id : ℤ} {row : LocalizedOrgUnit}
    (h : ∀ loc ∈ db.tLocalizedOrgUnit, loc.id ≠ id) :
    db.change ts (.updateLocalized id row) = withName db id row :=
  if_neg (by simpa using h)

theorem withName_missing {id : ℤ} {row : LocalizedOrgUnit}
    (h : ∀ loc ∈ db.tLocalizedOrgUnit, loc.id ≠ id) : withName db id row = db := by
  have hsame : (db.tLocalizedOrgUnit.map fun loc => if loc.id = id then row else loc) =
      db.tLocalizedOrgUnit := by
    refine (List.map_congr_left fun loc hloc => ?_).trans (List.map_id _)
    rw [if_neg (h loc hloc)]
    rfl
  rw [withName, hsame]

theorem change_deleteLocalized {old : LocalizedOrgUnit} (hkeys : db.Keys)
    (h : old ∈ db.tLocalizedOrgUnit) :
    db.change ts (.deleteLocalized old.id) =
      refreshSearch ts (withoutName db old.id) old.orgUnitId := by
  have hfound : ∃ loc, (db.tLocalizedOrgUnit.find? fun loc => loc.id = old.id) = some loc := by
    rw [← Option.isSome_iff_exists, List.find?_isSome]
    exact ⟨old, h, by simp⟩
  obtain ⟨loc, hloc⟩ := hfound
  have hid : loc.id = old.id := by simpa using List.find?_some hloc
  have hsame : loc = old := eq_of_key hkeys.localizedId (List.mem_of_find?_eq_some hloc) h hid
  simp only [OrgDatabase.change, hloc, hsame]
  rfl

theorem change_deleteLocalized_missing {id : ℤ} (h : ∀ loc ∈ db.tLocalizedOrgUnit, loc.id ≠ id) :
    db.change ts (.deleteLocalized id) = db := by
  have hnone : (db.tLocalizedOrgUnit.find? fun loc => loc.id = id) = none := by
    rw [List.find?_eq_none]
    simpa using h
  have hsame : (db.tLocalizedOrgUnit.filter fun loc => loc.id ≠ id) = db.tLocalizedOrgUnit :=
    List.filter_eq_self.mpr fun loc hloc => decide_eq_true (h loc hloc)
  simp only [OrgDatabase.change, hnone, hsame]

theorem insertOrgUnit_current {row : OrgUnit V} (hdb : UnitTables db)
    (hcurrent : SearchIsCurrent ts db) (hdb' : UnitTables (db.change ts (.insertOrgUnit row))) :
    SearchIsCurrent ts (db.change ts (.insertOrgUnit row)) := by
  rw [searchIsCurrent_iff_defaultName hdb']
  rw [searchIsCurrent_iff_defaultName hdb] at hcurrent
  intro o ho
  rcases List.mem_append.mp ho with ho | ho
  · exact hcurrent o ho
  · obtain rfl := List.mem_singleton.mp ho
    rfl

/-- A unit that gets another id has no name before and none after. -/
theorem defaultName_update {id : ℤ} {set : OrgUnitUpdate V} (hdb : UnitTables db)
    (hdb' : UnitTables (db.change ts (.updateOrgUnit id set))) {o : OrgUnit V}
    (ho : o ∈ db.tOrgUnit) (hid : o.id = id) :
    db.defaultName (set.id.getD o.id) = db.defaultName o.id := by
  by_cases hsame : set.id.getD o.id = o.id
  · rw [hsame]
  · have hids : (db.change ts (.updateOrgUnit id set)).tOrgUnit.map OrgUnit.id =
        db.tOrgUnit.map fun u => if u.id = id then set.id.getD u.id else u.id := by
      simp only [OrgDatabase.change, List.map_map]
      refine List.map_congr_left fun u _ => ?_
      rw [Function.comp_apply, apply_ite OrgUnit.id]
      congr 1
      unfold OrgDatabase.updatedOrgUnit
      split <;> rfl
    have hkeys := hdb'.consistent.keys.orgUnitId
    -- no other unit has the new id, and none has the old one any more
    have hnew : set.id.getD o.id ∉ db.tOrgUnit.map OrgUnit.id := by
      intro hmem
      obtain ⟨u, hu, huid⟩ := List.mem_map.mp hmem
      have hune : u.id ≠ id := fun h => hsame (huid.symm.trans (h.trans hid.symm))
      rw [hids] at hkeys
      have huo : u = o := by
        refine eq_of_key hkeys hu ho ?_
        rw [if_neg hune, if_pos hid, huid]
      exact hune (huo ▸ hid)
    have hold : o.id ∉ (db.change ts (.updateOrgUnit id set)).tOrgUnit.map OrgUnit.id := by
      rw [hids]
      intro hmem
      obtain ⟨u, hu, huid⟩ := List.mem_map.mp hmem
      by_cases h : u.id = id
      · have huo : u = o := eq_of_key hdb.consistent.keys.orgUnitId hu ho (h.trans hid.symm)
        rw [if_pos h, huo] at huid
        exact hsame huid
      · rw [if_neg h] at huid
        exact h (huid.trans hid)
    rw [defaultName_eq_none hdb.consistent hnew]
    exact (defaultName_eq_none hdb'.consistent hold).symm

theorem updateOrgUnit_current {id : ℤ} {set : OrgUnitUpdate V} (hset : set.searchVector = none)
    (hdb : UnitTables db) (hcurrent : SearchIsCurrent ts db)
    (hdb' : UnitTables (db.change ts (.updateOrgUnit id set))) :
    SearchIsCurrent ts (db.change ts (.updateOrgUnit id set)) := by
  rw [searchIsCurrent_iff_defaultName hdb']
  rw [searchIsCurrent_iff_defaultName hdb] at hcurrent
  intro o' ho'
  obtain ⟨o, ho, rfl⟩ := List.mem_map.mp ho'
  by_cases hid : o.id = id
  · have hname := defaultName_update hdb hdb' ho hid
    rw [if_pos hid]
    unfold OrgDatabase.updatedOrgUnit
    split
    · rfl
    · next hfires =>
      have hkept : set.federalTaxId = none ∧ set.keywords = none := by
        simpa [OrgUnitUpdate.firesTrigger] using hfires
      have hvector := hcurrent o ho
      rw [← hname] at hvector
      simp only [OrgUnitUpdate.assign, hset, hkept.1, hkept.2, Option.getD_none]
      exact hvector
  · rw [if_neg hid]
    exact hcurrent o ho

theorem deleteOrgUnit_current {id : ℤ} (hdb : UnitTables db) (hcurrent : SearchIsCurrent ts db)
    (hdb' : UnitTables (db.change ts (.deleteOrgUnit id))) :
    SearchIsCurrent ts (db.change ts (.deleteOrgUnit id)) := by
  rw [searchIsCurrent_iff_defaultName hdb']
  rw [searchIsCurrent_iff_defaultName hdb] at hcurrent
  intro o' ho'
  obtain ⟨o, ho, rfl⟩ := List.mem_map.mp ho'
  obtain ⟨hmem, hne⟩ := List.mem_filter.mp ho
  have hnames : defaultNames (db.change ts (.deleteOrgUnit id)) o.id = defaultNames db o.id := by
    refine (List.filter_comm _ _ _).trans (List.filter_eq_self.mpr ?_)
    intro loc hloc
    have hunit : loc.orgUnitId = o.id := by
      have hselected := (List.mem_filter.mp hloc).2
      rw [Bool.and_eq_true, decide_eq_true_eq] at hselected
      exact hselected.1
    rw [hunit]
    exact hne
  have hvector := hcurrent o hmem
  rw [defaultName_eq, ← hnames, ← defaultName_eq] at hvector
  split <;> exact hvector

theorem insertLocalized_current {row : LocalizedOrgUnit} (hdb : UnitTables db)
    (hcurrent : SearchIsCurrent ts db)
    (hdb' : UnitTables (db.change ts (.insertLocalized row))) :
    SearchIsCurrent ts (db.change ts (.insertLocalized row)) := by
  have hchange : db.change ts (.insertLocalized row) =
      refreshSearch ts (withNewName db row) row.orgUnitId := rfl
  rw [hchange] at hdb' ⊢
  refine (searchIsCurrent_refresh_iff hdb hcurrent hdb' rfl).mpr fun o _ hne => ?_
  rw [defaultName_eq, defaultName_eq, defaultNames_withNewName hne]

theorem deleteLocalized_current {id : ℤ} (hdb : UnitTables db) (hcurrent : SearchIsCurrent ts db)
    (hdb' : UnitTables (db.change ts (.deleteLocalized id))) :
    SearchIsCurrent ts (db.change ts (.deleteLocalized id)) := by
  by_cases hthere : ∃ old ∈ db.tLocalizedOrgUnit, old.id = id
  · obtain ⟨old, hold, rfl⟩ := hthere
    rw [change_deleteLocalized hdb.consistent.keys hold] at hdb' ⊢
    refine (searchIsCurrent_refresh_iff hdb hcurrent hdb' rfl).mpr fun o _ hne => ?_
    have hkept : ∀ loc ∈ defaultNames db o.id, loc.id ≠ old.id := by
      intro loc hloc hid
      obtain ⟨hmem, hunit, -⟩ := mem_defaultNames.mp hloc
      have hsame : loc = old := eq_of_key hdb.consistent.keys.localizedId hmem hold hid
      exact hne (hunit.symm.trans (hsame ▸ rfl))
    rw [defaultName_eq, defaultName_eq, defaultNames_withoutName, filter_defaultNames_of_ne hkept]
  · rw [change_deleteLocalized_missing fun loc hloc hid => hthere ⟨loc, hloc, hid⟩]
    exact hcurrent

/-- The replaced row is what the constraints see of an update. -/
theorem consistent_updateLocalized_iff {id : ℤ} {row : LocalizedOrgUnit} :
    (db.change ts (.updateLocalized id row)).Consistent ↔ (withName db id row).Consistent := by
  by_cases hthere : ∃ old ∈ db.tLocalizedOrgUnit, old.id = id
  · rw [change_updateLocalized hthere]
    exact consistent_refreshSearch_iff row.orgUnitId
  · rw [change_updateLocalized_missing fun loc hloc hid => hthere ⟨loc, hloc, hid⟩]

/-- **An update of a name.** -/
theorem updateLocalized_current_iff {id : ℤ} {row : LocalizedOrgUnit} (hdb : UnitTables db)
    (hcurrent : SearchIsCurrent ts db)
    (hdb' : UnitTables (db.change ts (.updateLocalized id row))) :
    SearchIsCurrent ts (db.change ts (.updateLocalized id row)) ↔
      ∀ old ∈ db.tLocalizedOrgUnit, old.id = id → db.isDefaultLocale old.localeId →
        ∀ o ∈ db.tOrgUnit, o.id = old.orgUnitId → o.id ≠ row.orgUnitId →
          weightedVector ts (some old.name) o.federalTaxId o.keywords =
            weightedVector ts none o.federalTaxId o.keywords := by
  by_cases hthere : ∃ old ∈ db.tLocalizedOrgUnit, old.id = id
  · rw [change_updateLocalized hthere] at hdb' ⊢
    rw [searchIsCurrent_refresh_iff hdb hcurrent hdb' rfl]
    constructor
    · rintro h old hold rfl hdefault o ho hunit hne
      have hmem : old ∈ defaultNames db o.id := mem_defaultNames.mpr ⟨hold, hunit.symm, hdefault⟩
      have hvector := h o ho hne
      rwa [defaultName_eq, defaultName_eq, defaultNames_withName hne,
        filter_defaultNames_of_mem hdb hmem, defaultNames_eq_singleton hdb hmem] at hvector
    · intro h o ho hne
      rw [defaultName_eq, defaultName_eq, defaultNames_withName hne]
      by_cases hhas : ∃ old ∈ defaultNames db o.id, old.id = id
      · obtain ⟨old, hmem, rfl⟩ := hhas
        obtain ⟨hold, hunit, hdefault⟩ := mem_defaultNames.mp hmem
        rw [filter_defaultNames_of_mem hdb hmem, defaultNames_eq_singleton hdb hmem]
        exact h old hold rfl hdefault o ho hunit.symm hne
      · rw [filter_defaultNames_of_ne fun loc hloc hid => hhas ⟨loc, hloc, hid⟩]
  · have hmissing : ∀ loc ∈ db.tLocalizedOrgUnit, loc.id ≠ id := by
      intro loc hloc hid
      exact hthere ⟨loc, hloc, hid⟩
    rw [change_updateLocalized_missing hmissing, withName_missing hmissing]
    refine iff_of_true hcurrent ?_
    intro old hold hid
    exact absurd hid (hmissing old hold)

end Statements

/-! ## One statement -/

section Steps

variable (ts : TextSearch V)

theorem tLocale_change (db : OrgDatabase V) {statement : OrgStatement V}
    (h : OnUnits statement) : (db.change ts statement).tLocale = db.tLocale := by
  cases statement with
  | insertLocale row => exact h.elim
  | updateLocale id row => exact h.elim
  | deleteLocale id => exact h.elim
  | insertOrgUnit row => rfl
  | updateOrgUnit id set => rfl
  | deleteOrgUnit id => rfl
  | insertLocalized row => rfl
  | updateLocalized id row =>
    simp only [OrgDatabase.change]
    split <;> rfl
  | deleteLocalized id =>
    simp only [OrgDatabase.change]
    split <;> rfl

/-- What a statement leaves: the tables as they were, or as the statement changes them. -/
theorem unitServer_step (db : OrgDatabase V) (c : UnitChange V) :
    ((unitServer ts).step db c).1 =
      if c.refused = false ∧ (db.change ts c.statement).Consistent then
        db.change ts c.statement
      else db := by
  unfold unitServer OrgDatabase.server OrgDatabase.execute OrgDatabase.checked
  cases hrefused : c.refused with
  | true => simp [hrefused]
  | false =>
    by_cases h : (db.change ts c.statement).Consistent <;> simp [hrefused, h]

theorem unitTables_change {db : OrgDatabase V} (hdb : UnitTables db) {c : UnitChange V}
    (h : (db.change ts c.statement).Consistent) : UnitTables (db.change ts c.statement) :=
  ⟨h, (tLocale_change ts db c.onUnits).trans hdb.locales⟩

theorem unitServer_step_tables {db : OrgDatabase V} (hdb : UnitTables db) (c : UnitChange V) :
    UnitTables ((unitServer ts).step db c).1 := by
  rw [unitServer_step]
  split
  · next h => exact unitTables_change ts hdb h.2
  · exact hdb

/-- A statement that is refused moves no name. -/
theorem movesCleanly_of_refused {db : OrgDatabase V} {c : UnitChange V}
    (h : ¬ (c.refused = false ∧ (db.change ts c.statement).Consistent)) :
    MovesCleanly ts db c := by
  unfold MovesCleanly
  split
  · next id row hstatement =>
    intro hrefused hconsistent
    rw [hstatement] at h
    exact absurd ⟨hrefused, consistent_updateLocalized_iff.mpr hconsistent⟩ h
  · trivial

/-- **One statement.** -/
theorem step_searchIsCurrent_iff {db : OrgDatabase V} (hdb : UnitTables db)
    (hcurrent : SearchIsCurrent ts db) (c : UnitChange V) :
    SearchIsCurrent ts ((unitServer ts).step db c).1 ↔ MovesCleanly ts db c := by
  rw [unitServer_step]
  split
  · next h =>
    obtain ⟨hrefused, hconsistent⟩ := h
    have hdb' := unitTables_change ts hdb hconsistent
    obtain ⟨statement, refused, hon⟩ := c
    cases statement with
    | insertLocale row => exact hon.elim
    | updateLocale id row => exact hon.elim
    | deleteLocale id => exact hon.elim
    | insertOrgUnit row => exact iff_of_true (insertOrgUnit_current hdb hcurrent hdb') trivial
    | updateOrgUnit id set =>
      exact iff_of_true (updateOrgUnit_current hon hdb hcurrent hdb') trivial
    | deleteOrgUnit id => exact iff_of_true (deleteOrgUnit_current hdb hcurrent hdb') trivial
    | insertLocalized row =>
      exact iff_of_true (insertLocalized_current hdb hcurrent hdb') trivial
    | deleteLocalized id =>
      exact iff_of_true (deleteLocalized_current hdb hcurrent hdb') trivial
    | updateLocalized id row =>
      have haccepted := consistent_updateLocalized_iff.mp hconsistent
      rw [updateLocalized_current_iff hdb hcurrent hdb']
      constructor
      · intro h _ _
        exact h
      · intro h
        exact h hrefused haccepted
  · next h => exact iff_of_true hcurrent (movesCleanly_of_refused ts h)

end Steps

theorem unitTables_installed : UnitTables (.installed : OrgDatabase V) :=
  ⟨OrgDatabase.installed_consistent, rfl⟩

/-- **Every vector stays the current one exactly when no update takes a unit's name in the default
locale away and leaves its lexemes in the vector.** -/
theorem searchIsCurrent_iff (ts : TextSearch V) (changes : List (UnitChange V)) :
    (∀ p, p <+: changes → SearchIsCurrent ts ((unitServer ts).run .installed p)) ↔
      (unitServer ts).Along (MovesCleanly ts) .installed changes := by
  refine (unitServer ts).prefix_invariant_iff UnitTables (SearchIsCurrent ts) (MovesCleanly ts)
    ?_ ?_ _ changes unitTables_installed ?_
  · intro db c hdb
    exact unitServer_step_tables ts hdb c
  · intro db c hdb hcurrent
    exact step_searchIsCurrent_iff ts hdb hcurrent c
  · intro o ho
    cases ho

/-- `tsvector` for texts that are empty or one word in lower case: lexemes with their positions and
weights. -/
def wordSearch : TextSearch (List (SqlText × ℕ × Char)) where
  toTsvector text := if text = [] then [] else [(text, 1, 'D')]
  setweight v weight := v.map fun (lexeme, position, _) => (lexeme, position, weight)
  concat v w :=
    let last := (v.map fun (_, position, _) => position).foldl max 0
    v ++ w.map fun (lexeme, position, weight) => (lexeme, position + last, weight)

/-- Two units, of which the first one's name is given to the second. -/
def movedName : List (UnitChange (List (SqlText × ℕ × Char))) :=
  [⟨.insertOrgUnit ⟨1, none, "Group".toList, none, true, none, none⟩, false, trivial⟩,
    ⟨.insertOrgUnit ⟨2, none, "Group".toList, none, true, none, none⟩, false, trivial⟩,
    ⟨.insertLocalized ⟨1, 1, 1, "acme".toList⟩, false, trivial⟩,
    ⟨.updateLocalized 1 ⟨1, 2, 1, "acme".toList⟩, false, trivial⟩]

/-- The first unit keeps the lexeme of the name. -/
theorem not_searchIsCurrent_movedName :
    ¬ ∀ changes : List (UnitChange (List (SqlText × ℕ × Char))),
      SearchIsCurrent wordSearch ((unitServer wordSearch).run .installed changes) := by
  intro h
  have hcurrent := h movedName
  have hdb := (unitServer wordSearch).run_invariant UnitTables
    (fun _ c hdb => unitServer_step_tables wordSearch hdb c) .installed movedName
    unitTables_installed
  rw [searchIsCurrent_iff_defaultName hdb] at hcurrent
  revert hcurrent
  decide

end Pensar.Analysis
