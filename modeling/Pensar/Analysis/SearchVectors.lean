import Pensar.Analysis.PersonRegister

/-!
# The search vectors that are stored

The triggers compute the vector of a row when it is written.  That of a unit depends on a row of
another table, its name in the default locale: a trigger on the names has it computed again.

Main results: `personVectors_reached`, `unitVectors_reached`.
-/

set_option autoImplicit false

namespace Pensar.Analysis

open Pensar.Computation
open Pensar.Model
open OrgDatabase (weightedVector)

variable {V D : Type} (ts : TextSearch V)

/-- The vector of a unit, from its columns and its name. -/
def unitVector (rows : List (Row V D)) (o : OrgUnit V) : V :=
  weightedVector ts ((Row.orgDatabase rows).defaultName o.id) o.federalTaxId o.keywords

/-- Every unit has the vector of its columns and its name. -/
def UnitVectors (rows : List (Row V D)) : Prop :=
  ∀ o, Row.orgUnit o ∈ rows → o.searchVector = some (unitVector ts rows o)

/-! ## Names -/

theorem defaultName_congr {rows rows' : List (Row V D)}
    (h : Row.select Row.localizedOrgUnit? rows' = Row.select Row.localizedOrgUnit? rows)
    (unit : ℤ) :
    (Row.orgDatabase rows').defaultName unit = (Row.orgDatabase rows).defaultName unit := by
  unfold OrgDatabase.defaultName OrgDatabase.isDefaultLocale Row.orgDatabase
  rw [h]

theorem unitVector_congr {rows rows' : List (Row V D)} {o : OrgUnit V}
    (h : (Row.orgDatabase rows').defaultName o.id = (Row.orgDatabase rows).defaultName o.id) :
    unitVector ts rows' o = unitVector ts rows o := by
  unfold unitVector
  rw [h]

theorem select_map_of {α : Type} {table : Row V D → Option α} {f : Row V D → Row V D}
    {rows : List (Row V D)} (h : ∀ r ∈ rows, table (f r) = table r) :
    Row.select table (rows.map f) = Row.select table rows := by
  unfold Row.select
  rw [List.filterMap_map]
  exact List.filterMap_congr h

theorem select_append_of {α : Type} {table : Row V D → Option α} {new : Row V D}
    (h : table new = none) (rows : List (Row V D)) :
    Row.select table (rows ++ [new]) = Row.select table rows := by
  simp [Row.select, List.filterMap_append, h]

theorem defaultName_append_of_ne {loc : LocalizedOrgUnit} {unit : ℤ} (h : loc.orgUnitId ≠ unit)
    (rows : List (Row V D)) :
    (Row.orgDatabase (rows ++ [.localizedOrgUnit loc])).defaultName unit =
      (Row.orgDatabase rows).defaultName unit := by
  have hselect : Row.select Row.localizedOrgUnit? (rows ++ [.localizedOrgUnit loc]) =
      Row.select Row.localizedOrgUnit? rows ++ [loc] := by
    simp [Row.select, List.filterMap_append, Row.localizedOrgUnit?]
  refine congrArg (Option.map LocalizedOrgUnit.name) ?_
  show (Row.select Row.localizedOrgUnit? (rows ++ [.localizedOrgUnit loc])).find? _ = _
  rw [hselect, List.find?_append, List.find?_cons_of_neg (by simp [h]), List.find?_nil,
    Option.or_none]
  rfl

/-- What is looked for is not among the rows that are left out. -/
theorem find?_select_filter {α : Type} {table : Row V D → Option α} {p : Row V D → Bool}
    {q : α → Bool} {rows : List (Row V D)}
    (h : ∀ r ∈ rows, ∀ a, table r = some a → q a = true → p r = true) :
    (Row.select table (rows.filter p)).find? q = (Row.select table rows).find? q := by
  induction rows with
  | nil => rfl
  | cons r rows ih =>
    have hrest := ih fun r hr => h r (List.mem_cons_of_mem _ hr)
    unfold Row.select at hrest ⊢
    by_cases hp : p r = true
    · rw [List.filter_cons_of_pos hp, List.filterMap_cons, List.filterMap_cons]
      cases htable : table r with
      | none => exact hrest
      | some a =>
        rw [List.find?_cons, List.find?_cons, hrest]
    · rw [List.filter_cons_of_neg hp, hrest, List.filterMap_cons]
      cases htable : table r with
      | none => rfl
      | some a =>
        rw [List.find?_cons_of_neg]
        exact fun hq => hp (h r List.mem_cons_self a htable hq)

/-- A change of units leaves the names as they are. -/
theorem Refreshes.localizedOrgUnit? {f : Row V D → Row V D} (hf : Refreshes f) (r : Row V D) :
    (f r).localizedOrgUnit? = r.localizedOrgUnit? :=
  hf.kind_eq (fun _ _ => rfl) r

/-! ## Statements -/

variable {ts}

/-- A row that a statement writes beside the names: if it is a unit, it has its vector. -/
structure Vectored (ts : TextSearch V) (rows : List (Row V D)) (new : Row V D) : Prop where
  noName : new.localizedOrgUnit? = none
  unit : ∀ o, new = .orgUnit o → o.searchVector = some (unitVector ts rows o)

theorem UnitVectors.append {rows : List (Row V D)} (h : UnitVectors ts rows) {new : Row V D}
    (hnew : Vectored ts rows new) : UnitVectors ts (rows ++ [new]) := by
  intro o ho
  rw [unitVector_congr ts (defaultName_congr (select_append_of hnew.noName rows) o.id)]
  rcases List.mem_append.mp ho with ho | ho
  · exact h o ho
  · exact hnew.unit o (List.mem_singleton.mp ho).symm

theorem UnitVectors.replace {rows : List (Row V D)} (h : UnitVectors ts rows) {new : Row V D}
    (hnew : Vectored ts rows new) : UnitVectors ts (Row.schema.replace rows new) := by
  intro o ho
  have hnames : Row.select Row.localizedOrgUnit? (Row.schema.replace rows new) =
      Row.select Row.localizedOrgUnit? rows := by
    refine select_map_of fun r _ => ?_
    split
    · next hkey =>
      -- the row that is replaced is in the table of the new one
      cases r with
      | localizedOrgUnit r =>
        cases new with
        | localizedOrgUnit _ => exact absurd hnew.noName (by simp [Row.localizedOrgUnit?])
        | _ => cases congrArg Prod.fst hkey
      | _ => exact hnew.noName
    · rfl
  rw [unitVector_congr ts (defaultName_congr hnames o.id)]
  rcases Row.schema.mem_replace_iff.mp ho with ⟨heq, -⟩ | ⟨ho, -⟩
  · exact hnew.unit o heq.symm
  · exact h o ho

/-- **A new name**: its unit is refreshed, and the others have the names that they had. -/
theorem UnitVectors.insertLocalized {rows : List (Row V D)} (h : UnitVectors ts rows)
    (loc : LocalizedOrgUnit) :
    UnitVectors ts (Row.refreshSearch ts loc.orgUnitId (rows ++ [.localizedOrgUnit loc])) := by
  intro o ho
  obtain ⟨f, hf, hmap⟩ := refreshSearch_refreshes ts loc.orgUnitId (rows ++ [.localizedOrgUnit loc])
  have hnames : ∀ unit, (Row.orgDatabase
      (Row.refreshSearch ts loc.orgUnitId (rows ++ [.localizedOrgUnit loc]))).defaultName unit =
        (Row.orgDatabase (rows ++ [.localizedOrgUnit loc])).defaultName unit := by
    intro unit
    refine defaultName_congr ?_ unit
    rw [hmap]
    exact select_map_of fun r _ => hf.localizedOrgUnit? r
  rw [unitVector_congr ts (hnames o.id)]
  obtain ⟨r, hr, hro⟩ := List.mem_map.mp ho
  cases r with
  | orgUnit u =>
    dsimp only at hro
    split at hro
    · cases hro
      rfl
    · next hne =>
      cases hro
      rcases List.mem_append.mp hr with hr | hr
      · rw [h o hr]
        exact congrArg some (unitVector_congr ts (defaultName_append_of_ne (Ne.symm hne) rows)).symm
      · cases List.mem_singleton.mp hr
  | _ => cases hro

/-- **A delete** of a row that is no name: a unit that is left keeps its names. -/
theorem UnitVectors.delete {rows : List (Row V D)} (h : UnitVectors ts rows)
    (hrows : Row.schema.Consistent rows) {k : RowKey} (hk : k.1 ≠ .tLocalizedOrgUnit) :
    UnitVectors ts (Row.schema.delete rows k) := by
  intro o ho
  rw [delete_eq_filter hrows] at ho ⊢
  obtain ⟨r, hr, hro⟩ := List.mem_map.mp ho
  obtain ⟨hmem, hkept⟩ := List.mem_filter.mp hr
  cases r with
  | orgUnit u =>
    cases hro
    have hnames : (Row.orgDatabase ((rows.filter fun r => ¬ DependsOn rows k r).map
        (detach k))).defaultName u.id = (Row.orgDatabase rows).defaultName u.id := by
      have hdetach : (Row.orgDatabase ((rows.filter fun r => ¬ DependsOn rows k r).map
          (detach k))).defaultName u.id =
          (Row.orgDatabase (rows.filter fun r => ¬ DependsOn rows k r)).defaultName u.id :=
        defaultName_congr (select_map_of fun r _ => by cases r <;> rfl) u.id
      rw [hdetach]
      refine congrArg (Option.map LocalizedOrgUnit.name) (find?_select_filter ?_)
      intro r hr loc hloc hunit
      cases r with
      | localizedOrgUnit r =>
        cases hloc
        rw [Bool.and_eq_true, decide_eq_true_eq] at hunit
        refine decide_eq_true fun hdepends => ?_
        rcases hdepends with hkey | hrefers | ⟨q, hq, hdirect, hrefers⟩
        · exact hk (congrArg Prod.fst hkey).symm
        · -- the unit of the name would be the row that is deleted
          have hkey := List.mem_singleton.mp hrefers
          rw [hunit.1] at hkey
          exact of_decide_eq_true hkept (Or.inl hkey.symm)
        · have hkey := List.mem_singleton.mp hrefers
          cases q with
          | orgUnit q => cases hdirect
          | _ => cases congrArg Prod.fst hkey
      | _ => cases hloc
    exact (h u hmem).trans (congrArg some (unitVector_congr ts hnames).symm)
  | _ => cases hro

/-! ## Calls -/

section Calls

variable {s : ContactTables V D}

theorem UnitVectors.insertRow (h : UnitVectors ts s.rows) (table : Table)
    {build : ℤ → Option (Row V D)} (hbuild : ∀ id r, build id = some r → Vectored ts s.rows r)
    (fate : Fate) : UnitVectors ts (s.insertRow table build id fate).1.rows := by
  rcases s.insertRow_cases table build id fate with ⟨new, rows, -, hnew, hrows, heq⟩ | ⟨-, heq⟩
  · obtain ⟨-, -, rfl⟩ := Row.schema.insert_eq_some_iff.mp hrows
    rw [heq]
    exact h.append (hbuild _ _ hnew)
  · rw [heq]
    exact h

theorem UnitVectors.insertOwned (h : UnitVectors ts s.rows) (table : Table)
    (personId orgUnitId : ℤ) {build : ℤ → ContactOwner → Option (Row V D)}
    (hbuild : ∀ id o r, build id o = some r → Vectored ts s.rows r) (fate : Fate) :
    UnitVectors ts (s.insertOwned table personId orgUnitId build fate).1.rows := by
  unfold ContactTables.insertOwned
  cases ContactDAO.owner personId orgUnitId with
  | none => exact h
  | some o => exact h.insertRow table (fun id r => hbuild id o r) fate

theorem UnitVectors.updateRow (h : UnitVectors ts s.rows) (key : RowKey)
    {change : Row V D → Option (Row V D)}
    (hchange : ∀ old new, change old = some new → Vectored ts s.rows new) (fate : Fate) :
    UnitVectors ts (s.updateRow key change fate).1.rows := by
  rcases s.updateRow_cases key change fate with
    ⟨old, new, rows, -, -, hnew, hrows, heq⟩ | ⟨-, -, heq⟩ | ⟨-, heq⟩
  · obtain ⟨-, rfl⟩ := Row.schema.update_eq_some_iff.mp hrows
    rw [heq]
    exact h.replace (hchange _ _ hnew)
  · rw [heq]
    exact h
  · rw [heq]
    exact h

theorem UnitVectors.removeRow (h : UnitVectors ts s.rows) (hrows : Row.schema.Consistent s.rows)
    {key : RowKey} (hkey : key.1 ≠ .tLocalizedOrgUnit) (fate : Fate) :
    UnitVectors ts (s.removeRow key fate).1.rows := by
  rcases s.removeRow_cases key fate with ⟨-, heq⟩ | ⟨-, heq⟩
  · rw [heq]
    exact h.delete hrows hkey
  · rw [heq]
    exact h

/-- A row that is neither a name nor a unit. -/
theorem vectored_of_other {rows : List (Row V D)} {r : Row V D}
    (hname : r.localizedOrgUnit? = none) (hunit : r.orgUnit? = none) : Vectored ts rows r :=
  ⟨hname, fun o ho => by rw [ho] at hunit; cases hunit⟩

/-- Such rows, made of what a call builds. -/
theorem vectored_of_map {α : Type} {rows : List (Row V D)} {table : α → Row V D} {a : Option α}
    {r : Row V D} (hname : ∀ a, (table a).localizedOrgUnit? = none)
    (hunit : ∀ a, (table a).orgUnit? = none) (h : a.map table = some r) : Vectored ts rows r := by
  obtain ⟨a, -, rfl⟩ := Option.map_eq_some_iff.mp h
  exact vectored_of_other (hname a) (hunit a)

/-- The row of a unit is stored with its vector. -/
theorem vectored_orgUnitRow {o : OrgUnitDTO} {id : ℤ} {r : Row V D}
    (h : s.orgUnitRow ts o id = some r) : Vectored ts s.rows r := by
  obtain ⟨columns, -, rfl⟩ := Option.map_eq_some_iff.mp h
  refine ⟨rfl, fun o ho => ?_⟩
  cases ho
  rfl

/-- **One call.** -/
theorem UnitVectors.step (dates : DateText D) (h : UnitVectors ts s.rows)
    (hrows : Row.schema.Consistent s.rows) (call : DaoCall D) (fate : Fate) :
    UnitVectors ts ((contactSystem ts dates).step s (call, fate)).1.rows := by
  cases call with
  | insertPerson p =>
    exact h.insertRow _ (fun _ _ => vectored_of_map (fun _ => rfl) fun _ => rfl) fate
  | updatePerson p =>
    exact h.updateRow _ (fun _ _ => vectored_of_map (fun _ => rfl) fun _ => rfl) fate
  | removePerson id => exact h.removeRow hrows (by simp) fate
  | insertOrgUnit o => exact h.insertRow _ (fun _ _ => vectored_orgUnitRow) fate
  | insertLocalized loc =>
    rcases s.insertRow_cases .tLocalizedOrgUnit
        (fun id => (varchar 200 loc.name).map fun name =>
          .localizedOrgUnit ⟨id, loc.orgUnitId, loc.localeId, name⟩)
        (Row.refreshSearch ts loc.orgUnitId) fate with
      ⟨new, rows, -, hnew, hinsert, heq⟩ | ⟨-, heq⟩
    · obtain ⟨-, -, rfl⟩ := Row.schema.insert_eq_some_iff.mp hinsert
      obtain ⟨name, -, rfl⟩ := Option.map_eq_some_iff.mp hnew
      rw [show (contactSystem ts dates).step s (.insertLocalized loc, fate) = _ from heq]
      exact h.insertLocalized ⟨_, loc.orgUnitId, loc.localeId, name⟩
    · rw [show (contactSystem ts dates).step s (.insertLocalized loc, fate) = _ from heq]
      exact h
  | updateOrgUnit o => exact h.updateRow _ (fun _ _ => vectored_orgUnitRow) fate
  | removeOrgUnit id => exact h.removeRow hrows (by simp) fate
  | insertPhone p =>
    exact h.insertOwned _ _ _ (fun _ _ _ => vectored_of_map (fun _ => rfl) fun _ => rfl) fate
  | removePhone id => exact h.removeRow hrows (by simp) fate
  | insertEmail e =>
    exact h.insertOwned _ _ _ (fun _ _ _ => vectored_of_map (fun _ => rfl) fun _ => rfl) fate
  | removeEmail id => exact h.removeRow hrows (by simp) fate
  | insertAddress a =>
    exact h.insertOwned _ _ _ (fun _ _ _ => vectored_of_map (fun _ => rfl) fun _ => rfl) fate
  | removeAddress id => exact h.removeRow hrows (by simp) fate
  | insertRole r =>
    refine h.insertRow _ (fun id new hnew => ?_) fate
    obtain rfl := Option.some.inj hnew
    exact vectored_of_other rfl rfl
  | insertLocalizedRole lr =>
    exact h.insertRow _ (fun _ _ => vectored_of_map (fun _ => rfl) fun _ => rfl) fate
  | removeRole id => exact h.removeRow hrows (by simp) fate
  | insertPersonOrgRelation por =>
    exact h.insertRow _ (fun _ _ => vectored_of_map (fun _ => rfl) fun _ => rfl) fate
  | assignRole pr today =>
    exact h.insertRow _ (fun _ _ => vectored_of_map (fun _ => rfl) fun _ => rfl) fate
  | unassignRole id => exact h.removeRow hrows (by simp) fate
  | insertVisibility v =>
    show UnitVectors ts (s.insertVisibility v fate).1.rows
    unfold ContactTables.insertVisibility
    cases VisibilityDAO.viewer v with
    | none => exact h
    | some viewer =>
      exact h.insertRow _ (fun _ _ => vectored_of_map (fun _ => rfl) fun _ => rfl) fate
  | removeVisibility id => exact h.removeRow hrows (by simp) fate

end Calls

/-! ## Every run -/

variable (ts) (dates : DateText D) (calls : List (DaoCall D × Fate))

/-- After any calls, every unit has its vector. -/
theorem unitVectors_reached : UnitVectors ts (reached ts dates calls).rows := by
  have hrun := (contactSystem ts dates).run_invariant
    (fun s => Row.schema.Consistent s.rows ∧ UnitVectors ts s.rows)
    (fun s i h => ⟨(contactSystem_change ts dates s i.1 i.2).consistent h.1,
      h.2.step dates h.1 i.1 i.2⟩) .installed calls
    ⟨Row.schema.consistent_nil, fun _ ho => nomatch ho⟩
  exact hrun.2

/-- After any calls, every person has its vector. -/
theorem personVectors_reached {r : PersonRecord V D}
    (hr : Row.person r ∈ (reached ts dates calls).rows) :
    r.searchVector = some (r.vector ts) := by
  obtain ⟨-, hkeeps⟩ := keeps_run ts dates calls
  obtain ⟨p, hp⟩ := hkeeps.built r hr
  obtain ⟨-, -, -, -, -, -, -, -, -, -, -, hvector⟩ := (PersonDAO.row_eq_some_iff ts dates).mp hp
  exact hvector

end Pensar.Analysis
