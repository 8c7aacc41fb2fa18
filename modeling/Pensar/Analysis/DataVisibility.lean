import Pensar.Model.VisibilityDAO

/-!
# Does `can_view` honour the rules?

A rule is for a person, for a role or for a unit.  `can_view` counts the rules for the person that
asks and no others, so that a rule for a role or a unit changes no answer.

Main result: `honoursRules_iff` says for which contents of the tables the answer is what the rules
say.
-/

set_option autoImplicit false

namespace Pensar.Analysis

open Pensar.Model

/-! ## What the rules say -/

/-- The rule lets its viewer see that category of the owner's data. -/
def Covers (rule : DataVisibility) (owner : ℤ) (category : SqlText) : Prop :=
  rule.ownerPersonId = owner ∧ rule.canView = true ∧
    (rule.dataCategory = category ∨ rule.dataCategory = "All".toList)

instance (rule : DataVisibility) (owner : ℤ) (category : SqlText) :
    Decidable (Covers rule owner category) :=
  inferInstanceAs (Decidable (_ ∧ _ ∧ _))

/-- The rule is for a role that the person is assigned. -/
def NamesRole (db : VisibilityTables) (rule : DataVisibility) (person : ℤ) : Prop :=
  ∃ assigned ∈ db.tPersonRole,
    assigned.personId = person ∧ rule.viewerRoleId = some assigned.roleId

/-- The rule is for a unit that the person belongs to. -/
def NamesOrgUnit (db : VisibilityTables) (rule : DataVisibility) (person : ℤ) : Prop :=
  ∃ relation ∈ db.tPersonOrgRelation,
    relation.personId = person ∧ rule.viewerOrgUnitId = some relation.orgUnitId

/-- The person is one of those that the rule is for. -/
def Names (db : VisibilityTables) (rule : DataVisibility) (person : ℤ) : Prop :=
  rule.viewerPersonId = some person ∨ NamesRole db rule person ∨ NamesOrgUnit db rule person

/-- Some rule lets the person see that category of the owner's data. -/
def Granted (db : VisibilityTables) (owner person : ℤ) (category : SqlText) : Prop :=
  ∃ rule ∈ db.tDataVisibility, Covers rule owner category ∧ Names db rule person

/-- The answer is what the rules say. -/
def HonoursRules (db : VisibilityTables) (owner person : ℤ) (category : SqlText) : Prop :=
  VisibilityDAO.canView db owner person category = some true ↔ Granted db owner person category

/-- What is granted to a role or a unit of the person is granted to the person too, by rules that
an `int` can count. -/
def DirectRulesSuffice (db : VisibilityTables) (owner person : ℤ) (category : SqlText) : Prop :=
  (db.tDataVisibility.countP fun rule =>
    Covers rule owner category ∧ rule.viewerPersonId = some person) ≤ INT_MAX ∧
  ((∃ rule ∈ db.tDataVisibility, Covers rule owner category ∧
      (NamesRole db rule person ∨ NamesOrgUnit db rule person)) →
    ∃ rule ∈ db.tDataVisibility, Covers rule owner category ∧ rule.viewerPersonId = some person)

/-! ## What is counted -/

section Counted

variable (db : VisibilityTables) (owner person : ℤ) (category : SqlText)

/-- What the query asks of a rule. -/
theorem counts_iff (rule : DataVisibility) :
    (rule.ownerPersonId = owner && rule.viewerPersonId = some person &&
        (rule.dataCategory = category || rule.dataCategory = "All".toList) && rule.canView) =
        true ↔
      Covers rule owner category ∧ rule.viewerPersonId = some person := by
  simp only [Covers, Bool.and_eq_true, Bool.or_eq_true, decide_eq_true_eq]
  tauto

theorem mem_counted {rule : DataVisibility} :
    rule ∈ VisibilityDAO.counted db owner person category ↔
      rule ∈ db.tDataVisibility ∧ Covers rule owner category ∧
        rule.viewerPersonId = some person := by
  rw [VisibilityDAO.counted, List.mem_filter, counts_iff]

theorem length_counted :
    (VisibilityDAO.counted db owner person category).length =
      db.tDataVisibility.countP fun rule =>
        Covers rule owner category ∧ rule.viewerPersonId = some person := by
  rw [VisibilityDAO.counted, ← List.countP_eq_length_filter]
  refine List.countP_congr fun rule _ => ?_
  rw [counts_iff, decide_eq_true_iff]

/-- The answer is yes if there is something to count, and not too much. -/
theorem canView_eq_true_iff :
    VisibilityDAO.canView db owner person category = some true ↔
      (VisibilityDAO.counted db owner person category).length ≤ INT_MAX ∧
        ∃ rule ∈ db.tDataVisibility,
          Covers rule owner category ∧ rule.viewerPersonId = some person := by
  have hpos : 0 < (VisibilityDAO.counted db owner person category).length ↔
      ∃ rule ∈ db.tDataVisibility,
        Covers rule owner category ∧ rule.viewerPersonId = some person := by
    rw [List.length_pos_iff_exists_mem]
    exact exists_congr fun rule => mem_counted db owner person category
  rw [← hpos, VisibilityDAO.canView, intoInt]
  by_cases hcount : (VisibilityDAO.counted db owner person category).length ≤ INT_MAX
  · simp [hcount]
  · simp [hcount]

end Counted

/-- **The answer is what the rules say exactly when the rules for the person suffice.** -/
theorem honoursRules_iff (db : VisibilityTables) (owner person : ℤ) (category : SqlText) :
    HonoursRules db owner person category ↔ DirectRulesSuffice db owner person category := by
  unfold HonoursRules DirectRulesSuffice
  rw [canView_eq_true_iff, length_counted]
  constructor
  · intro h
    -- too many rules for the person grant as well, and then the call throws
    have hdirect : (∃ rule ∈ db.tDataVisibility, Covers rule owner category ∧
        rule.viewerPersonId = some person) → Granted db owner person category := by
      rintro ⟨rule, hrule, hcovers, hperson⟩
      exact ⟨rule, hrule, hcovers, Or.inl hperson⟩
    refine ⟨?_, ?_⟩
    · by_cases hnone : ∃ rule ∈ db.tDataVisibility, Covers rule owner category ∧
          rule.viewerPersonId = some person
      · exact (h.mpr (hdirect hnone)).1
      · rw [List.countP_eq_zero.mpr]
        · exact Nat.zero_le _
        · intro rule hrule hcounted
          exact hnone ⟨rule, hrule, by simpa using hcounted⟩
    · rintro ⟨rule, hrule, hcovers, hnames⟩
      exact (h.mpr ⟨rule, hrule, hcovers, Or.inr hnames⟩).2
  · rintro ⟨hcount, hindirect⟩
    constructor
    · rintro ⟨-, rule, hrule, hcovers, hperson⟩
      exact ⟨rule, hrule, hcovers, Or.inl hperson⟩
    · rintro ⟨rule, hrule, hcovers, hnames⟩
      refine ⟨hcount, ?_⟩
      rcases hnames with hperson | hnames
      · exact ⟨rule, hrule, hcovers, hperson⟩
      · exact hindirect ⟨rule, hrule, hcovers, hnames⟩

/-! ## Rules that are inserted -/

/-- The person is the viewer, is assigned the role, or belongs to the unit. -/
def Includes (db : VisibilityTables) (person : ℤ) : Viewer → Prop
  | .person id => id = person
  | .role id => ∃ assigned ∈ db.tPersonRole, assigned.personId = person ∧ id = assigned.roleId
  | .orgUnit id =>
    ∃ relation ∈ db.tPersonOrgRelation, relation.personId = person ∧ id = relation.orgUnitId

/-- A rule that is inserted is for the viewer that is given. -/
theorem names_row_iff (db : VisibilityTables) (person : ℤ) {v : DataVisibilityDTO} {id : ℤ}
    {viewer : Viewer} {rule : DataVisibility} (h : VisibilityDAO.row v id viewer = some rule) :
    Names db rule person ↔ Includes db person viewer := by
  unfold VisibilityDAO.row at h
  split at h
  · cases h
  · cases viewer <;> cases h <;> simp [Names, NamesRole, NamesOrgUnit, Includes]

theorem row_id {v : DataVisibilityDTO} {id : ℤ} {viewer : Viewer} {rule : DataVisibility}
    (h : VisibilityDAO.row v id viewer = some rule) : rule.id = id := by
  unfold VisibilityDAO.row at h
  split at h
  · cases h
  · cases viewer <;> cases h <;> rfl

/-- What an `insert` that succeeds leaves. -/
theorem insert_eq_some {s s' : VisibilityStore} {v : DataVisibilityDTO} {fate : Fate}
    {viewer : Viewer} {id : ℤ} (hviewer : VisibilityDAO.viewer v = some viewer)
    (h : VisibilityDAO.insert s v fate = (s', some id)) :
    ∃ rule, VisibilityDAO.row v id viewer = some rule ∧
      s'.tables = { s.tables with tDataVisibility := s.tables.tDataVisibility ++ [rule] } := by
  unfold VisibilityDAO.insert at h
  rw [hviewer] at h
  dsimp only at h
  split at h
  · cases h
  · split at h
    · cases h
    · next rule hrule =>
      rw [Prod.mk.injEq, Option.some.injEq, row_id hrule] at h
      obtain ⟨rfl, rfl⟩ := h
      exact ⟨rule, hrule, rfl⟩

/-- **An inserted rule grants what it covers** to those whom its viewer includes. -/
theorem granted_insert_iff {s s' : VisibilityStore} {v : DataVisibilityDTO} {fate : Fate}
    {viewer : Viewer} {id : ℤ} (hviewer : VisibilityDAO.viewer v = some viewer)
    (h : VisibilityDAO.insert s v fate = (s', some id)) (owner person : ℤ) (category : SqlText) :
    Granted s'.tables owner person category ↔
      Granted s.tables owner person category ∨
        (∃ rule, VisibilityDAO.row v id viewer = some rule ∧ Covers rule owner category) ∧
          Includes s.tables person viewer := by
  obtain ⟨rule, hrow, htables⟩ := insert_eq_some hviewer h
  have hrules : s'.tables.tDataVisibility = s.tables.tDataVisibility ++ [rule] := by
    rw [htables]
  have hnames : ∀ r, Names s'.tables r person ↔ Names s.tables r person := by
    intro r
    rw [htables]
    exact Iff.rfl
  have hnew : (∃ r, VisibilityDAO.row v id viewer = some r ∧ Covers r owner category) ↔
      Covers rule owner category := by
    rw [hrow]
    simp
  rw [hnew, ← names_row_iff s.tables person hrow]
  unfold Granted
  simp only [hnames, hrules, List.mem_append, List.mem_singleton, or_and_right, exists_or,
    exists_eq_left]

/-- **A rule for a role or a unit changes no answer.** -/
theorem canView_insert {s s' : VisibilityStore} {v : DataVisibilityDTO} {fate : Fate} {id : ℤ}
    (hviewer : v.viewerPersonId = 0) (h : VisibilityDAO.insert s v fate = (s', some id))
    (owner person : ℤ) (category : SqlText) :
    VisibilityDAO.canView s'.tables owner person category =
      VisibilityDAO.canView s.tables owner person category := by
  cases hv : VisibilityDAO.viewer v with
  | none =>
    rw [VisibilityDAO.insert, hv] at h
    cases h
    rfl
  | some viewer =>
    obtain ⟨rule, hrow, htables⟩ := insert_eq_some hv h
    have hnot : ∀ p, viewer ≠ .person p := by
      rintro p rfl
      unfold VisibilityDAO.viewer at hv
      split at hv
      · next hne => exact hne hviewer
      · split at hv
        · cases hv
        · split at hv <;> cases hv
    have hperson : rule.viewerPersonId = none := by
      unfold VisibilityDAO.row at hrow
      split at hrow
      · cases hrow
      · cases viewer with
        | person p => exact absurd rfl (hnot p)
        | role r => cases hrow; rfl
        | orgUnit u => cases hrow; rfl
    have hcounted : VisibilityDAO.counted s'.tables owner person category =
        VisibilityDAO.counted s.tables owner person category := by
      simp [htables, VisibilityDAO.counted, List.filter_append, hperson]
    rw [VisibilityDAO.canView, hcounted, ← VisibilityDAO.canView]

/-- Person 2 is assigned role 5. -/
def assignedStore : VisibilityStore := ⟨⟨[], [⟨2, 5⟩], []⟩, 0⟩

/-- A rule of person 1 for role 5. -/
def roleRule : DataVisibilityDTO :=
  { ownerPersonId := 1, dataCategory := "Phone".toList, viewerRoleId := 5 }

/-- The rule is for person 2 too, and the answer for person 2 is no. -/
theorem not_honoursRules_role :
    ¬ ∀ (db : VisibilityTables) (owner person : ℤ) (category : SqlText),
      HonoursRules db owner person category := by
  intro h
  have hinsert : VisibilityDAO.insert assignedStore roleRule {} =
      ((VisibilityDAO.insert assignedStore roleRule {}).1, some 1) := rfl
  have hviewer : VisibilityDAO.viewer roleRule = some (.role 5) := by decide
  have hgranted := (granted_insert_iff hviewer hinsert 1 2 "Phone".toList).mpr
    (Or.inr ⟨⟨_, rfl, by decide⟩, ⟨2, 5⟩, by decide, rfl, rfl⟩)
  have hyes := (h _ 1 2 "Phone".toList).mpr hgranted
  revert hyes
  decide

end Pensar.Analysis
