import Pensar.Model.ContactDAO
import Pensar.Model.VisibilityDAO

/-!
# Do the inserts drop data silently?

`insert_phone` and `insert_email` send a statement if exactly one owner is given, and otherwise
return 0 as if nothing were wrong.  `VisibilityDAO::insert` takes the first viewer that is given
and passes over the others.

Main result: `inserts_keepDTO_iff`.
-/

set_option autoImplicit false

namespace Pensar.Analysis

open Pensar.Model

/-! ## Errors and rows -/

/-- A call ends with an error and the tables as they were, or with one row more, which is the
right one, and its id. -/
def ErrsOrStores {τ ρ ω : Type} (error : ω) (returned : ℤ → ω) (id : ρ → ℤ) (Right : ρ → Prop)
    (before : τ) (add : ρ → τ) (after : τ) (answer : ω) : Prop :=
  (answer = error ∧ after = before) ∨
    ∃ row, Right row ∧ after = add row ∧ answer = returned (id row)

/-- Nothing is stored, and there is no error. -/
theorem not_errsOrStores {τ ρ ω : Type} {error answer : ω} {returned : ℤ → ω} {id : ρ → ℤ}
    {Right : ρ → Prop} {before after : τ} {add : ρ → τ} (hanswer : answer ≠ error)
    (hnothing : ∀ row, after ≠ add row) :
    ¬ ErrsOrStores error returned id Right before add after answer := by
  rintro (⟨herror, -⟩ | ⟨row, -, hstored, -⟩)
  · exact hanswer herror
  · exact hnothing row hstored

/-- The id 0 stands for `NULL`. -/
def nullIfZero (id : ℤ) : Option ℤ := if id = 0 then none else some id

/-- Exactly one id is given. -/
def OneGiven (ids : List ℤ) : Prop := ids.countP (· ≠ 0) = 1

instance (ids : List ℤ) : Decidable (OneGiven ids) := inferInstanceAs (Decidable (_ = _))

theorem not_oneGiven_of_zero {ids : List ℤ} (h : ∀ id ∈ ids, id = 0) : ¬ OneGiven ids := by
  have hcount : ids.countP (· ≠ 0) = 0 :=
    List.countP_eq_zero.mpr fun id hid => by simp [h id hid]
  rw [OneGiven, hcount]
  exact zero_ne_one

/-- The owner and the marks of the phone are those of the DTO. -/
def PhoneOf (p : PhoneDTO) (row : PhoneRow) : Prop :=
  row.personId = nullIfZero p.personId ∧ row.orgUnitId = nullIfZero p.orgUnitId ∧
    row.isMobile = p.isMobile ∧ row.isPreferred = p.isPreferred

/-- The owner and the marks of the e-mail are those of the DTO. -/
def EmailOf (e : EmailDTO) (row : EmailRow) : Prop :=
  row.personId = nullIfZero e.personId ∧ row.orgUnitId = nullIfZero e.orgUnitId ∧
    row.isPreferred = e.isPreferred ∧ row.isVerified = e.isVerified

/-- The owner, the viewers and the permissions of the rule are those of the DTO. -/
def RuleOf (v : DataVisibilityDTO) (rule : DataVisibility) : Prop :=
  rule.ownerPersonId = v.ownerPersonId ∧ rule.viewerPersonId = nullIfZero v.viewerPersonId ∧
    rule.viewerRoleId = nullIfZero v.viewerRoleId ∧
    rule.viewerOrgUnitId = nullIfZero v.viewerOrgUnitId ∧
    rule.canView = v.canView ∧ rule.canEdit = v.canEdit

def KeepsPhone (s : ContactStore) (p : PhoneDTO) (fate : Fate) : Prop :=
  ErrsOrStores ContactAnswer.threw ContactAnswer.inserted PhoneRow.id (PhoneOf p) s.db
    (fun row => { s.db with tPhone := s.db.tPhone ++ [row] })
    (ContactDAO.insertPhone s p fate).1.db (ContactDAO.insertPhone s p fate).2

def KeepsEmail (s : ContactStore) (e : EmailDTO) (fate : Fate) : Prop :=
  ErrsOrStores ContactAnswer.threw ContactAnswer.inserted EmailRow.id (EmailOf e) s.db
    (fun row => { s.db with tEmail := s.db.tEmail ++ [row] })
    (ContactDAO.insertEmail s e fate).1.db (ContactDAO.insertEmail s e fate).2

def KeepsRule (s : VisibilityStore) (v : DataVisibilityDTO) (fate : Fate) : Prop :=
  ErrsOrStores none some DataVisibility.id (RuleOf v) s.tables
    (fun rule => { s.tables with tDataVisibility := s.tables.tDataVisibility ++ [rule] })
    (VisibilityDAO.insert s v fate).1.tables (VisibilityDAO.insert s v fate).2

/-- The statement is refused, or the category too long for its column. -/
def RuleRefused (v : DataVisibilityDTO) (fate : Fate) : Prop :=
  fate.refused = true ∨ varchar 50 v.dataCategory = none

/-- The viewers of a rule. -/
def viewers (v : DataVisibilityDTO) : List ℤ :=
  [v.viewerPersonId, v.viewerRoleId, v.viewerOrgUnitId]

/-! ## Owners -/

section Owners

variable {personId orgUnitId : ℤ}

/-- A statement is sent if exactly one owner is given. -/
theorem owner_eq_none_iff :
    ContactDAO.owner personId orgUnitId = none ↔ ¬ OneGiven [personId, orgUnitId] := by
  unfold ContactDAO.owner OneGiven
  by_cases hperson : personId = 0 <;> by_cases hunit : orgUnitId = 0 <;> simp [hperson, hunit]

theorem oneGiven_of_owner {owner : ContactOwner}
    (h : ContactDAO.owner personId orgUnitId = some owner) : OneGiven [personId, orgUnitId] := by
  by_contra hnot
  rw [owner_eq_none_iff.mpr hnot] at h
  cases h

/-- The columns of the owner. -/
theorem owner_columns {owner : ContactOwner}
    (h : ContactDAO.owner personId orgUnitId = some owner) :
    owner.personId = nullIfZero personId ∧ owner.orgUnitId = nullIfZero orgUnitId := by
  unfold ContactDAO.owner at h
  unfold nullIfZero
  split at h
  · next hgiven =>
    cases h
    simp [ContactOwner.personId, ContactOwner.orgUnitId, hgiven]
  · split at h
    · next hgiven =>
      cases h
      simp [ContactOwner.personId, ContactOwner.orgUnitId, hgiven]
    · cases h

theorem phoneRow_of_eq_some {p : PhoneDTO} {id : ℤ} {owner : ContactOwner} {row : PhoneRow}
    (howner : ContactDAO.owner p.personId p.orgUnitId = some owner)
    (h : ContactDAO.phoneRow p id owner = some row) : PhoneOf p row ∧ row.id = id := by
  obtain ⟨hperson, hunit⟩ := owner_columns howner
  unfold ContactDAO.phoneRow at h
  obtain ⟨countryCode, -, h⟩ := Option.bind_eq_some_iff.mp h
  obtain ⟨areaCode, -, h⟩ := Option.bind_eq_some_iff.mp h
  obtain ⟨number, -, h⟩ := Option.bind_eq_some_iff.mp h
  dsimp only at h
  split at h
  · cases h
    exact ⟨⟨hperson, hunit, rfl, rfl⟩, rfl⟩
  · obtain ⟨extension, -, h⟩ := Option.bind_eq_some_iff.mp h
    cases h
    exact ⟨⟨hperson, hunit, rfl, rfl⟩, rfl⟩

theorem emailRow_of_eq_some {e : EmailDTO} {id : ℤ} {owner : ContactOwner} {row : EmailRow}
    (howner : ContactDAO.owner e.personId e.orgUnitId = some owner)
    (h : ContactDAO.emailRow e id owner = some row) : EmailOf e row ∧ row.id = id := by
  obtain ⟨hperson, hunit⟩ := owner_columns howner
  unfold ContactDAO.emailRow at h
  obtain ⟨email, -, h⟩ := Option.bind_eq_some_iff.mp h
  cases h
  exact ⟨⟨hperson, hunit, rfl, rfl⟩, rfl⟩

end Owners

/-! ## Phones and e-mails -/

theorem append_singleton_ne {ρ : Type} {rows : List ρ} {row : ρ} : rows ++ [row] ≠ rows := by
  intro h
  have hlength := congrArg List.length h
  rw [List.length_append, List.length_singleton] at hlength
  omega

/-- The row that a statement stores. -/
theorem stored_of_run {ρ : Type} {row : Option ρ} {insert : ρ → Option ContactDatabase}
    {accepts : ρ → Bool} {add : ρ → ContactDatabase} {fate : Fate} {db : ContactDatabase}
    (hinsert : ∀ r, insert r = if accepts r then some (add r) else none)
    (h : ContactDAO.run row insert fate = some db) : ∃ r, row = some r ∧ db = add r := by
  unfold ContactDAO.run at h
  split at h
  · cases h
  · obtain ⟨r, hrow, hadd⟩ := Option.bind_eq_some_iff.mp h
    rw [hinsert] at hadd
    split at hadd
    · exact ⟨r, hrow, (Option.some.inj hadd).symm⟩
    · cases hadd

/-- **Phones**: kept if exactly one owner is given. -/
theorem keepsPhone_iff (s : ContactStore) (p : PhoneDTO) (fate : Fate) :
    KeepsPhone s p fate ↔ OneGiven [p.personId, p.orgUnitId] := by
  unfold KeepsPhone ContactDAO.insertPhone
  cases howner : ContactDAO.owner p.personId p.orgUnitId with
  | none =>
    refine iff_of_false (not_errsOrStores nofun fun row htables => ?_)
      (owner_eq_none_iff.mp howner)
    exact append_singleton_ne (congrArg ContactDatabase.tPhone htables).symm
  | some owner =>
    refine iff_of_true ?_ (oneGiven_of_owner howner)
    dsimp only
    split
    · next db hrun =>
      obtain ⟨row, hrow, rfl⟩ := stored_of_run (fun _ => rfl) hrun
      obtain ⟨hright, hid⟩ := phoneRow_of_eq_some howner hrow
      exact Or.inr ⟨row, hright, rfl, by rw [hid]⟩
    · exact Or.inl ⟨rfl, rfl⟩

/-- **E-mails**: kept if exactly one owner is given. -/
theorem keepsEmail_iff (s : ContactStore) (e : EmailDTO) (fate : Fate) :
    KeepsEmail s e fate ↔ OneGiven [e.personId, e.orgUnitId] := by
  unfold KeepsEmail ContactDAO.insertEmail
  cases howner : ContactDAO.owner e.personId e.orgUnitId with
  | none =>
    refine iff_of_false (not_errsOrStores nofun fun row htables => ?_)
      (owner_eq_none_iff.mp howner)
    exact append_singleton_ne (congrArg ContactDatabase.tEmail htables).symm
  | some owner =>
    refine iff_of_true ?_ (oneGiven_of_owner howner)
    dsimp only
    split
    · next db hrun =>
      obtain ⟨row, hrow, rfl⟩ := stored_of_run (fun _ => rfl) hrun
      obtain ⟨hright, hid⟩ := emailRow_of_eq_some howner hrow
      exact Or.inr ⟨row, hright, rfl, by rw [hid]⟩
    · exact Or.inl ⟨rfl, rfl⟩

/-! ## Rules -/

/-- The columns of the viewer. -/
def viewerColumns : Viewer → Option ℤ × Option ℤ × Option ℤ
  | .person id => (some id, none, none)
  | .role id => (none, some id, none)
  | .orgUnit id => (none, none, some id)

section Viewers

variable {v : DataVisibilityDTO}

theorem viewer_eq_none_iff : VisibilityDAO.viewer v = none ↔ ∀ id ∈ viewers v, id = 0 := by
  unfold VisibilityDAO.viewer viewers
  by_cases hperson : v.viewerPersonId = 0 <;> by_cases hrole : v.viewerRoleId = 0 <;>
    by_cases hunit : v.viewerOrgUnitId = 0 <;> simp [hperson, hrole, hunit]

theorem exists_of_viewer {viewer : Viewer} (h : VisibilityDAO.viewer v = some viewer) :
    ∃ id ∈ viewers v, id ≠ 0 := by
  by_contra hnone
  push Not at hnone
  rw [viewer_eq_none_iff.mpr hnone] at h
  cases h

/-- **The viewers that are passed over**: all are stored if one is given and no other. -/
theorem viewerColumns_eq_iff {viewer : Viewer} (h : VisibilityDAO.viewer v = some viewer) :
    viewerColumns viewer =
        (nullIfZero v.viewerPersonId, nullIfZero v.viewerRoleId, nullIfZero v.viewerOrgUnitId) ↔
      OneGiven (viewers v) := by
  unfold VisibilityDAO.viewer at h
  unfold nullIfZero OneGiven viewers
  by_cases hperson : v.viewerPersonId = 0 <;> by_cases hrole : v.viewerRoleId = 0 <;>
    by_cases hunit : v.viewerOrgUnitId = 0 <;> simp [hperson, hrole, hunit] at h ⊢ <;>
      subst h <;> simp [viewerColumns]

/-- The row of the statement is the right one if the viewers are stored. -/
theorem ruleOf_iff {id : ℤ} {viewer : Viewer} {rule : DataVisibility}
    (h : VisibilityDAO.row v id viewer = some rule) :
    RuleOf v rule ↔ viewerColumns viewer =
      (nullIfZero v.viewerPersonId, nullIfZero v.viewerRoleId, nullIfZero v.viewerOrgUnitId) := by
  unfold VisibilityDAO.row at h
  split at h
  · cases h
  · cases viewer <;> cases h <;> simp [RuleOf, viewerColumns]

theorem row_eq_none_iff {id : ℤ} {viewer : Viewer} :
    VisibilityDAO.row v id viewer = none ↔ varchar 50 v.dataCategory = none := by
  unfold VisibilityDAO.row
  split
  · next h => simp [h]
  · next h => cases viewer <;> simp [h]

end Viewers

/-- **Rules**: kept if exactly one viewer is given, or if the call throws. -/
theorem keepsRule_iff (s : VisibilityStore) (v : DataVisibilityDTO) (fate : Fate) :
    KeepsRule s v fate ↔
      OneGiven (viewers v) ∨ (∃ id ∈ viewers v, id ≠ 0) ∧ RuleRefused v fate := by
  unfold KeepsRule VisibilityDAO.insert
  cases hviewer : VisibilityDAO.viewer v with
  | none =>
    have hzero := viewer_eq_none_iff.mp hviewer
    refine iff_of_false (not_errsOrStores nofun fun row htables => ?_) ?_
    · exact append_singleton_ne (congrArg VisibilityTables.tDataVisibility htables).symm
    · rintro (hone | ⟨⟨id, hid, hne⟩, -⟩)
      · exact not_oneGiven_of_zero hzero hone
      · exact hne (hzero id hid)
  | some viewer =>
    have hgiven := exists_of_viewer hviewer
    dsimp only
    split
    · next hrefused =>
      exact iff_of_true (Or.inl ⟨rfl, rfl⟩) (Or.inr ⟨hgiven, Or.inl hrefused⟩)
    · next hrefused =>
      cases hrow : VisibilityDAO.row v (VisibilityDAO.nextId s fate) viewer with
      | none =>
        exact iff_of_true (Or.inl ⟨rfl, rfl⟩)
          (Or.inr ⟨hgiven, Or.inr (row_eq_none_iff.mp hrow)⟩)
      | some rule =>
        have hsent : ¬ RuleRefused v fate := by
          rintro (h | h)
          · exact hrefused h
          · rw [row_eq_none_iff.mpr h] at hrow
            cases hrow
        rw [or_iff_left fun h => hsent h.2, ← viewerColumns_eq_iff hviewer,
          ← ruleOf_iff hrow]
        constructor
        · rintro (⟨hthrew, -⟩ | ⟨rule', hright, htables, -⟩)
          · cases hthrew
          · have hrules := congrArg VisibilityTables.tDataVisibility htables
            rw [List.append_cancel_left_eq, List.singleton_inj] at hrules
            rwa [hrules]
        · intro hright
          exact Or.inr ⟨rule, hright, rfl, rfl⟩

/-! ## The inserts -/

/-- **What the inserts keep**, for each DTO, whatever the tables hold and whatever happens to the
call. -/
theorem inserts_keepDTO_iff (s : ContactStore) (p : PhoneDTO) (e : EmailDTO)
    (t : VisibilityStore) (v : DataVisibilityDTO) (fate : Fate) :
    (KeepsPhone s p fate ↔ OneGiven [p.personId, p.orgUnitId]) ∧
    (KeepsEmail s e fate ↔ OneGiven [e.personId, e.orgUnitId]) ∧
    (KeepsRule t v fate ↔
      OneGiven (viewers v) ∨ (∃ id ∈ viewers v, id ≠ 0) ∧ RuleRefused v fate) :=
  ⟨keepsPhone_iff s p fate, keepsEmail_iff s e fate, keepsRule_iff t v fate⟩

/-- A phone without an owner. -/
def ownerless : PhoneDTO where
  countryCode := "+55".toList
  areaCode := "11".toList
  number := "900000001".toList

/-- A rule for a person and for a role. -/
def personAndRole : DataVisibilityDTO where
  ownerPersonId := 1
  dataCategory := "Phone".toList
  viewerPersonId := 2
  viewerRoleId := 5

/-- The phone is not stored, nor is the role of the rule. -/
theorem not_inserts_keepDTO :
    ¬ KeepsPhone ContactDAO.installed ownerless {} ∧
      ¬ KeepsRule ⟨⟨[], [], []⟩, 0⟩ personAndRole {} := by
  rw [keepsPhone_iff, keepsRule_iff]
  refine ⟨by decide, ?_⟩
  rintro (hone | ⟨-, hrefused | hlong⟩)
  · revert hone
    decide
  · cases hrefused
  · revert hlong
    decide

end Pensar.Analysis
