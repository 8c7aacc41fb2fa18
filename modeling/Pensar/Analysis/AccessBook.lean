import Pensar.Analysis.ContactBook
import Pensar.Analysis.CrossTableSearch
import Pensar.Analysis.SearchVectors
import Pensar.Interface.AccessBook

/-!
# `RoleDAO` and `VisibilityDAO` keep a book of roles and rules

The rows of four tables are the entries of the book.  A remove of a unit reaches the assignments of
its roles and the rules for them in two steps; in the book, which has the roles as entries, this is
one look.

Main result: `access_keeps_book`.
-/

set_option autoImplicit false

namespace Pensar.Analysis

open Pensar.Computation
open Pensar.Interface
open Pensar.Model
open ContactTables (visibilityDto)

variable {V D : Type}

/-! ## Rows and entries -/

def roleDto (r : RoleRow) : RoleDTO := ⟨r.id, r.orgUnitId.getD 0, r.isActive⟩

section Entries

variable (dates : DateText D)

/-- An assignment, with no text for a date that is `NULL`. -/
def assignmentDto (r : PersonRoleRow D) : PersonRoleDTO where
  id := r.id
  personId := r.personId
  roleId := r.roleId
  assignedDate := (r.assignedDate.map dates.dateOut).getD []
  endDate := (r.endDate.map dates.dateOut).getD []
  isPrimary := r.isPrimary

/-- The book that the tables hold. -/
def accessOf (rows : List (Row V D)) : AccessBook where
  roles := (Row.select Row.role? rows).map roleDto
  relations := (Row.select Row.personOrgRelation? rows).map (RoleDAO.relationDto dates)
  assignments := (Row.select Row.personRole? rows).map (assignmentDto dates)
  rules := (Row.select Row.dataVisibility? rows).map visibilityDto

theorem accessOf_append (rows : List (Row V D)) (new : Row V D) :
    accessOf dates (rows ++ [new]) = (accessOf dates rows).append (accessOf dates [new]) := by
  simp [accessOf, AccessBook.append, Row.select, List.filterMap_append]

theorem accessOf_map {f : Row V D → Row V D} (hf : Refreshes f) (rows : List (Row V D)) :
    accessOf dates (rows.map f) = accessOf dates rows := by
  have hselect : ∀ {α : Type} {kind : Row V D → Option α}, (∀ o, kind (.orgUnit o) = none) →
      Row.select kind (rows.map f) = Row.select kind rows :=
    fun hkind => select_map_of fun r _ => hf.kind_eq (fun o _ => (hkind _).trans (hkind o).symm) r
  unfold accessOf
  rw [hselect fun _ => rfl, hselect fun _ => rfl, hselect fun _ => rfl, hselect fun _ => rfl]

/-- A row that is replaced by one of a person or a unit. -/
theorem accessOf_replace {rows : List (Row V D)} {new : Row V D}
    (hnew : new.key.1 = .tPerson ∨ new.key.1 = .tOrgUnit) :
    accessOf dates (Row.schema.replace rows new) = accessOf dates rows := by
  have hselect : ∀ {α : Type} {kind : Row V D → Option α},
      (∀ r : Row V D, r.key.1 = .tPerson ∨ r.key.1 = .tOrgUnit → kind r = none) →
      Row.select kind (Row.schema.replace rows new) = Row.select kind rows := by
    intro α kind hkind
    refine select_map_of fun r _ => ?_
    split
    · next hsame =>
      have hkey : r.key = new.key := hsame
      rw [hkind new hnew, hkind r (hkey ▸ hnew)]
    · rfl
  unfold accessOf
  rw [hselect fun r hr => by cases r <;> simp [Row.key, Row.role?] at hr ⊢,
    hselect fun r hr => by cases r <;> simp [Row.key, Row.personOrgRelation?] at hr ⊢,
    hselect fun r hr => by cases r <;> simp [Row.key, Row.personRole?] at hr ⊢,
    hselect fun r hr => by cases r <;> simp [Row.key, Row.dataVisibility?] at hr ⊢]

end Entries

/-! ## What a delete leaves -/

section Deletes

variable {rows : List (Row V D)} {k : RowKey}

/-- A chain of two steps goes through a role. -/
theorem dependsOn_iff_role {r : Row V D} :
    DependsOn rows k r ↔ r.key = k ∨ k ∈ r.cascade ∨
      ∃ q ∈ Row.select Row.role? rows, k ∈ Row.orgUnits q.orgUnitId ∧
        (Table.tRole, q.id) ∈ r.cascade := by
  unfold DependsOn
  refine or_congr_right (or_congr_right ?_)
  constructor
  · rintro ⟨x, hx, hdirect, hrefers⟩
    have hrole := (cascade_of_target (isTarget_of_mem_cascade hrefers) hdirect).1
    cases x with
    | role q => exact ⟨q, List.mem_filterMap.mpr ⟨_, hx, rfl⟩, hdirect, hrefers⟩
    | _ => cases hrole
  · rintro ⟨q, hq, hdirect, hrefers⟩
    obtain ⟨x, hx, hkind⟩ := List.mem_filterMap.mp hq
    cases x with
    | role q =>
      cases hkind
      exact ⟨_, hx, hdirect, hrefers⟩
    | _ => cases hkind

theorem select_delete (hrows : Row.schema.Consistent rows) (k : RowKey) {α β : Type}
    {kind : Row V D → Option α} (hkind : ∀ o, kind (.orgUnit o) = none) (dto : α → β)
    {gone : β → Prop} [DecidablePred gone]
    (h : ∀ r ∈ rows, ∀ a, kind r = some a → (DependsOn rows k r ↔ gone (dto a))) :
    (Row.select kind (Row.schema.delete rows k)).map dto =
      ((Row.select kind rows).map dto).filter fun b => ¬ gone b := by
  have hdelete := filterMap_delete hrows k hkind (q := fun a => decide (gone (dto a)))
    fun r hr a ha => (h r hr a ha).trans decide_eq_true_iff.symm
  unfold Row.select
  rw [hdelete, List.filter_map]
  refine congrArg _ (List.filter_congr fun a _ => ?_)
  simp

/-- A reference, where 0 stands for `NULL`. -/
theorem mem_reference_iff {table : Table} (hk : k.2 ≠ 0) {id : Option ℤ} :
    k ∈ id.toList.map (Prod.mk table) ↔ k = (table, id.getD 0) := by
  cases id with
  | none =>
    constructor
    · intro h
      cases h
    · intro h
      exact absurd (congrArg Prod.snd h) hk
  | some id => simp

theorem mem_orgUnits_iff (hk : k.2 ≠ 0) {id : Option ℤ} :
    k ∈ Row.orgUnits id ↔ k = (.tOrgUnit, id.getD 0) := mem_reference_iff hk

theorem mem_persons_iff (hk : k.2 ≠ 0) {id : Option ℤ} :
    k ∈ Row.persons id ↔ k = (.tPerson, id.getD 0) := mem_reference_iff hk

theorem mem_roles_iff (hk : k.2 ≠ 0) {id : Option ℤ} :
    k ∈ Row.roles id ↔ k = (.tRole, id.getD 0) := mem_reference_iff hk

/-! ### Entries that are gone -/

variable (book : AccessBook) (k)

/-- A role of a unit that is gone has the id. -/
def UnitGone (roleId : ℤ) : Prop := ∃ q ∈ book.roles, q.id = roleId ∧ k = (.tOrgUnit, q.orgUnitId)

def RoleGone (r : RoleDTO) : Prop := k = (.tRole, r.id) ∨ k = (.tOrgUnit, r.orgUnitId)

def RelationGone (r : PersonOrgRelationDTO) : Prop :=
  k = (.tPersonOrgRelation, r.id) ∨ k = (.tPerson, r.personId) ∨ k = (.tOrgUnit, r.orgUnitId)

def AssignmentGone (a : PersonRoleDTO) : Prop :=
  k = (.tPersonRole, a.id) ∨ k = (.tPerson, a.personId) ∨ k = (.tRole, a.roleId) ∨
    UnitGone k book a.roleId

def RuleGone (v : ℤ × DataVisibilityDTO) : Prop :=
  k = (.tDataVisibility, v.1) ∨ k = (.tPerson, v.2.ownerPersonId) ∨
    k = (.tPerson, v.2.viewerPersonId) ∨ k = (.tRole, v.2.viewerRoleId) ∨
    k = (.tOrgUnit, v.2.viewerOrgUnitId) ∨ UnitGone k book v.2.viewerRoleId

instance (roleId : ℤ) : Decidable (UnitGone k book roleId) :=
  inferInstanceAs (Decidable (∃ q ∈ book.roles, _))

instance : DecidablePred (RoleGone k) := fun _ => inferInstanceAs (Decidable (_ ∨ _))

instance : DecidablePred (RelationGone k) := fun _ => inferInstanceAs (Decidable (_ ∨ _ ∨ _))

instance : DecidablePred (AssignmentGone k book) :=
  fun _ => inferInstanceAs (Decidable (_ ∨ _ ∨ _ ∨ _))

instance : DecidablePred (RuleGone k book) :=
  fun _ => inferInstanceAs (Decidable (_ ∨ _ ∨ _ ∨ _ ∨ _ ∨ _))

variable {k book} (dates : DateText D)

theorem unitGone_iff (hk : k.2 ≠ 0) {roleId : ℤ} :
    UnitGone k (accessOf dates rows) roleId ↔
      ∃ q ∈ Row.select Row.role? rows, k ∈ Row.orgUnits q.orgUnitId ∧ q.id = roleId := by
  unfold UnitGone accessOf
  simp only [List.mem_map, exists_exists_and_eq_and, mem_orgUnits_iff hk]
  exact exists_congr fun q => and_congr_right fun _ => and_comm

/-- **The entries that a delete leaves.** -/
theorem accessOf_delete (hrows : Row.schema.Consistent rows)
    (hids : ∀ j ∈ rows.map Row.key, j.2 ≠ 0) (hk : k.2 ≠ 0) :
    accessOf dates (Row.schema.delete rows k) =
      { roles := (accessOf dates rows).roles.filter fun r => ¬ RoleGone k r
        relations := (accessOf dates rows).relations.filter fun r => ¬ RelationGone k r
        assignments := (accessOf dates rows).assignments.filter fun a =>
          ¬ AssignmentGone k (accessOf dates rows) a
        rules := (accessOf dates rows).rules.filter fun v =>
          ¬ RuleGone k (accessOf dates rows) v } := by
  have hroles : ∀ r ∈ rows, ∀ a, r.role? = some a →
      (DependsOn rows k r ↔ RoleGone k (roleDto a)) := by
    intro r _ a ha
    cases r with
    | role r =>
      obtain rfl := Option.some.inj ha
      have hunit : ∀ id, (Table.tRole, id) ∉ Row.orgUnits r.orgUnitId :=
        fun id h => by cases mem_orgUnits h
      rw [dependsOn_iff_role, RoleGone]
      simp [Row.key, Row.cascade, mem_orgUnits_iff hk, hunit, roleDto, @eq_comm _ k]
    | _ => cases ha
  have hrelations : ∀ r ∈ rows, ∀ a, r.personOrgRelation? = some a →
      (DependsOn rows k r ↔ RelationGone k (RoleDAO.relationDto dates a)) := by
    intro r _ a ha
    cases r with
    | personOrgRelation r =>
      cases ha
      rw [dependsOn_iff_role, RelationGone]
      simp [Row.key, Row.cascade, RoleDAO.relationDto, @eq_comm _ k]
    | _ => cases ha
  have hassignments : ∀ r ∈ rows, ∀ a, r.personRole? = some a →
      (DependsOn rows k r ↔ AssignmentGone k (accessOf dates rows) (assignmentDto dates a)) := by
    intro r _ a ha
    cases r with
    | personRole r =>
      cases ha
      rw [dependsOn_iff_role, AssignmentGone, unitGone_iff dates hk]
      simp [Row.key, Row.cascade, assignmentDto, or_assoc, @eq_comm _ k]
    | _ => cases ha
  have hrules : ∀ r ∈ rows, ∀ a, r.dataVisibility? = some a →
      (DependsOn rows k r ↔ RuleGone k (accessOf dates rows) (visibilityDto a)) := by
    intro r _ a ha
    cases r with
    | dataVisibility r =>
      obtain rfl := Option.some.inj ha
      have hrole : ∀ q ∈ Row.select Row.role? rows,
          ((Table.tRole, q.id) ∈ (Row.dataVisibility r : Row V D).cascade ↔
            q.id = r.viewerRoleId.getD 0) := by
        intro q hq
        have hid : q.id ≠ 0 := by
          obtain ⟨x, hx, hkind⟩ := List.mem_filterMap.mp hq
          cases x with
          | role x =>
            obtain rfl := Option.some.inj hkind
            exact hids _ (List.mem_map_of_mem hx)
          | _ => cases hkind
        have hrefers : ((Table.tRole, q.id) : RowKey).2 ≠ 0 := hid
        simp [Row.cascade, mem_persons_iff hrefers, mem_roles_iff hrefers,
          mem_orgUnits_iff hrefers]
      have htwice : (∃ q ∈ Row.select Row.role? rows, k ∈ Row.orgUnits q.orgUnitId ∧
          (Table.tRole, q.id) ∈ (Row.dataVisibility r : Row V D).cascade) ↔
            ∃ q ∈ Row.select Row.role? rows, k ∈ Row.orgUnits q.orgUnitId ∧
              q.id = r.viewerRoleId.getD 0 :=
        exists_congr fun q => and_congr_right fun hq => and_congr_right fun _ => hrole q hq
      rw [dependsOn_iff_role, RuleGone, unitGone_iff dates hk, htwice]
      simp [Row.key, Row.cascade, visibilityDto, or_assoc, mem_persons_iff hk, mem_roles_iff hk,
        mem_orgUnits_iff hk, @eq_comm _ k]
    | _ => cases ha
  show AccessBook.mk _ _ _ _ = AccessBook.mk _ _ _ _
  rw [select_delete hrows k (fun _ => rfl) _ hroles,
    select_delete hrows k (fun _ => rfl) _ hrelations,
    select_delete hrows k (fun _ => rfl) _ hassignments,
    select_delete hrows k (fun _ => rfl) _ hrules]
  rfl

/-- A call strikes out the entries that are gone with the row that it removes. -/
theorem struck_eq_gone {call : DaoCall D} (hcall : removedKey call = some k) :
    book.struck call =
      { roles := book.roles.filter fun r => ¬ RoleGone k r
        relations := book.relations.filter fun r => ¬ RelationGone k r
        assignments := book.assignments.filter fun a => ¬ AssignmentGone k book a
        rules := book.rules.filter fun v => ¬ RuleGone k book v } := by
  cases call with
  | removePerson id =>
    cases hcall
    simp [AccessBook.struck, RoleGone, RelationGone, AssignmentGone, RuleGone, UnitGone, eq_comm]
  | removeOrgUnit id =>
    cases hcall
    have hunit : ∀ roleId, UnitGone (.tOrgUnit, id) book roleId ↔ book.ofUnit id roleId = true := by
      intro roleId
      simp [UnitGone, AccessBook.ofUnit, @eq_comm _ id]
    simp [AccessBook.struck, RoleGone, RelationGone, AssignmentGone, RuleGone, hunit,
      @eq_comm _ id]
  | removeRole id =>
    cases hcall
    simp [AccessBook.struck, RoleGone, RelationGone, AssignmentGone, RuleGone, UnitGone, eq_comm]
  | unassignRole id =>
    cases hcall
    simp [AccessBook.struck, RoleGone, RelationGone, AssignmentGone, RuleGone, UnitGone, eq_comm]
  | removeVisibility id =>
    cases hcall
    simp [AccessBook.struck, RoleGone, RelationGone, AssignmentGone, RuleGone, UnitGone, eq_comm]
  | _ =>
    cases hcall
    try simp [AccessBook.struck, RoleGone, RelationGone, AssignmentGone, RuleGone, UnitGone]

end Deletes

/-! ## What an insert adds -/

section Inserts

variable (dates : DateText D)

theorem entered_role (r : RoleDTO) (id : ℤ) :
    accessOf dates [(.role ⟨id, if r.orgUnitId = 0 then none else some r.orgUnitId, r.isActive⟩ :
      Row V D)] = AccessBook.entered dates id (.insertRole r) := by
  have hunit : (if r.orgUnitId = 0 then none else some r.orgUnitId).getD 0 = r.orgUnitId := by
    split
    · next h => exact h.symm
    · rfl
  show AccessBook.mk [⟨id, _, r.isActive⟩] [] [] [] = _
  rw [hunit]
  rfl

theorem map_relationDto_row (por : PersonOrgRelationDTO) (id : ℤ) :
    (RoleDAO.relationRow dates por id).map (RoleDAO.relationDto dates) =
      AccessBook.keptRelation dates por id := by
  simp only [AccessBook.keptRelation, AccessBook.keptDate,
    ← nullable_getD dates.dateIn dates.dateOut, RoleDAO.relationRow, Option.bind_eq_bind,
    Option.map_bind, Option.bind_map, Function.comp_def, Option.pure_def, Option.map_some]
  rfl

theorem map_assignmentDto_row (pr : PersonRoleDTO) (today : D) (id : ℤ) :
    (RoleDAO.personRoleRow dates pr today id).map (assignmentDto dates) =
      AccessBook.keptAssignment dates pr today id := by
  have hgiven : (nullIfEmpty pr.assignedDate).getD (dates.dateOut today) =
      if pr.assignedDate = [] then dates.dateOut today else pr.assignedDate := by
    unfold nullIfEmpty
    split <;> rfl
  simp only [AccessBook.keptAssignment, AccessBook.keptDate,
    ← nullable_getD dates.dateIn dates.dateOut, RoleDAO.personRoleRow, hgiven,
    Option.bind_eq_bind, Option.map_bind, Option.bind_map, Function.comp_def, Option.pure_def,
    Option.map_some]
  rfl

/-- The entry of a rule for that viewer. -/
def ruleFor (v : DataVisibilityDTO) (id : ℤ) (dataCategory : SqlText) :
    Viewer → ℤ × DataVisibilityDTO
  | .person p =>
    (id, { v with dataCategory, viewerPersonId := p, viewerRoleId := 0, viewerOrgUnitId := 0 })
  | .role r =>
    (id, { v with dataCategory, viewerPersonId := 0, viewerRoleId := r, viewerOrgUnitId := 0 })
  | .orgUnit u =>
    (id, { v with dataCategory, viewerPersonId := 0, viewerRoleId := 0, viewerOrgUnitId := u })

theorem map_visibilityDto_row (v : DataVisibilityDTO) (id : ℤ) (viewer : Viewer) :
    (VisibilityDAO.row v id viewer).map visibilityDto =
      (varchar 50 v.dataCategory).map fun dataCategory => ruleFor v id dataCategory viewer := by
  unfold VisibilityDAO.row
  split
  · next h =>
    rw [h]
    rfl
  · next h =>
    refine Eq.trans ?_ (congrArg (Option.map _) h).symm
    cases viewer <;> rfl

/-- A viewer that is not used is the id 0. -/
theorem keptRule_eq (v : DataVisibilityDTO) (id : ℤ) :
    AccessBook.keptRule v id = (VisibilityDAO.viewer v).bind fun viewer =>
      (varchar 50 v.dataCategory).map fun dataCategory => ruleFor v id dataCategory viewer := by
  obtain ⟨owner, category, person, role, unit, canView, canEdit⟩ := v
  unfold AccessBook.keptRule VisibilityDAO.viewer
  dsimp only
  cases varchar 50 category with
  | none => simp
  | some dataCategory =>
    by_cases hperson : person = 0
    · subst hperson
      by_cases hrole : role = 0
      · subst hrole
        by_cases hunit : unit = 0
        · simp [hunit]
        · simp [hunit, ruleFor]
      · simp [hrole, ruleFor]
    · simp [hperson, ruleFor]

theorem entered_relation {por : PersonOrgRelationDTO} {id : ℤ} {r : RelationRow D}
    (h : RoleDAO.relationRow dates por id = some r) :
    accessOf dates [(.personOrgRelation r : Row V D)] =
      AccessBook.entered dates id (.insertPersonOrgRelation por) := by
  show _ = AccessBook.mk [] (AccessBook.keptRelation dates por id).toList [] []
  rw [← map_relationDto_row, h]
  rfl

theorem entered_assignment {pr : PersonRoleDTO} {today : D} {id : ℤ} {r : PersonRoleRow D}
    (h : RoleDAO.personRoleRow dates pr today id = some r) :
    accessOf dates [(.personRole r : Row V D)] =
      AccessBook.entered dates id (.assignRole pr today) := by
  show _ = AccessBook.mk [] [] (AccessBook.keptAssignment dates pr today id).toList []
  rw [← map_assignmentDto_row, h]
  rfl

theorem entered_rule {v : DataVisibilityDTO} {id : ℤ} {viewer : Viewer} {r : DataVisibility}
    (hviewer : VisibilityDAO.viewer v = some viewer)
    (h : VisibilityDAO.row v id viewer = some r) :
    accessOf dates [(.dataVisibility r : Row V D)] =
      AccessBook.entered dates id (.insertVisibility v) := by
  show _ = AccessBook.mk [] [] [] (AccessBook.keptRule v id).toList
  rw [keptRule_eq, hviewer, Option.bind_some, ← map_visibilityDto_row, h]
  rfl

end Inserts

/-! ## Calls -/

section Calls

variable {ts : TextSearch V} {dates : DateText D} {s : ContactTables V D} {book : AccessBook}

theorem append_empty (book : AccessBook) : book.append .empty = book := by
  simp [AccessBook.append, AccessBook.empty]

theorem entries_insertRow (h : accessOf dates s.rows = book) (table : Table)
    {build : ℤ → Option (Row V D)} {after : List (Row V D) → List (Row V D)} {call : DaoCall D}
    (hafter : ∀ rows, ∃ f, Refreshes f ∧ after rows = rows.map f)
    (hbuild : ∀ id r, build id = some r → accessOf dates [r] = AccessBook.entered dates id call)
    (fate : Fate) :
    accessOf dates (s.insertRow table build after fate).1.rows =
      book.noted dates call (s.insertRow table build after fate).2 := by
  rcases s.insertRow_cases table build after fate with
    ⟨new, rows, -, hnew, hrows, heq⟩ | ⟨-, heq⟩
  · obtain ⟨f, hf, hmap⟩ := hafter rows
    obtain ⟨-, -, rfl⟩ := Row.schema.insert_eq_some_iff.mp hrows
    rw [heq]
    show accessOf dates (after _) = book.append _
    rw [hmap, accessOf_map dates hf, accessOf_append, h, hbuild _ _ hnew]
  · rw [heq]
    exact h

/-- An insert of something that is not in the book. -/
theorem entries_insertOwned (h : accessOf dates s.rows = book) (table : Table)
    (personId orgUnitId : ℤ) {build : ℤ → ContactOwner → Option (Row V D)} {call : DaoCall D}
    (hcall : ∀ id, AccessBook.entered dates id call = .empty)
    (hbuild : ∀ id o r, build id o = some r → accessOf dates [r] = .empty) (fate : Fate) :
    accessOf dates (s.insertOwned table personId orgUnitId build fate).1.rows =
      book.noted dates call (s.insertOwned table personId orgUnitId build fate).2 := by
  unfold ContactTables.insertOwned
  cases ContactDAO.owner personId orgUnitId with
  | none =>
    show accessOf dates s.rows = book.append _
    rw [hcall, append_empty, h]
  | some o =>
    exact entries_insertRow h table (fun rows => ⟨id, refreshes_id, (List.map_id rows).symm⟩)
      (fun id r hr => (hbuild id o r hr).trans (hcall id).symm) fate

theorem entries_updateRow (h : accessOf dates s.rows = book) {key : RowKey}
    {change : Row V D → Option (Row V D)} {call : DaoCall D}
    (hkey : key.1 = .tPerson ∨ key.1 = .tOrgUnit) (hcall : book.struck call = book)
    (hchange : ∀ old new, change old = some new → new.key = key) (fate : Fate) :
    accessOf dates (s.updateRow key change fate).1.rows =
      book.noted dates call (s.updateRow key change fate).2 := by
  rcases s.updateRow_cases key change fate with
    ⟨old, new, rows, -, -, hnew, hrows, heq⟩ | ⟨-, -, heq⟩ | ⟨-, heq⟩
  · obtain ⟨-, rfl⟩ := Row.schema.update_eq_some_iff.mp hrows
    rw [heq]
    show accessOf dates (Row.schema.replace s.rows new) = book.struck call
    rw [hcall, accessOf_replace dates (hchange _ _ hnew ▸ hkey), h]
  · rw [heq]
    exact h
  · rw [heq]
    exact h

theorem entries_removeRow (h : accessOf dates s.rows = book)
    (hrows : Row.schema.Consistent s.rows) (hids : ∀ k ∈ s.rows.map Row.key, k.2 ≠ 0)
    {key : RowKey} {call : DaoCall D} (hkey : removedKey call = some key) (fate : Fate) :
    accessOf dates (s.removeRow key fate).1.rows =
      book.noted dates call (s.removeRow key fate).2 := by
  rcases s.removeRow_cases key fate with ⟨-, heq⟩ | ⟨-, heq⟩
  · rw [heq]
    by_cases hmem : key ∈ s.rows.map Row.key
    · have hfound : (s.rows.any fun r => r.key = key) = true := by simpa using hmem
      rw [hfound]
      show accessOf dates (Row.schema.delete s.rows key) = book.struck call
      rw [accessOf_delete dates hrows hids (hids key hmem), struck_eq_gone hkey, h]
    · have hfound : (s.rows.any fun r => r.key = key) = false := by simpa using hmem
      rw [hfound]
      show accessOf dates (Row.schema.delete s.rows key) = book
      rw [Row.schema.delete_eq_self hmem, h]
  · rw [heq]
    exact h

/-- **One call.** -/
theorem entries_step (h : accessOf dates s.rows = book) (hrows : Row.schema.Consistent s.rows)
    (hids : ∀ k ∈ s.rows.map Row.key, k.2 ≠ 0) (call : DaoCall D) (fate : Fate) :
    accessOf dates ((contactSystem ts dates).step s (call, fate)).1.rows =
      book.noted dates call ((contactSystem ts dates).step s (call, fate)).2 := by
  have hsame : ∀ rows : List (Row V D), ∃ f, Refreshes f ∧ id rows = rows.map f :=
    fun rows => ⟨id, refreshes_id, (List.map_id rows).symm⟩
  cases call with
  | insertPerson p =>
    refine entries_insertRow h .tPerson hsame (fun id r hr => ?_) fate
    obtain ⟨_, -, rfl⟩ := Option.map_eq_some_iff.mp hr
    rfl
  | updatePerson p =>
    refine entries_updateRow h (Or.inl rfl) rfl (fun _ r hr => ?_) fate
    obtain ⟨row, hrow, rfl⟩ := Option.map_eq_some_iff.mp hr
    exact congrArg (Prod.mk _) ((PersonDAO.row_eq_some_iff ts dates).mp hrow).1
  | insertOrgUnit o =>
    refine entries_insertRow h .tOrgUnit hsame (fun id r hr => ?_) fate
    obtain ⟨_, -, rfl⟩ := Option.map_eq_some_iff.mp hr
    rfl
  | insertLocalized loc =>
    refine entries_insertRow h .tLocalizedOrgUnit (refreshSearch_refreshes ts loc.orgUnitId)
      (fun id r hr => ?_) fate
    obtain ⟨_, -, rfl⟩ := Option.map_eq_some_iff.mp hr
    rfl
  | updateOrgUnit o =>
    refine entries_updateRow h (Or.inr rfl) rfl (fun _ r hr => ?_) fate
    obtain ⟨_, -, rfl⟩ := Option.map_eq_some_iff.mp hr
    rfl
  | insertPhone p =>
    refine entries_insertOwned h .tPhone _ _ (fun _ => rfl) (fun id o r hr => ?_) fate
    obtain ⟨_, -, rfl⟩ := Option.map_eq_some_iff.mp hr
    rfl
  | insertEmail e =>
    refine entries_insertOwned h .tEmail _ _ (fun _ => rfl) (fun id o r hr => ?_) fate
    obtain ⟨_, -, rfl⟩ := Option.map_eq_some_iff.mp hr
    rfl
  | insertAddress a =>
    refine entries_insertOwned h .tAddress _ _ (fun _ => rfl) (fun id o r hr => ?_) fate
    obtain ⟨_, -, rfl⟩ := Option.map_eq_some_iff.mp hr
    rfl
  | insertRole r =>
    refine entries_insertRow h .tRole hsame (fun id new hnew => ?_) fate
    obtain rfl := Option.some.inj hnew
    exact entered_role dates r id
  | insertLocalizedRole lr =>
    refine entries_insertRow h .tLocalizedRole hsame (fun id r hr => ?_) fate
    obtain ⟨_, -, rfl⟩ := Option.map_eq_some_iff.mp hr
    rfl
  | insertPersonOrgRelation por =>
    refine entries_insertRow h .tPersonOrgRelation hsame (fun id r hr => ?_) fate
    obtain ⟨row, hrow, rfl⟩ := Option.map_eq_some_iff.mp hr
    exact entered_relation dates hrow
  | assignRole pr today =>
    refine entries_insertRow h .tPersonRole hsame (fun id r hr => ?_) fate
    obtain ⟨row, hrow, rfl⟩ := Option.map_eq_some_iff.mp hr
    exact entered_assignment dates hrow
  | insertVisibility v =>
    show accessOf dates (s.insertVisibility v fate).1.rows =
      book.noted dates _ (s.insertVisibility v fate).2
    unfold ContactTables.insertVisibility
    cases hviewer : VisibilityDAO.viewer v with
    | none =>
      have hkept : AccessBook.keptRule v 0 = none := by rw [keptRule_eq, hviewer]; rfl
      show accessOf dates s.rows = book.append ⟨[], [], [], (AccessBook.keptRule v 0).toList⟩
      rw [hkept, h]
      exact (append_empty book).symm
    | some viewer =>
      refine entries_insertRow h .tDataVisibility hsame (fun id r hr => ?_) fate
      obtain ⟨row, hrow, rfl⟩ := Option.map_eq_some_iff.mp hr
      exact entered_rule dates hviewer hrow
  | _ => exact entries_removeRow h hrows hids rfl fate

end Calls

/-! ## Every run -/

section Runs

variable (ts : TextSearch V) (dates : DateText D)

theorem TableChange.ids_ne_zero {s s' : ContactTables V D} {table : Table} {answer : ContactAnswer}
    (h : TableChange s table s' answer) (hs : ∀ k ∈ s.rows.map Row.key, k.2 ≠ 0) :
    ∀ k ∈ s'.rows.map Row.key, k.2 ≠ 0 := by
  intro k hk
  rcases h.keys hk with hold | hnew
  · exact hs k hold
  · have hlt := (h.grantedId hnew).1
    omega

theorem entries_run {s : ContactTables V D} {book : AccessBook}
    (h : accessOf dates s.rows = book) (hrows : Row.schema.Consistent s.rows)
    (hids : ∀ k ∈ s.rows.map Row.key, k.2 ≠ 0) (calls : List (DaoCall D × Fate)) :
    accessOf dates ((contactSystem ts dates).run s calls).rows =
      (historyFrom ts dates s calls).foldl
        (fun book call => book.noted dates call.1 call.2) book := by
  induction calls generalizing s book with
  | nil => exact h
  | cons i calls ih =>
    obtain ⟨call, fate⟩ := i
    have hchange := contactSystem_change ts dates s call fate
    rw [historyFrom, Machine.outputs_cons, List.zipWith_cons_cons, List.foldl_cons]
    exact ih (entries_step h hrows hids call fate) (hchange.consistent hrows)
      (hchange.ids_ne_zero hids)

theorem ids_ne_zero_reached (calls : List (DaoCall D × Fate)) :
    ∀ k ∈ (reached ts dates calls).rows.map Row.key, k.2 ≠ 0 :=
  (contactSystem ts dates).run_invariant (fun s => ∀ k ∈ s.rows.map Row.key, k.2 ≠ 0)
    (fun s i h => (contactSystem_change ts dates s i.1 i.2).ids_ne_zero h) .installed calls
    fun _ hk => absurd hk List.not_mem_nil

/-- The book after those calls, kept from their answers. -/
def accessBook (calls : List (DaoCall D × Fate)) : AccessBook :=
  .after dates (historyFrom ts dates .installed calls)

theorem accessOf_reached (calls : List (DaoCall D × Fate)) :
    accessOf dates (reached ts dates calls).rows = accessBook ts dates calls :=
  entries_run ts dates rfl Row.schema.consistent_nil (fun _ hk => absurd hk List.not_mem_nil) calls

end Runs

/-! ## Dates of assignments -/

section Dated

variable (dates : DateText D)

/-- Every assignment has a date. -/
def Dated (book : AccessBook) : Prop := ∀ a ∈ book.assignments, a.assignedDate ≠ []

theorem dated_entered (id : ℤ) (call : DaoCall D) : Dated (AccessBook.entered dates id call) := by
  intro a ha
  cases call with
  | assignRole pr today =>
    have hkept : AccessBook.keptAssignment dates pr today id = some a := Option.mem_toList.mp ha
    simp only [AccessBook.keptAssignment, Option.bind_eq_bind, Option.bind_eq_some_iff,
      Option.map_eq_some_iff, Option.pure_def, Option.some.injEq] at hkept
    obtain ⟨_, ⟨d, -, rfl⟩, _, -, rfl⟩ := hkept
    exact dates.dateOut_ne_nil d
  | _ => exact absurd ha List.not_mem_nil

theorem dated_struck {book : AccessBook} (h : Dated book) (call : DaoCall D) :
    Dated (book.struck call) := by
  have hpart : ∀ p : PersonRoleDTO → Bool, ∀ a ∈ book.assignments.filter p, a.assignedDate ≠ [] :=
    fun p a ha => h a (List.mem_filter.mp ha).1
  cases call with
  | removePerson id | removeOrgUnit id | removeRole id | unassignRole id => exact hpart _
  | _ => exact h

theorem dated_noted {book : AccessBook} (h : Dated book) (call : DaoCall D)
    (answer : ContactAnswer) : Dated (book.noted dates call answer) := by
  cases answer with
  | inserted id =>
    intro a ha
    rcases List.mem_append.mp ha with ha | ha
    · exact h a ha
    · exact dated_entered dates id call a ha
  | found removed =>
    cases removed with
    | true => exact dated_struck h call
    | false => exact h
  | threw => exact h

theorem dated_after (history : List (DaoCall D × ContactAnswer)) :
    Dated (AccessBook.after dates history) := by
  have hfold : ∀ book, Dated book →
      Dated (history.foldl (fun book call => book.noted dates call.1 call.2) book) := by
    induction history with
    | nil => exact fun _ h => h
    | cons call history ih => exact fun _ h => ih _ (dated_noted dates h call.1 call.2)
  exact hfold _ fun _ ha => absurd ha List.not_mem_nil

end Dated

/-! ## What is read -/

section Reads

variable {dates : DateText D} {s : ContactTables V D} {book : AccessBook}

theorem findRoleById_eq (h : accessOf dates s.rows = book) (id : ℤ) :
    RoleDAO.findRoleById s id = book.role? id := by
  rw [← h]
  unfold AccessBook.role? accessOf
  rw [List.find?_map]
  rfl

theorem rolesForPerson_eq (h : accessOf dates s.rows = book) (hascend : IdsAscend s.rows)
    (hdated : Dated book) (order : OrderBy (Ascending (RoleDAO.primaryFirst (D := D))))
    (personId : ℤ) :
    RoleDAO.rolesForPerson dates order s personId = some (book.rolesOf personId) := by
  have hids : ((Row.select Row.personRole? s.rows).map PersonRoleRow.id).Pairwise (· < ·) :=
    ids_select .tPersonRole (fun r => by cases r <;> simp [Row.personRole?, Row.key]) hascend
  have hread : ∀ r ∈ Row.select Row.personRole? s.rows,
      RoleDAO.personRoleDto dates r = some (assignmentDto dates r) := by
    intro r hr
    have hdate : (assignmentDto dates r).assignedDate ≠ [] :=
      hdated _ (h ▸ List.mem_map_of_mem hr)
    unfold RoleDAO.personRoleDto assignmentDto at *
    cases hassigned : r.assignedDate with
    | none => simp [hassigned] at hdate
    | some d => rfl
  have hall : ∀ q : PersonRoleRow D → Bool,
      (((Row.select Row.personRole? s.rows).filter fun r => r.personId = personId).filter q).map
        (RoleDAO.personRoleDto dates) =
      ((((Row.select Row.personRole? s.rows).filter fun r => r.personId = personId).filter q).map
        (assignmentDto dates)).map some := by
    intro q
    rw [List.map_map]
    refine List.map_congr_left fun r hr => hread r ?_
    exact (List.mem_filter.mp (List.mem_filter.mp hr).1).1
  unfold RoleDAO.rolesForPerson
  rw [sort_preferredFirst order (hids.sublist (List.filter_sublist.map _)),
    CrossTableSearch.mapM_eq_some_iff, List.map_append, hall, hall, ← List.map_append, ← h]
  unfold AccessBook.rolesOf accessOf
  simp only [List.filter_map, List.map_append, Function.comp_def]
  rfl

theorem relationsForPerson_perm [LinearOrder D] (h : accessOf dates s.rows = book)
    (order : OrderBy (Descending fun r : RelationRow D => r.startDate)) (personId : ℤ) :
    (RoleDAO.relationsForPerson dates order s personId).Perm (book.relationsOf personId) := by
  rw [← h]
  unfold RoleDAO.relationsForPerson AccessBook.relationsOf accessOf
  rw [List.filter_map]
  exact (order.perm _).map _

/-- The relations come the newest first. -/
theorem relationsForPerson_sorted [LinearOrder D]
    (order : OrderBy (Descending fun r : RelationRow D => r.startDate)) (personId : ℤ) :
    (RoleDAO.relationsForPerson dates order s personId).Pairwise fun a b =>
      ∀ d ∈ dates.dateIn a.startDate, ∀ d' ∈ dates.dateIn b.startDate, d' ≤ d := by
  unfold RoleDAO.relationsForPerson
  refine List.pairwise_map.mpr ((order.sorted _).imp fun {a b} hab d hd d' hd' => ?_)
  have hda : a.startDate = d := Option.some.inj ((dates.dateIn_dateOut _).symm.trans hd)
  have hdb : b.startDate = d' := Option.some.inj ((dates.dateIn_dateOut _).symm.trans hd')
  rw [← hda, ← hdb]
  exact hab

theorem rulesForOwner_eq (h : accessOf dates s.rows = book) (hascend : IdsAscend s.rows)
    (order : OrderBy (Ascending DataVisibility.id)) (ownerPersonId : ℤ) :
    s.rulesForOwner order ownerPersonId = book.rulesOf ownerPersonId := by
  have hids : ((Row.select Row.dataVisibility? s.rows).map DataVisibility.id).Pairwise (· < ·) :=
    ids_select .tDataVisibility (fun r => by cases r <;> simp [Row.dataVisibility?, Row.key])
      hascend
  rw [← h]
  unfold ContactTables.rulesForOwner AccessBook.rulesOf accessOf
  rw [order.sort_eq (List.Perm.refl _) (hids.sublist (List.filter_sublist.map _)), List.filter_map]
  rfl

theorem counted_length (h : accessOf dates s.rows = book)
    (hrows : Row.schema.Consistent s.rows) (hids : ∀ k ∈ s.rows.map Row.key, k.2 ≠ 0)
    (ownerPersonId viewerPersonId : ℤ) (dataCategory : SqlText) :
    (VisibilityDAO.counted s.visibilityTables ownerPersonId viewerPersonId dataCategory).length =
      (book.granting ownerPersonId viewerPersonId dataCategory).length := by
  have hviewer : ∀ r ∈ Row.select Row.dataVisibility? s.rows,
      (r.viewerPersonId = some viewerPersonId ↔
        viewerPersonId ≠ 0 ∧ r.viewerPersonId.getD 0 = viewerPersonId) := by
    intro r hr
    obtain ⟨x, hx, hkind⟩ := List.mem_filterMap.mp hr
    cases x with
    | dataVisibility x =>
      obtain rfl := Option.some.inj hkind
      cases hid : x.viewerPersonId with
      | none => simp [eq_comm]
      | some id =>
        have hne : id ≠ 0 := hids (.tPerson, id) (hrows.cascade _ hx _
          (by simp [Row.schema, Row.cascade, Row.persons, hid]))
        simp only [Option.some.injEq, Option.getD_some, iff_and_self]
        rintro rfl
        exact hne
    | _ => cases hkind
  rw [← h]
  unfold VisibilityDAO.counted AccessBook.granting AccessBook.rulesOf accessOf
  rw [List.filter_map, List.filter_map, List.length_map, List.filter_filter]
  refine congrArg List.length (List.filter_congr fun r hr => ?_)
  rw [Bool.eq_iff_iff]
  simp only [Function.comp_apply, hviewer r hr, Bool.and_eq_true, Bool.or_eq_true,
    decide_eq_true_iff]
  simp only [visibilityDto]
  tauto

end Reads

/-- **The book of roles and rules is kept.**  After any calls of all DAO classes, roles, assigned
roles, relations and rules are read as the book has them that is kept from the calls and their
answers, those of a person and an owner in the order in which they were entered, primary roles
before the others, and relations by their dates; a person can see what a rule of the book grants. -/
theorem access_keeps_book [LinearOrder D] (ts : TextSearch V) (dates : DateText D)
    (calls : List (DaoCall D × Fate)) :
    (∀ id, RoleDAO.findRoleById (reached ts dates calls) id =
      (accessBook ts dates calls).role? id) ∧
    (∀ order personId, RoleDAO.rolesForPerson dates order (reached ts dates calls) personId =
      some ((accessBook ts dates calls).rolesOf personId)) ∧
    (∀ order personId,
      (RoleDAO.relationsForPerson dates order (reached ts dates calls) personId).Perm
          ((accessBook ts dates calls).relationsOf personId) ∧
        (RoleDAO.relationsForPerson dates order (reached ts dates calls) personId).Pairwise
          fun a b => ∀ d ∈ dates.dateIn a.startDate, ∀ d' ∈ dates.dateIn b.startDate, d' ≤ d) ∧
    (∀ order ownerPersonId, (reached ts dates calls).rulesForOwner order ownerPersonId =
      (accessBook ts dates calls).rulesOf ownerPersonId) ∧
    ∀ ownerPersonId viewerPersonId dataCategory,
      VisibilityDAO.canView (reached ts dates calls).visibilityTables ownerPersonId viewerPersonId
          dataCategory =
        (intoInt ((accessBook ts dates calls).granting ownerPersonId viewerPersonId
          dataCategory).length).map fun count => decide (0 < count) := by
  have h := accessOf_reached ts dates calls
  have hascend := idsAscend_reached ts dates calls
  refine ⟨findRoleById_eq h, rolesForPerson_eq h hascend (dated_after dates _),
    fun order personId => ⟨relationsForPerson_perm h order personId,
      relationsForPerson_sorted order personId⟩, rulesForOwner_eq h hascend, ?_⟩
  intro ownerPersonId viewerPersonId dataCategory
  unfold VisibilityDAO.canView
  rw [counted_length h (reached_consistent ts dates calls) (ids_ne_zero_reached ts dates calls)]
  exact (Option.map_eq_bind ..).symm

end Pensar.Analysis
