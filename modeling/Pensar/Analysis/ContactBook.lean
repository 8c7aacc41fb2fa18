import Pensar.Analysis.ContactRemoval
import Pensar.Analysis.PersonRegister
import Pensar.Computation.TopRows
import Pensar.Interface.ContactBook

/-!
# `ContactDAO` keeps a contact book

The phones, e-mails and addresses in the tables are the entries of the book, in the same order: the
ids of a table increase from row to row.  With this, the order of a result does not depend on how
the server sorts.

Main result: `contactDAO_keeps_book`.
-/

set_option autoImplicit false

namespace Pensar.Analysis

open Pensar.Computation
open Pensar.Interface
open Pensar.Model

variable {V D : Type}

/-! ## Rows and entries -/

def rowOwner : Option ℤ → Option ℤ → Option ContactOwner
  | some id, none => some (.person id)
  | none, some id => some (.orgUnit id)
  | _, _ => none

/-- The entry that a row stands for. -/
def rowEntry : Row V D → Option BookEntry
  | .phone r =>
    (rowOwner r.personId r.orgUnitId).map fun o => ⟨r.id, o, .phone (ContactDAO.phoneDto r).2⟩
  | .email r =>
    (rowOwner r.personId r.orgUnitId).map fun o => ⟨r.id, o, .email (ContactDAO.emailDto r).2⟩
  | .address r =>
    (rowOwner r.personId r.orgUnitId).map fun o => ⟨r.id, o, .address (ContactDAO.addressDto r)⟩
  | _ => none

def contactTable : Contact → Table
  | .phone _ => .tPhone
  | .email _ => .tEmail
  | .address _ => .tAddress

def ownerKey : ContactOwner → RowKey
  | .person id => (.tPerson, id)
  | .orgUnit id => (.tOrgUnit, id)

theorem rowOwner_owner (o : ContactOwner) : rowOwner o.personId o.orgUnitId = some o := by
  cases o <;> rfl

theorem rowOwner_eq_some_iff {personId orgUnitId : Option ℤ} {o : ContactOwner} :
    rowOwner personId orgUnitId = some o ↔ personId = o.personId ∧ orgUnitId = o.orgUnitId := by
  cases personId <;> cases orgUnitId <;> cases o <;>
    simp [rowOwner, ContactOwner.personId, ContactOwner.orgUnitId]

theorem owned_cascade (o : ContactOwner) :
    Row.persons o.personId ++ Row.orgUnits o.orgUnitId = [ownerKey o] := by
  cases o <;> rfl

/-- A row with an entry is known by it, and refers to its owner alone. -/
theorem rowEntry_eq_some {r : Row V D} {e : BookEntry} (h : rowEntry r = some e) :
    r.key = (contactTable e.contact, e.id) ∧ r.cascade = [ownerKey e.owner] := by
  cases r with
  | phone r | email r | address r =>
    obtain ⟨o, ho, rfl⟩ := Option.map_eq_some_iff.mp h
    obtain ⟨hperson, hunit⟩ := rowOwner_eq_some_iff.mp ho
    refine ⟨rfl, ?_⟩
    rw [Row.cascade, hperson, hunit, owned_cascade]
  | _ => cases h

/-! ## Removes -/

/-- The row of an entry depends on its owner and on nothing else. -/
theorem dependsOn_entry_iff {rows : List (Row V D)} {r : Row V D} {e : BookEntry}
    (h : rowEntry r = some e) {k : RowKey} :
    DependsOn rows k r ↔ k = (contactTable e.contact, e.id) ∨ k = ownerKey e.owner := by
  obtain ⟨hkey, hcascade⟩ := rowEntry_eq_some h
  unfold DependsOn
  rw [hkey, hcascade]
  constructor
  · rintro (hk | hk | ⟨q, -, hdirect, hq⟩)
    · exact Or.inl hk.symm
    · exact Or.inr (List.mem_singleton.mp hk)
    · -- the owner refers to nothing
      have howner : q.key = ownerKey e.owner := List.mem_singleton.mp hq
      have htarget : IsTarget q.key.1 := isTarget_of_mem_cascade (r := r) (hcascade ▸ hq)
      have hrole := (cascade_of_target htarget hdirect).1
      rw [howner] at hrole
      cases hcase : e.owner <;> rw [hcase] at hrole <;> cases hrole
  · rintro (rfl | rfl)
    · exact Or.inl rfl
    · exact Or.inr (Or.inl List.mem_cons_self)

/-- The key of the row that a call removes. -/
def removedKey : DaoCall D → Option RowKey
  | .removePerson id => some (.tPerson, id)
  | .removeOrgUnit id => some (.tOrgUnit, id)
  | .removePhone id => some (.tPhone, id)
  | .removeEmail id => some (.tEmail, id)
  | .removeAddress id => some (.tAddress, id)
  | .removeRole id => some (.tRole, id)
  | .unassignRole id => some (.tPersonRole, id)
  | .removeVisibility id => some (.tDataVisibility, id)
  | _ => none

/-- A call takes the entries out whose rows depend on the one that it removes. -/
theorem struck_iff (call : DaoCall D) (e : BookEntry) :
    struck call e = true ↔ ∃ k, removedKey call = some k ∧
      (k = (contactTable e.contact, e.id) ∨ k = ownerKey e.owner) := by
  obtain ⟨id, owner, contact⟩ := e
  cases call <;> cases contact <;> cases owner <;>
    simp [struck, removedKey, contactTable, ownerKey, eq_comm]

theorem struck_eq_false {call : DaoCall D} (h : removedKey call = none) (e : BookEntry) :
    struck call e = false := by
  rw [← Bool.not_eq_true, struck_iff, h]
  simp

/-- **The entries that a delete leaves.** -/
theorem entries_delete {rows : List (Row V D)} (hrows : Row.schema.Consistent rows) (k : RowKey) :
    (Row.schema.delete rows k).filterMap rowEntry =
      (rows.filterMap rowEntry).filter fun e =>
        ¬ (k = (contactTable e.contact, e.id) ∨ k = ownerKey e.owner) := by
  simp only [decide_not]
  refine filterMap_delete hrows k (fun _ => rfl) fun r _ e he => ?_
  rw [decide_eq_true_iff]
  exact dependsOn_entry_iff he

/-! ## Inserts -/

theorem owner_getD {personId orgUnitId : ℤ} {o : ContactOwner}
    (h : ContactDAO.owner personId orgUnitId = some o) :
    o.personId.getD 0 = personId ∧ o.orgUnitId.getD 0 = orgUnitId := by
  unfold ContactDAO.owner at h
  split at h
  · next hperson =>
    cases h
    exact ⟨rfl, hperson.2.symm⟩
  · split at h
    · next hunit =>
      cases h
      exact ⟨hunit.1.symm, rfl⟩
    · cases h

/-- What is read back of a text that need not be given. -/
theorem varchar_getD {n : ℕ} {text : SqlText} {stored : Option SqlText}
    (h : nullable (varchar n) text = some stored) : varchar n text = some (stored.getD []) := by
  rw [← nullable_varchar_getD, h]
  rfl

theorem entry_phone {p : PhoneDTO} {id : ℤ} {o : ContactOwner} {r : PhoneRow}
    (ho : ContactDAO.owner p.personId p.orgUnitId = some o)
    (h : ContactDAO.phoneRow p id o = some r) :
    rowEntry (.phone r : Row V D) = entered id (.insertPhone p : DaoCall D) := by
  obtain ⟨rfl, hperson, hunit, hcountry, harea, hnumber, hextension, hmobile, hqualifier,
    hpreferred⟩ := ContactDAO.phoneRow_eq_some_iff.mp h
  obtain ⟨area, harea, hstored⟩ := Option.map_eq_some_iff.mp harea
  obtain ⟨hpersonId, hunitId⟩ := owner_getD ho
  simp only [rowEntry, entered, keptPhone, ContactDAO.phoneDto, hperson, hunit, rowOwner_owner, ho,
    hcountry, harea, hnumber, varchar_getD hextension, ← hstored, hpersonId, hunitId, ← hmobile,
    ← hqualifier, ← hpreferred, Option.map_some, Option.bind_eq_bind, Option.bind_some,
    Option.pure_def, Option.getD_some]

theorem entry_email {e : EmailDTO} {id : ℤ} {o : ContactOwner} {r : EmailRow}
    (ho : ContactDAO.owner e.personId e.orgUnitId = some o)
    (h : ContactDAO.emailRow e id o = some r) :
    rowEntry (.email r : Row V D) = entered id (.insertEmail e : DaoCall D) := by
  simp only [ContactDAO.emailRow, Option.bind_eq_bind, Option.bind_eq_some_iff, Option.pure_def,
    Option.some.injEq] at h
  obtain ⟨email, hemail, rfl⟩ := h
  obtain ⟨hpersonId, hunitId⟩ := owner_getD ho
  simp only [rowEntry, entered, keptEmail, ContactDAO.emailDto, rowOwner_owner, ho, hemail,
    hpersonId, hunitId, Option.map_some, Option.bind_eq_bind, Option.bind_some, Option.pure_def]

theorem entry_address {a : AddressDTO} {id : ℤ} {o : ContactOwner} {r : AddressRow}
    (ho : ContactDAO.owner a.personId a.orgUnitId = some o)
    (h : ContactDAO.addressRow a id o = some r) :
    rowEntry (.address r : Row V D) = entered id (.insertAddress a : DaoCall D) := by
  simp only [ContactDAO.addressRow, Option.bind_eq_bind, Option.bind_eq_some_iff, Option.pure_def,
    Option.some.injEq] at h
  obtain ⟨line₁, hline₁, line₂, hline₂, city, hcity, state, hstate, code, hcode, country, hcountry,
    latitude, hlatitude, longitude, hlongitude, rfl⟩ := h
  obtain ⟨hpersonId, hunitId⟩ := owner_getD ho
  simp only [rowEntry, entered, keptAddress, ContactDAO.addressDto, rowOwner_owner, ho, hline₁,
    varchar_getD hline₂, hcity, varchar_getD hstate, varchar_getD hcode, hcountry, hlatitude,
    hlongitude, hpersonId, hunitId, Option.map_some, Option.bind_eq_bind, Option.bind_some,
    Option.pure_def, Option.getD_some]

/-! ## The order of the rows -/

/-- **The order of a result** is one only, where the ids increase. -/
theorem sort_preferredFirst {α : Type} {isPreferred : α → Bool} {id : α → ℤ}
    (order : OrderBy (Ascending (preferredFirst isPreferred id))) {rows : List α}
    (h : (rows.map id).Pairwise (· < ·)) :
    order.sort rows = rows.filter isPreferred ++ rows.filter fun r => !isPreferred r := by
  have hrows : rows.Pairwise fun a b => id a < id b := List.pairwise_map.mp h
  -- rows that are preferred alike stand in the order of their ids
  have hpart : ∀ q : α → Bool, (∀ a b, q a = true → q b = true → (!isPreferred a) = !isPreferred b) →
      (rows.filter q).Pairwise
        fun a b => preferredFirst isPreferred id a < preferredFirst isPreferred id b := by
    intro q hq
    refine List.Pairwise.imp_of_mem (fun {a b} ha hb hlt => ?_) (hrows.filter q)
    have hsame := hq a b (List.mem_filter.mp ha).2 (List.mem_filter.mp hb).2
    exact (Prod.Lex.toLex_lt_toLex).mpr (Or.inr ⟨hsame, hlt⟩)
  refine order.sort_eq (List.filter_append_perm isPreferred rows) (List.pairwise_map.mpr ?_)
  refine List.pairwise_append.mpr ⟨hpart _ fun a b ha hb => by rw [ha, hb],
    hpart _ fun a b ha hb => by rw [ha, hb], fun a ha b hb => ?_⟩
  have hpa := (List.mem_filter.mp ha).2
  have hpb := (List.mem_filter.mp hb).2
  refine (Prod.Lex.toLex_lt_toLex).mpr (Or.inl ?_)
  show (!isPreferred a) < !isPreferred b
  rw [hpa, hpb]
  decide

/-! ## Calls -/

section Calls

variable {ts : TextSearch V} {dates : DateText D} {s : ContactTables V D} {book : List BookEntry}

theorem noted_insertRow (h : s.rows.filterMap rowEntry = book) (table : Table)
    {build : ℤ → Option (Row V D)} {after : List (Row V D) → List (Row V D)} {call : DaoCall D}
    (hafter : ∀ rows, ∃ f, Refreshes f ∧ after rows = rows.map f)
    (hbuild : ∀ id r, build id = some r → rowEntry r = entered id call) (fate : Fate) :
    (s.insertRow table build after fate).1.rows.filterMap rowEntry =
      noted book call (s.insertRow table build after fate).2 := by
  rcases s.insertRow_cases table build after fate with
    ⟨new, rows, -, hnew, hrows, heq⟩ | ⟨-, heq⟩
  · obtain ⟨f, hf, hmap⟩ := hafter rows
    obtain ⟨-, -, rfl⟩ := Row.schema.insert_eq_some_iff.mp hrows
    have hentry : ∀ r, rowEntry (f r) = rowEntry r := hf.kind_eq fun _ _ => rfl
    rw [heq, hmap, List.filterMap_map, show rowEntry ∘ f = rowEntry from funext hentry,
      List.filterMap_append, h]
    simp [noted, ← hbuild _ _ hnew, List.filterMap_cons]
    cases rowEntry new <;> rfl
  · rw [heq]
    exact h

theorem noted_insertOwned (h : s.rows.filterMap rowEntry = book) (table : Table)
    (personId orgUnitId : ℤ) {build : ℤ → ContactOwner → Option (Row V D)} {call : DaoCall D}
    (hnone : ContactDAO.owner personId orgUnitId = none → entered 0 call = none)
    (hbuild : ∀ o, ContactDAO.owner personId orgUnitId = some o → ∀ id r, build id o = some r →
      rowEntry r = entered id call) (fate : Fate) :
    (s.insertOwned table personId orgUnitId build fate).1.rows.filterMap rowEntry =
      noted book call (s.insertOwned table personId orgUnitId build fate).2 := by
  unfold ContactTables.insertOwned
  cases howner : ContactDAO.owner personId orgUnitId with
  | none => simp [noted, hnone howner, h]
  | some o =>
    exact noted_insertRow h table (fun rows => ⟨id, refreshes_id, (List.map_id rows).symm⟩)
      (hbuild o howner) fate

/-- An update of a row that is no contact. -/
theorem noted_updateRow (h : s.rows.filterMap rowEntry = book) {key : RowKey}
    {change : Row V D → Option (Row V D)} {call : DaoCall D}
    (hkey : ∀ c, contactTable c ≠ key.1) (hkept : removedKey call = none)
    (hchange : ∀ old new, change old = some new → new.key = key) (fate : Fate) :
    (s.updateRow key change fate).1.rows.filterMap rowEntry =
      noted book call (s.updateRow key change fate).2 := by
  have hnone : ∀ r : Row V D, r.key = key → rowEntry r = none := by
    intro r hr
    cases hentry : rowEntry r with
    | none => rfl
    | some e =>
      have htable := congrArg Prod.fst ((rowEntry_eq_some hentry).1.symm.trans hr)
      exact absurd htable (hkey e.contact)
  rcases s.updateRow_cases key change fate with
    ⟨old, new, rows, -, -, hnew, hrows, heq⟩ | ⟨-, -, heq⟩ | ⟨-, heq⟩
  · obtain ⟨-, rfl⟩ := Row.schema.update_eq_some_iff.mp hrows
    have hnewKey := hchange _ _ hnew
    have hreplace : (Row.schema.replace s.rows new).filterMap rowEntry =
        s.rows.filterMap rowEntry := by
      unfold Schema.replace
      rw [List.filterMap_map]
      refine List.filterMap_congr fun r _ => ?_
      rw [Function.comp_apply]
      split
      · next hsame =>
        rw [hnone new hnewKey, hnone r (Eq.trans hsame hnewKey)]
      · rfl
    rw [heq]
    simp [noted, struck_eq_false hkept, hreplace, h]
  · rw [heq]
    simp [noted, struck_eq_false hkept, h]
  · rw [heq]
    exact h

theorem noted_removeRow (h : s.rows.filterMap rowEntry = book)
    (hrows : Row.schema.Consistent s.rows) {key : RowKey} {call : DaoCall D}
    (hkey : removedKey call = some key) (fate : Fate) :
    (s.removeRow key fate).1.rows.filterMap rowEntry =
      noted book call (s.removeRow key fate).2 := by
  rcases s.removeRow_cases key fate with ⟨-, heq⟩ | ⟨-, heq⟩
  · rw [heq]
    show (Row.schema.delete s.rows key).filterMap rowEntry = book.filter _
    rw [entries_delete hrows, h]
    refine List.filter_congr fun e _ => ?_
    have hiff := struck_iff call e
    simp only [hkey, Option.some.injEq, exists_eq_left'] at hiff
    rw [Bool.eq_iff_iff, decide_eq_true_iff, ← hiff]
    simp
  · rw [heq]
    exact h

/-- **One call.** -/
theorem noted_step (h : s.rows.filterMap rowEntry = book) (hrows : Row.schema.Consistent s.rows)
    (call : DaoCall D) (fate : Fate) :
    ((contactSystem ts dates).step s (call, fate)).1.rows.filterMap rowEntry =
      noted book call ((contactSystem ts dates).step s (call, fate)).2 := by
  have hsame : ∀ rows : List (Row V D), ∃ f, Refreshes f ∧ id rows = rows.map f :=
    fun rows => ⟨id, refreshes_id, (List.map_id rows).symm⟩
  cases call with
  | insertPerson p =>
    refine noted_insertRow h .tPerson hsame (fun id r hr => ?_) fate
    obtain ⟨_, -, rfl⟩ := Option.map_eq_some_iff.mp hr
    rfl
  | updatePerson p =>
    refine noted_updateRow h (fun c => by cases c <;> simp [contactTable]) rfl
      (fun _ r hr => ?_) fate
    obtain ⟨row, hrow, rfl⟩ := Option.map_eq_some_iff.mp hr
    exact congrArg (Prod.mk _) ((PersonDAO.row_eq_some_iff ts dates).mp hrow).1
  | insertOrgUnit o =>
    refine noted_insertRow h .tOrgUnit hsame (fun id r hr => ?_) fate
    obtain ⟨_, -, rfl⟩ := Option.map_eq_some_iff.mp hr
    rfl
  | insertLocalized loc =>
    refine noted_insertRow h .tLocalizedOrgUnit (refreshSearch_refreshes ts loc.orgUnitId)
      (fun id r hr => ?_) fate
    obtain ⟨_, -, rfl⟩ := Option.map_eq_some_iff.mp hr
    rfl
  | updateOrgUnit o =>
    refine noted_updateRow h (fun c => by cases c <;> simp [contactTable]) rfl
      (fun _ r hr => ?_) fate
    obtain ⟨_, -, rfl⟩ := Option.map_eq_some_iff.mp hr
    rfl
  | insertPhone p =>
    refine noted_insertOwned h .tPhone _ _ (fun hnone => by simp [entered, hnone])
      (fun o ho id r hr => ?_) fate
    obtain ⟨row, hrow, rfl⟩ := Option.map_eq_some_iff.mp hr
    exact entry_phone ho hrow
  | insertEmail e =>
    refine noted_insertOwned h .tEmail _ _ (fun hnone => by simp [entered, hnone])
      (fun o ho id r hr => ?_) fate
    obtain ⟨row, hrow, rfl⟩ := Option.map_eq_some_iff.mp hr
    exact entry_email ho hrow
  | insertAddress a =>
    refine noted_insertOwned h .tAddress _ _ (fun hnone => by simp [entered, hnone])
      (fun o ho id r hr => ?_) fate
    obtain ⟨row, hrow, rfl⟩ := Option.map_eq_some_iff.mp hr
    exact entry_address ho hrow
  | insertRole r =>
    refine noted_insertRow h .tRole hsame (fun id r hr => ?_) fate
    obtain rfl := Option.some.inj hr
    rfl
  | insertLocalizedRole lr =>
    refine noted_insertRow h .tLocalizedRole hsame (fun id r hr => ?_) fate
    obtain ⟨_, -, rfl⟩ := Option.map_eq_some_iff.mp hr
    rfl
  | insertPersonOrgRelation por =>
    refine noted_insertRow h .tPersonOrgRelation hsame (fun id r hr => ?_) fate
    obtain ⟨_, -, rfl⟩ := Option.map_eq_some_iff.mp hr
    rfl
  | assignRole pr today =>
    refine noted_insertRow h .tPersonRole hsame (fun id r hr => ?_) fate
    obtain ⟨_, -, rfl⟩ := Option.map_eq_some_iff.mp hr
    rfl
  | insertVisibility v =>
    show (s.insertVisibility v fate).1.rows.filterMap rowEntry =
      noted book _ (s.insertVisibility v fate).2
    unfold ContactTables.insertVisibility
    cases VisibilityDAO.viewer v with
    | none => simp [noted, entered, h]
    | some viewer =>
      refine noted_insertRow h .tDataVisibility hsame (fun id r hr => ?_) fate
      obtain ⟨_, -, rfl⟩ := Option.map_eq_some_iff.mp hr
      rfl
  | _ => exact noted_removeRow h hrows rfl fate

end Calls

/-! ## Every run -/

section Runs

variable (ts : TextSearch V) (dates : DateText D)

/-- The calls from a state, with their answers. -/
def historyFrom (s : ContactTables V D) (calls : List (DaoCall D × Fate)) :
    List (DaoCall D × ContactAnswer) :=
  List.zipWith (fun call answer => (call.1, answer)) calls ((contactSystem ts dates).outputs s calls)

theorem noted_run {s : ContactTables V D} {book : List BookEntry}
    (h : s.rows.filterMap rowEntry = book) (hrows : Row.schema.Consistent s.rows)
    (calls : List (DaoCall D × Fate)) :
    ((contactSystem ts dates).run s calls).rows.filterMap rowEntry =
      (historyFrom ts dates s calls).foldl (fun book call => noted book call.1 call.2) book := by
  induction calls generalizing s book with
  | nil => exact h
  | cons i calls ih =>
    obtain ⟨call, fate⟩ := i
    rw [historyFrom, Machine.outputs_cons, List.zipWith_cons_cons, List.foldl_cons]
    exact ih (noted_step h hrows call fate)
      ((contactSystem_change ts dates s call fate).consistent hrows)

/-- A row of a person is an entry of that person. -/
theorem entry_of_person {personId orgUnitId : Option ℤ} (h : OneOwner personId orgUnitId)
    {α : Type} {entry : ContactOwner → BookEntry} (hentry : ∀ o, (entry o).owner = o)
    {entryKind : BookEntry → Option α} {a : α} (ha : ∀ o, entryKind (entry o) = some a) (id : ℤ) :
    (((rowOwner personId orgUnitId).map entry).filter fun e => e.owner = .person id).bind entryKind =
      if personId = some id then some a else none := by
  rcases personId with _ | p <;> rcases orgUnitId with _ | u
  · rfl
  · simp [rowOwner, Option.filter, hentry]
  · by_cases hp : p = id
    · simp [rowOwner, Option.filter, hentry, ha, hp]
    · simp [rowOwner, Option.filter, hentry, hp]
  · rcases h with ⟨-, h⟩ | ⟨h, -⟩ <;> cases h

theorem entry_of_other {α : Type} {owner : Option ContactOwner} {entry : ContactOwner → BookEntry}
    {entryKind : BookEntry → Option α} (h : ∀ o, entryKind (entry o) = none) (p : BookEntry → Bool) :
    ((owner.map entry).filter p).bind entryKind = none := by
  rw [Option.bind_eq_none_iff]
  intro e he
  obtain ⟨o, -, rfl⟩ := Option.map_eq_some_iff.mp (Option.mem_filter_iff.mp he).1
  exact h o

theorem dto_of_person {ρ α : Type} (person : ρ → Option ℤ) (dto : ρ → α) (id : ℤ) (r : ρ) :
    ((some r).filter fun r => person r = some id).map dto =
      if person r = some id then some (dto r) else none := by
  by_cases h : person r = some id <;> simp [Option.filter, h]

/-- What is listed for a person, of one kind. -/
theorem forPerson_eq_listed {ρ α : Type} {kind : Row V D → Option ρ} (person : ρ → Option ℤ)
    {isPreferred : ρ → Bool} {id : ρ → ℤ} (dto : ρ → α) {entryKind : BookEntry → Option α}
    (preferred : α → Bool) {personId : ℤ} {rows : List (Row V D)}
    (hascend : ((Row.select kind rows).map id).Pairwise (· < ·))
    (hpreferred : ∀ r, preferred (dto r) = isPreferred r)
    (hentry : ∀ r : Row V D, ((rowEntry r).filter fun e => e.owner = .person personId).bind entryKind =
      ((kind r).filter fun r => person r = some personId).map dto)
    (order : OrderBy (Ascending (preferredFirst isPreferred id))) :
    (order.sort ((Row.select kind rows).filter fun r => person r = some personId)).map dto =
      listed entryKind preferred (.person personId) (rows.filterMap rowEntry) := by
  have hpart : ((Row.select kind rows).filter fun r => person r = some personId).map dto =
      ((rows.filterMap rowEntry).filter fun e => e.owner = .person personId).filterMap entryKind := by
    unfold Row.select
    rw [List.filter_filterMap, List.filter_filterMap, List.map_filterMap, List.filterMap_filterMap]
    exact List.filterMap_congr fun r _ => (hentry r).symm
  have hids : (((Row.select kind rows).filter fun r => person r = some personId).map id).Pairwise
      (· < ·) := hascend.sublist (List.filter_sublist.map id)
  rw [sort_preferredFirst order hids, listed, ← hpart, List.map_append, List.filter_map,
    List.filter_map]
  simp only [Function.comp_def, hpreferred]

/-- **`ContactDAO` keeps a contact book.**  After any calls of all DAO classes, the phones, e-mails
and addresses of a person are those of the book that is kept from the calls and their answers, each
as it was handed over, and those that are preferred come first; how the server sorts is not seen. -/
theorem contactDAO_keeps_book (calls : List (DaoCall D × Fate)) (personId : ℤ) :
    (∀ order, (reached ts dates calls).phonesForPerson order personId =
      listed BookEntry.phone? (fun p => p.2.isPreferred) (.person personId)
        (contactBook (historyFrom ts dates .installed calls))) ∧
    (∀ order, (reached ts dates calls).emailsForPerson order personId =
      listed BookEntry.email? (fun e => e.2.isPreferred) (.person personId)
        (contactBook (historyFrom ts dates .installed calls))) ∧
    (∀ order, (reached ts dates calls).addressesForPerson order personId =
      listed BookEntry.address? AddressDTO.isPreferred (.person personId)
        (contactBook (historyFrom ts dates .installed calls))) := by
  have hascend := idsAscend_reached ts dates calls
  have hbook : (reached ts dates calls).rows.filterMap rowEntry =
      contactBook (historyFrom ts dates .installed calls) :=
    noted_run ts dates rfl Row.schema.consistent_nil calls
  rw [← hbook]
  refine ⟨fun order => ?_, fun order => ?_, fun order => ?_⟩
  · refine forPerson_eq_listed PhoneRow.personId ContactDAO.phoneDto (fun p => p.2.isPreferred)
      (ids_select .tPhone (fun r => ?_) hascend) (fun _ => rfl) (fun r => ?_) order
    · cases r <;> simp [Row.phone?, Row.key]
    · cases r with
      | phone r =>
        refine Eq.trans ?_ (dto_of_person _ _ personId r).symm
        exact entry_of_person (a := ContactDAO.phoneDto r) r.chkPhoneOwner (fun _ => rfl) (fun _ => rfl)
          personId
      | email r => exact entry_of_other (fun _ => rfl) _
      | address r => exact entry_of_other (fun _ => rfl) _
      | _ => rfl
  · refine forPerson_eq_listed EmailRow.personId ContactDAO.emailDto (fun e => e.2.isPreferred)
      (ids_select .tEmail (fun r => ?_) hascend) (fun _ => rfl) (fun r => ?_) order
    · cases r <;> simp [Row.email?, Row.key]
    · cases r with
      | email r =>
        refine Eq.trans ?_ (dto_of_person _ _ personId r).symm
        exact entry_of_person (a := ContactDAO.emailDto r) r.chkEmailOwner (fun _ => rfl) (fun _ => rfl)
          personId
      | phone r => exact entry_of_other (fun _ => rfl) _
      | address r => exact entry_of_other (fun _ => rfl) _
      | _ => rfl
  · refine forPerson_eq_listed AddressRow.personId ContactDAO.addressDto AddressDTO.isPreferred
      (ids_select .tAddress (fun r => ?_) hascend) (fun _ => rfl) (fun r => ?_) order
    · cases r <;> simp [Row.address?, Row.key]
    · cases r with
      | address r =>
        refine Eq.trans ?_ (dto_of_person _ _ personId r).symm
        exact entry_of_person (a := ContactDAO.addressDto r) r.chkAddressOwner (fun _ => rfl) (fun _ => rfl)
          personId
      | phone r => exact entry_of_other (fun _ => rfl) _
      | email r => exact entry_of_other (fun _ => rfl) _
      | _ => rfl

end Runs

end Pensar.Analysis
