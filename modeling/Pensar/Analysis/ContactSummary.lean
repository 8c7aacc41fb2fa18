import Pensar.Computation.KeyedRows
import Pensar.Model.ContactDAO

/-!
# Has the contact summary one row for each person?

The view joins a person with the mobile phones and the e-mails that are marked as preferred.
Nothing keeps a person from having several of them: `insert_phone` and `insert_email` store the
mark as it is given.

Main result: `oneRowEach_iff` says for which calls every person has one row.
-/

set_option autoImplicit false

namespace Pensar.Analysis

open Pensar.Computation
open Pensar.Model

/-- The rows of the view are one for each person. -/
def OneRowEach (db : ContactDatabase) : Prop :=
  (db.vPersonContactSummary.map PersonContactSummary.id).Perm (db.tPerson.map PersonRow.id)

/-- The row that a call stores: the statement is sent and not refused, and the constraints accept
the row. -/
def Stores {ρ : Type} (o : Option ContactOwner) (row : ContactOwner → Option ρ)
    (accepts : ρ → Bool) (fate : Fate) (r : ρ) : Prop :=
  fate.refused = false ∧ ∃ owner, o = some owner ∧ row owner = some r ∧ accepts r = true

/-- The phone that the call stores. -/
def StoresPhone (s : ContactStore) (p : PhoneDTO) (fate : Fate) : PhoneRow → Prop :=
  Stores (ContactDAO.owner p.personId p.orgUnitId)
    (ContactDAO.phoneRow p (ContactDAO.nextPhoneId s fate)) s.db.acceptsPhone fate

/-- The e-mail that the call stores. -/
def StoresEmail (s : ContactStore) (e : EmailDTO) (fate : Fate) : EmailRow → Prop :=
  Stores (ContactDAO.owner e.personId e.orgUnitId)
    (ContactDAO.emailRow e (ContactDAO.nextEmailId s fate)) s.db.acceptsEmail fate

/-- The call stores no second preferred mobile phone and no second preferred e-mail of a person. -/
def KeepsOneRow (s : ContactStore) : ContactCall → Prop
  | .insertPhone p fate =>
    ∀ row, StoresPhone s p fate row → row.isPreferred = true → row.isMobile = true →
      ∀ person, row.personId = some person → s.db.preferredMobiles person = []
  | .insertEmail e fate =>
    ∀ row, StoresEmail s e fate row → row.isPreferred = true →
      ∀ person, row.personId = some person → s.db.preferredEmails person = []
  | _ => True

/-! ## The view -/

/-- **One row each is one preferred phone and one preferred e-mail each.** -/
theorem oneRowEach_iff_preferred (db : ContactDatabase) :
    OneRowEach db ↔ ∀ p ∈ db.tPerson,
      (db.preferredMobiles p.id).length ≤ 1 ∧ (db.preferredEmails p.id).length ≤ 1 := by
  rw [← leftJoin_leftJoin_perm_iff (fun p => db.preferredMobiles p.id)
    (fun p => db.preferredEmails p.id) PersonRow.id db.tPerson]
  unfold OneRowEach ContactDatabase.vPersonContactSummary
  rw [List.map_map]
  exact Iff.rfl

/-- What the calls keep: the primary key of persons, and the foreign keys that refer to them. -/
structure SoundContacts (db : ContactDatabase) : Prop where
  personId : (db.tPerson.map PersonRow.id).Nodup
  phone : ∀ ph ∈ db.tPhone, ∀ id, ph.personId = some id → id ∈ db.tPerson.map PersonRow.id
  email : ∀ e ∈ db.tEmail, ∀ id, e.personId = some id → id ∈ db.tPerson.map PersonRow.id

theorem mem_preferredMobiles {db : ContactDatabase} {person : ℤ} {ph : PhoneRow} :
    ph ∈ db.preferredMobiles person ↔
      ph ∈ db.tPhone ∧ ph.personId = some person ∧ ph.isPreferred = true ∧ ph.isMobile = true := by
  simp [ContactDatabase.preferredMobiles, and_assoc]

theorem mem_preferredEmails {db : ContactDatabase} {person : ℤ} {e : EmailRow} :
    e ∈ db.preferredEmails person ↔
      e ∈ db.tEmail ∧ e.personId = some person ∧ e.isPreferred = true := by
  simp [ContactDatabase.preferredEmails]

/-- A person that is not there has nothing. -/
theorem preferred_eq_nil {db : ContactDatabase} (hdb : SoundContacts db) {person : ℤ}
    (h : person ∉ db.tPerson.map PersonRow.id) :
    db.preferredMobiles person = [] ∧ db.preferredEmails person = [] := by
  constructor
  · rw [List.eq_nil_iff_forall_not_mem]
    intro ph hph
    obtain ⟨hmem, hperson, -⟩ := mem_preferredMobiles.mp hph
    exact h (hdb.phone ph hmem person hperson)
  · rw [List.eq_nil_iff_forall_not_mem]
    intro e he
    obtain ⟨hmem, hperson, -⟩ := mem_preferredEmails.mp he
    exact h (hdb.email e hmem person hperson)

/-- Fewer rows of every table keep the summary. -/
theorem oneRowEach_of_sublist {db db' : ContactDatabase} (h : OneRowEach db)
    (hperson : db'.tPerson.Sublist db.tPerson) (hphone : db'.tPhone.Sublist db.tPhone)
    (hemail : db'.tEmail.Sublist db.tEmail) : OneRowEach db' := by
  rw [oneRowEach_iff_preferred] at h ⊢
  intro p hp
  obtain ⟨hmobiles, hemails⟩ := h p (hperson.subset hp)
  exact ⟨(hphone.filter _).length_le.trans hmobiles, (hemail.filter _).length_le.trans hemails⟩

/-! ## The statements -/

section Statements

variable {db db' : ContactDatabase}

theorem acceptsPhone_person {row : PhoneRow} (h : db.acceptsPhone row = true) {person : ℤ}
    (hperson : row.personId = some person) : person ∈ db.tPerson.map PersonRow.id := by
  simp only [ContactDatabase.acceptsPhone, hperson, Option.all_some, Bool.and_eq_true,
    List.contains_iff_mem] at h
  exact h.1.2

theorem acceptsEmail_person {row : EmailRow} (h : db.acceptsEmail row = true) {person : ℤ}
    (hperson : row.personId = some person) : person ∈ db.tPerson.map PersonRow.id := by
  simp only [ContactDatabase.acceptsEmail, hperson, Option.all_some, Bool.and_eq_true,
    List.contains_iff_mem] at h
  exact h.1.1.2

theorem acceptsPerson_new {row : PersonRow} (h : db.acceptsPerson row = true) :
    row.id ∉ db.tPerson.map PersonRow.id := by
  simp only [ContactDatabase.acceptsPerson, Bool.and_eq_true, Bool.not_eq_true',
    List.contains_eq_mem, decide_eq_false_iff_not] at h
  exact h.1.1.1.1

theorem insertPerson_sound {row : PersonRow} (hdb : SoundContacts db)
    (h : db.insertPerson row = some db') : SoundContacts db' := by
  unfold ContactDatabase.insertPerson at h
  split at h
  · next haccepts =>
    cases h
    have hids : (db.tPerson ++ [row]).map PersonRow.id =
        db.tPerson.map PersonRow.id ++ [row.id] := by simp
    refine ⟨?_, ?_, ?_⟩
    · rw [hids]
      exact hdb.personId.append (List.nodup_singleton _) (by simpa using acceptsPerson_new haccepts)
    · intro ph hph id hid
      rw [hids]
      exact List.mem_append_left _ (hdb.phone ph hph id hid)
    · intro e he id hid
      rw [hids]
      exact List.mem_append_left _ (hdb.email e he id hid)
  · cases h

theorem insertPerson_oneRowEach {row : PersonRow} (hdb : SoundContacts db) (hone : OneRowEach db)
    (h : db.insertPerson row = some db') : OneRowEach db' := by
  unfold ContactDatabase.insertPerson at h
  split at h
  · next haccepts =>
    cases h
    rw [oneRowEach_iff_preferred] at hone ⊢
    intro p hp
    rcases List.mem_append.mp hp with hp | hp
    · exact hone p hp
    · obtain rfl := List.mem_singleton.mp hp
      obtain ⟨hmobiles, hemails⟩ := preferred_eq_nil hdb (acceptsPerson_new haccepts)
      constructor
      · exact (congrArg List.length hmobiles).trans_le (Nat.zero_le 1)
      · exact (congrArg List.length hemails).trans_le (Nat.zero_le 1)
  · cases h

theorem deletePerson_sound (id : ℤ) (hdb : SoundContacts db) :
    SoundContacts (db.deletePerson id) := by
  have hkept : ∀ person, person ∈ db.tPerson.map PersonRow.id → person ≠ id →
      person ∈ (db.deletePerson id).tPerson.map PersonRow.id := by
    intro person hperson hne
    obtain ⟨p, hp, rfl⟩ := List.mem_map.mp hperson
    exact List.mem_map_of_mem (List.mem_filter.mpr ⟨hp, decide_eq_true hne⟩)
  refine ⟨nodup_filter_key hdb.personId _, ?_, ?_⟩
  · intro ph hph person hperson
    obtain ⟨hmem, hne⟩ := List.mem_filter.mp hph
    refine hkept person (hdb.phone ph hmem person hperson) ?_
    rintro rfl
    exact of_decide_eq_true hne hperson
  · intro e he person hperson
    obtain ⟨hmem, hne⟩ := List.mem_filter.mp he
    refine hkept person (hdb.email e hmem person hperson) ?_
    rintro rfl
    exact of_decide_eq_true hne hperson

/-- **A phone that is stored** keeps the summary unless it is a second preferred mobile. -/
theorem storedPhone_oneRowEach_iff {row : PhoneRow} (hone : OneRowEach db)
    (haccepts : db.acceptsPhone row = true) :
    OneRowEach { db with tPhone := db.tPhone ++ [row] } ↔
      (row.isPreferred = true → row.isMobile = true →
        ∀ person, row.personId = some person → db.preferredMobiles person = []) := by
  have hmobiles : ∀ person,
      ContactDatabase.preferredMobiles { db with tPhone := db.tPhone ++ [row] } person =
        db.preferredMobiles person ++
          [row].filter fun ph => ph.personId = some person && ph.isPreferred && ph.isMobile :=
    fun person => List.filter_append _ _
  rw [oneRowEach_iff_preferred] at hone ⊢
  constructor
  · intro h hpreferred hmobile person hperson
    obtain ⟨p, hp, rfl⟩ := List.mem_map.mp (acceptsPhone_person haccepts hperson)
    have hle := (h p hp).1
    rw [hmobiles] at hle
    simp only [List.filter_cons, hperson, hpreferred, hmobile, decide_true, Bool.and_self,
      if_true, List.filter_nil, List.length_append, List.length_singleton] at hle
    exact List.eq_nil_of_length_eq_zero (by omega)
  · intro h p hp
    refine ⟨?_, (hone p hp).2⟩
    rw [hmobiles, List.filter_cons]
    split
    · next hrow =>
      simp only [Bool.and_eq_true, decide_eq_true_eq] at hrow
      rw [h hrow.1.2 hrow.2 p.id hrow.1.1]
      exact le_refl 1
    · rw [List.filter_nil, List.append_nil]
      exact (hone p hp).1

/-- **An e-mail that is stored** keeps the summary unless it is a second preferred one. -/
theorem storedEmail_oneRowEach_iff {row : EmailRow} (hone : OneRowEach db)
    (haccepts : db.acceptsEmail row = true) :
    OneRowEach { db with tEmail := db.tEmail ++ [row] } ↔
      (row.isPreferred = true →
        ∀ person, row.personId = some person → db.preferredEmails person = []) := by
  have hemails : ∀ person,
      ContactDatabase.preferredEmails { db with tEmail := db.tEmail ++ [row] } person =
        db.preferredEmails person ++
          [row].filter fun e => e.personId = some person && e.isPreferred :=
    fun person => List.filter_append _ _
  rw [oneRowEach_iff_preferred] at hone ⊢
  constructor
  · intro h hpreferred person hperson
    obtain ⟨p, hp, rfl⟩ := List.mem_map.mp (acceptsEmail_person haccepts hperson)
    have hle := (h p hp).2
    rw [hemails] at hle
    simp only [List.filter_cons, hperson, hpreferred, decide_true, Bool.and_self, if_true,
      List.filter_nil, List.length_append, List.length_singleton] at hle
    exact List.eq_nil_of_length_eq_zero (by omega)
  · intro h p hp
    refine ⟨(hone p hp).1, ?_⟩
    rw [hemails, List.filter_cons]
    split
    · next hrow =>
      simp only [Bool.and_eq_true, decide_eq_true_eq] at hrow
      rw [h hrow.2 p.id hrow.1]
      exact le_refl 1
    · rw [List.filter_nil, List.append_nil]
      exact (hone p hp).2

end Statements

/-! ## The calls -/

section Steps

variable {s : ContactStore}

/-- A row is stored, and no other, or the statement is not sent or refused. -/
theorem stores_cases {ρ : Type} (o : Option ContactOwner) (row : ContactOwner → Option ρ)
    (accepts : ρ → Bool) (fate : Fate) (insert : ρ → Option ContactDatabase)
    {add : ρ → ContactDatabase}
    (hinsert : ∀ r, insert r = if accepts r then some (add r) else none) :
    (∃ r, Stores o row accepts fate r ∧ (∀ r', Stores o row accepts fate r' → r' = r) ∧
      ∃ owner, o = some owner ∧ ContactDAO.run (row owner) insert fate = some (add r)) ∨
    (∀ r, ¬ Stores o row accepts fate r) ∧
      ∀ owner, o = some owner → ContactDAO.run (row owner) insert fate = none := by
  by_cases hstores : ∃ r, Stores o row accepts fate r
  · obtain ⟨r, hr⟩ := hstores
    obtain ⟨hrefused, owner, rfl, hrow, haccepts⟩ := id hr
    refine Or.inl ⟨r, hr, ?_, owner, rfl, ?_⟩
    · rintro r' ⟨-, owner', howner, hrow', -⟩
      cases howner
      rw [hrow] at hrow'
      exact (Option.some.inj hrow').symm
    · simp [ContactDAO.run, hrefused, hrow, hinsert, haccepts]
  · refine Or.inr ⟨fun r hr => hstores ⟨r, hr⟩, ?_⟩
    rintro owner rfl
    unfold ContactDAO.run
    split
    · rfl
    · next hrefused =>
      rw [Option.bind_eq_none_iff]
      intro r hrow
      rw [hinsert, if_neg]
      intro haccepts
      exact hstores ⟨r, by simpa using hrefused, owner, rfl, hrow, haccepts⟩

/-- A call to insert a phone stores a row, or leaves the tables as they are. -/
theorem insertPhone_cases (s : ContactStore) (p : PhoneDTO) (fate : Fate) :
    (∃ row, StoresPhone s p fate row ∧ (∀ row', StoresPhone s p fate row' → row' = row) ∧
      (ContactDAO.insertPhone s p fate).1.db = { s.db with tPhone := s.db.tPhone ++ [row] }) ∨
    (∀ row, ¬ StoresPhone s p fate row) ∧ (ContactDAO.insertPhone s p fate).1 = s := by
  unfold ContactDAO.insertPhone
  rcases stores_cases (ContactDAO.owner p.personId p.orgUnitId)
    (ContactDAO.phoneRow p (ContactDAO.nextPhoneId s fate)) s.db.acceptsPhone fate
    s.db.insertPhone (fun _ => rfl) with
    ⟨row, hstores, honly, owner, howner, hrun⟩ | ⟨hnone, hrun⟩
  · refine Or.inl ⟨row, hstores, honly, ?_⟩
    rw [howner]
    simp only [hrun]
  · refine Or.inr ⟨hnone, ?_⟩
    cases howner : ContactDAO.owner p.personId p.orgUnitId with
    | none => rfl
    | some owner => simp only [hrun owner howner]

/-- A call to insert an e-mail stores a row, or leaves the tables as they are. -/
theorem insertEmail_cases (s : ContactStore) (e : EmailDTO) (fate : Fate) :
    (∃ row, StoresEmail s e fate row ∧ (∀ row', StoresEmail s e fate row' → row' = row) ∧
      (ContactDAO.insertEmail s e fate).1.db = { s.db with tEmail := s.db.tEmail ++ [row] }) ∨
    (∀ row, ¬ StoresEmail s e fate row) ∧ (ContactDAO.insertEmail s e fate).1 = s := by
  unfold ContactDAO.insertEmail
  rcases stores_cases (ContactDAO.owner e.personId e.orgUnitId)
    (ContactDAO.emailRow e (ContactDAO.nextEmailId s fate)) s.db.acceptsEmail fate
    s.db.insertEmail (fun _ => rfl) with
    ⟨row, hstores, honly, owner, howner, hrun⟩ | ⟨hnone, hrun⟩
  · refine Or.inl ⟨row, hstores, honly, ?_⟩
    rw [howner]
    simp only [hrun]
  · refine Or.inr ⟨hnone, ?_⟩
    cases howner : ContactDAO.owner e.personId e.orgUnitId with
    | none => rfl
    | some owner => simp only [hrun owner howner]

/-- The keys are kept. -/
theorem step_soundContacts (hs : SoundContacts s.db) (i : ContactCall) :
    SoundContacts (ContactDAO.machine.step s i).1.db := by
  cases i with
  | insertPerson row refused =>
    simp only [ContactDAO.machine, ContactDAO.insertPerson]
    cases refused with
    | true => exact hs
    | false =>
      cases h : s.db.insertPerson row with
      | none => simpa [h] using hs
      | some db => simpa [h] using insertPerson_sound hs h
  | deletePerson id refused =>
    simp only [ContactDAO.machine, ContactDAO.deletePerson]
    cases refused with
    | true => exact hs
    | false => exact deletePerson_sound id hs
  | insertPhone p fate =>
    simp only [ContactDAO.machine]
    rcases insertPhone_cases s p fate with ⟨row, ⟨-, o, -, -, haccepts⟩, -, hdb⟩ | ⟨-, hsame⟩
    · rw [hdb]
      refine ⟨hs.personId, ?_, hs.email⟩
      intro ph hph person hperson
      rcases List.mem_append.mp hph with hph | hph
      · exact hs.phone ph hph person hperson
      · obtain rfl := List.mem_singleton.mp hph
        exact acceptsPhone_person haccepts hperson
    · rwa [hsame]
  | removePhone id fate =>
    simp only [ContactDAO.machine, ContactDAO.removePhone]
    split
    · exact hs
    · exact ⟨hs.personId, fun ph hph => hs.phone ph (List.mem_filter.mp hph).1, hs.email⟩
  | insertEmail e fate =>
    simp only [ContactDAO.machine]
    rcases insertEmail_cases s e fate with ⟨row, ⟨-, o, -, -, haccepts⟩, -, hdb⟩ | ⟨-, hsame⟩
    · rw [hdb]
      refine ⟨hs.personId, hs.phone, ?_⟩
      intro e' he' person hperson
      rcases List.mem_append.mp he' with he' | he'
      · exact hs.email e' he' person hperson
      · obtain rfl := List.mem_singleton.mp he'
        exact acceptsEmail_person haccepts hperson
    · rwa [hsame]
  | removeEmail id fate =>
    simp only [ContactDAO.machine, ContactDAO.removeEmail]
    split
    · exact hs
    · exact ⟨hs.personId, hs.phone, fun e he => hs.email e (List.mem_filter.mp he).1⟩

/-- **One phone.** -/
theorem insertPhone_oneRowEach_iff (hone : OneRowEach s.db) (p : PhoneDTO) (fate : Fate) :
    OneRowEach (ContactDAO.insertPhone s p fate).1.db ↔ KeepsOneRow s (.insertPhone p fate) := by
  unfold KeepsOneRow
  rcases insertPhone_cases s p fate with ⟨row, hstores, honly, hdb⟩ | ⟨hnone, hsame⟩
  · obtain ⟨-, o, -, -, haccepts⟩ := id hstores
    rw [hdb, storedPhone_oneRowEach_iff hone haccepts]
    constructor
    · intro h row' hrow'
      rw [honly row' hrow']
      exact h
    · intro h
      exact h row hstores
  · rw [hsame]
    exact iff_of_true hone fun row hrow => absurd hrow (hnone row)

/-- **One e-mail.** -/
theorem insertEmail_oneRowEach_iff (hone : OneRowEach s.db) (e : EmailDTO) (fate : Fate) :
    OneRowEach (ContactDAO.insertEmail s e fate).1.db ↔ KeepsOneRow s (.insertEmail e fate) := by
  unfold KeepsOneRow
  rcases insertEmail_cases s e fate with ⟨row, hstores, honly, hdb⟩ | ⟨hnone, hsame⟩
  · obtain ⟨-, o, -, -, haccepts⟩ := id hstores
    rw [hdb, storedEmail_oneRowEach_iff hone haccepts]
    constructor
    · intro h row' hrow'
      rw [honly row' hrow']
      exact h
    · intro h
      exact h row hstores
  · rw [hsame]
    exact iff_of_true hone fun row hrow => absurd hrow (hnone row)

/-- **One call.** -/
theorem step_oneRowEach_iff (hs : SoundContacts s.db) (hone : OneRowEach s.db) (i : ContactCall) :
    OneRowEach (ContactDAO.machine.step s i).1.db ↔ KeepsOneRow s i := by
  cases i with
  | insertPerson row refused =>
    refine iff_of_true ?_ trivial
    simp only [ContactDAO.machine, ContactDAO.insertPerson]
    cases refused with
    | true => exact hone
    | false =>
      cases h : s.db.insertPerson row with
      | none => simpa [h] using hone
      | some db => simpa [h] using insertPerson_oneRowEach hs hone h
  | deletePerson id refused =>
    refine iff_of_true ?_ trivial
    simp only [ContactDAO.machine, ContactDAO.deletePerson]
    split
    · exact hone
    · exact oneRowEach_of_sublist hone List.filter_sublist List.filter_sublist
        List.filter_sublist
  | insertPhone p fate => exact insertPhone_oneRowEach_iff hone p fate
  | removePhone id fate =>
    refine iff_of_true ?_ trivial
    simp only [ContactDAO.machine, ContactDAO.removePhone]
    split
    · exact hone
    · exact oneRowEach_of_sublist hone (List.Sublist.refl _) List.filter_sublist
        (List.Sublist.refl _)
  | insertEmail e fate => exact insertEmail_oneRowEach_iff hone e fate
  | removeEmail id fate =>
    refine iff_of_true ?_ trivial
    simp only [ContactDAO.machine, ContactDAO.removeEmail]
    split
    · exact hone
    · exact oneRowEach_of_sublist hone (List.Sublist.refl _) (List.Sublist.refl _)
        List.filter_sublist

end Steps

/-- **Every person has one row after every call exactly when no call stores a second preferred
mobile phone, or a second preferred e-mail, of a person.** -/
theorem oneRowEach_iff (calls : List ContactCall) :
    (∀ p, p <+: calls → OneRowEach (ContactDAO.machine.run ContactDAO.installed p).db) ↔
      ContactDAO.machine.Along KeepsOneRow ContactDAO.installed calls := by
  refine ContactDAO.machine.prefix_invariant_iff (fun s => SoundContacts s.db)
    (fun s => OneRowEach s.db) KeepsOneRow ?_ ?_ ContactDAO.installed calls ?_ ?_
  · intro s i hs
    exact step_soundContacts hs i
  · intro s i hs hone
    exact step_oneRowEach_iff hs hone i
  · exact ⟨List.nodup_nil, by simp [ContactDAO.installed], by simp [ContactDAO.installed]⟩
  · exact List.Perm.refl _

/-- A person, and two preferred mobile phones of that person. -/
def twoMobiles : List ContactCall :=
  [.insertPerson ⟨1, "Ana".toList, none, "Souza".toList, none, none, none⟩ false,
    .insertPhone ⟨1, 0, "+55".toList, "11".toList, "900000001".toList, [], true, 3, true⟩ {},
    .insertPhone ⟨1, 0, "+55".toList, "11".toList, "900000002".toList, [], true, 3, true⟩ {}]

/-- The person has two rows. -/
theorem not_oneRowEach_twoMobiles :
    ¬ ∀ calls, OneRowEach (ContactDAO.machine.run ContactDAO.installed calls).db := by
  intro h
  have hlength := (h twoMobiles).length_eq
  revert hlength
  decide

end Pensar.Analysis
