import Pensar.Analysis.ContactRemoval
import Pensar.Interface.PersonRegister

/-!
# `PersonDAO` keeps a register of persons

The rows of `T_Person` have `NULL` where a `PersonDTO` has an empty text, a search vector that a
trigger computes, and ids from a sequence; rows of ten other tables refer to them.  To the callers
of `PersonDAO` this is the register of `Pensar.Interface.PersonRegister`, whatever the other DAO
classes do in between.

Main results: `personDAO_refines_register`, `update_unmodified`.
-/

set_option autoImplicit false

namespace Pensar.Analysis

open Pensar.Computation
open Pensar.Interface
open Pensar.Model

variable {V D : Type}

/-! ## Texts in columns -/

section Columns

theorem varchar_nil (n : ℕ) : varchar n [] = some [] := by simp [varchar]

/-- What fits is stored as it is. -/
theorem varchar_of_length_le {n : ℕ} {text : SqlText} (h : text.length ≤ n) :
    varchar n text = some text := by
  unfold varchar
  rw [List.drop_eq_nil_of_le h, List.take_of_length_le h]
  rfl

theorem length_char {n : ℕ} {text stored : SqlText} (h : char n text = some stored) :
    stored.length = n := by
  obtain ⟨t, ht, rfl⟩ := Option.map_eq_some_iff.mp h
  have hle := length_varchar ht
  rw [List.length_append, List.length_replicate]
  omega

theorem char_of_length_eq {n : ℕ} {text : SqlText} (h : text.length = n) :
    char n text = some text := by
  unfold char
  rw [varchar_of_length_le h.le]
  simp [h]

variable {α : Type} {assign : SqlText → Option α} {text : SqlText} {stored : Option α}

theorem nullable_eq_some_iff :
    nullable assign text = some stored ↔
      (text = [] ∧ stored = none) ∨ (text ≠ [] ∧ ∃ a, assign text = some a ∧ stored = some a) := by
  unfold nullable nullIfEmpty
  by_cases h : text = []
  · simp [h, eq_comm]
  · simp [h, eq_comm]

theorem nullable_varchar_getD (n : ℕ) (text : SqlText) :
    (nullable (varchar n) text).map (·.getD []) = varchar n text := by
  by_cases h : text = []
  · simp [nullable, nullIfEmpty, h, varchar_nil]
  · simp [nullable, nullIfEmpty, h]

theorem nullable_getD (assign : SqlText → Option α) (out : α → SqlText) (text : SqlText) :
    (nullable assign text).map (fun a => (a.map out).getD []) =
      PersonRegister.optional (fun text => (assign text).map out) text := by
  by_cases h : text = []
  · simp [nullable, nullIfEmpty, PersonRegister.optional, h]
  · simp [nullable, nullIfEmpty, PersonRegister.optional, h, Function.comp_def]

theorem nullIfEmpty_getD (text : SqlText) : (nullIfEmpty text).getD [] = text := by
  by_cases h : text = [] <;> simp [nullIfEmpty, h]

end Columns

section Rows

variable (ts : TextSearch V) (dates : DateText D)

/-- **A row that is built reads back as what is kept of the person.** -/
theorem map_dto_row (p : PersonDTO) (id : ℤ) :
    (PersonDAO.row ts dates p id).map (PersonDAO.dto dates) =
      PersonRegister.kept dates p id := by
  have hcountry : (nullable (char 2) p.passportCountry).map (·.getD []) =
      PersonRegister.optional (char 2) p.passportCountry := by
    simpa using nullable_getD (char 2) (fun text => text) p.passportCountry
  simp only [PersonRegister.kept, ← nullable_varchar_getD 50 p.middleName,
    ← nullable_varchar_getD 20 p.federalTaxId, ← nullable_varchar_getD 30 p.identificationNumber,
    ← nullable_varchar_getD 30 p.passportNumber, ← hcountry,
    ← nullable_getD dates.dateIn dates.dateOut, PersonDAO.row, Option.bind_eq_bind,
    Option.map_bind, Option.bind_map, Function.comp_def, Option.pure_def, Option.map_some]
  simp only [PersonDAO.dto, fnPersonSearchVector, nullIfEmpty_getD]

variable {ts dates} {p : PersonDTO} {id : ℤ} {r : PersonRecord V D}

/-- A column that can be `NULL` holds no empty text. -/
theorem ne_nil_of_nullable {n : ℕ} {text : SqlText} {stored : Option SqlText}
    (hn : 0 < n) (h : nullable (varchar n) text = some stored) : stored ≠ some [] := by
  rintro rfl
  rcases nullable_eq_some_iff.mp h with ⟨-, hnone⟩ | ⟨htext, a, ha, hsome⟩
  · cases hnone
  · cases hsome
    unfold varchar at ha
    split at ha
    · obtain hnil | hnil := List.take_eq_nil_iff.mp (Option.some.inj ha)
      · omega
      · exact htext hnil
    · cases ha

theorem length_of_nullable {n : ℕ} {text : SqlText} {stored : Option SqlText}
    (h : nullable (varchar n) text = some stored) : stored.all (·.length ≤ n) = true := by
  rcases nullable_eq_some_iff.mp h with ⟨-, rfl⟩ | ⟨-, a, ha, rfl⟩
  · rfl
  · simpa using length_varchar ha

/-- A row that is built meets the checks. -/
theorem check_of_row (h : PersonDAO.row ts dates p id = some r) :
    (Row.person r : Row V D).check = true := by
  obtain ⟨-, hfirst, hmiddle, hlast, htax, hident, hpassport, hcountry, -, -, -, -⟩ :=
    (PersonDAO.row_eq_some_iff ts dates).mp h
  have hlength : r.passportCountry.all (·.length = 2) = true := by
    rcases nullable_eq_some_iff.mp hcountry with ⟨-, hnone⟩ | ⟨-, a, ha, hsome⟩
    · simp [hnone]
    · simpa [hsome] using length_char ha
  simp [Row.check, length_varchar hfirst, length_of_nullable hmiddle, length_varchar hlast,
    length_of_nullable htax, length_of_nullable hident, length_of_nullable hpassport, hlength]

/-- The tax number of a row that is built, and of its DTO. -/
theorem federalTaxId_eq_some_iff (h : PersonDAO.row ts dates p id = some r) {t : SqlText} :
    r.federalTaxId = some t ↔ (PersonDAO.dto dates r).federalTaxId = t ∧ t ≠ [] := by
  obtain ⟨-, -, -, -, htax, -⟩ := (PersonDAO.row_eq_some_iff ts dates).mp h
  have hne := ne_nil_of_nullable (by norm_num) htax
  unfold PersonDAO.dto
  cases hr : r.federalTaxId with
  | none =>
    constructor
    · intro hnone
      cases hnone
    · rintro ⟨hnil, hnot⟩
      exact absurd hnil.symm hnot
  | some u =>
    rw [hr] at hne
    constructor
    · rintro ⟨⟩
      exact ⟨rfl, fun hnil => hne (congrArg some hnil)⟩
    · rintro ⟨hu, -⟩
      exact congrArg some hu

end Rows

/-! ## The rows of `T_Person` and the register -/

section Tables

variable (ts : TextSearch V) (dates : DateText D)

/-- The tables hold the persons of the register. -/
structure Keeps (s : ContactTables V D) (m : PersonRegister) : Prop where
  consistent : Row.schema.Consistent s.rows
  ids : ∀ k ∈ s.rows.map Row.key, k.2 ≤ s.lastId k.1
  built : ∀ r, Row.person r ∈ s.rows → ∃ p, PersonDAO.row ts dates p r.id = some r
  lastId : s.lastId .tPerson = m.lastId
  find : ∀ id q, m.find id = some q ↔
    ∃ r, Row.person r ∈ s.rows ∧ r.id = id ∧ PersonDAO.dto dates r = q

theorem mem_select_person {rows : List (Row V D)} {r : PersonRecord V D} :
    r ∈ Row.select Row.person? rows ↔ Row.person r ∈ rows := by
  unfold Row.select
  rw [List.mem_filterMap]
  constructor
  · rintro ⟨x, hx, hr⟩
    cases x with
    | person x =>
      cases hr
      exact hx
    | _ => cases hr
  · intro h
    exact ⟨_, h, rfl⟩

theorem person_of_key {rows : List (Row V D)} {id : ℤ}
    (h : (Table.tPerson, id) ∈ rows.map Row.key) :
    ∃ r, Row.person r ∈ rows ∧ r.id = id := by
  obtain ⟨x, hx, hkey⟩ := List.mem_map.mp h
  cases x with
  | person r => exact ⟨r, hx, congrArg Prod.snd hkey⟩
  | _ => cases hkey

/-- Two rows of a person are one. -/
theorem person_eq {rows : List (Row V D)} (hrows : Row.schema.Consistent rows)
    {r r' : PersonRecord V D} (hr : Row.person r ∈ rows) (hr' : Row.person r' ∈ rows)
    (h : r.id = r'.id) : r = r' := by
  have hkey : (Row.person r : Row V D).key = (Row.person r' : Row V D).key :=
    congrArg (Prod.mk Table.tPerson) h
  exact Row.person.inj (List.inj_on_of_nodup_map hrows.keys hr hr' hkey)

variable {ts dates} {s s' : ContactTables V D} {m : PersonRegister}

theorem Keeps.findById (h : Keeps ts dates s m) (id : ℤ) :
    PersonDAO.findById dates s id = m.find id := by
  refine Option.ext fun q => ?_
  rw [h.find, PersonDAO.findById, Option.map_eq_some_iff]
  constructor
  · rintro ⟨r, hr, rfl⟩
    have hid := List.find?_some hr
    exact ⟨r, mem_select_person.mp (List.mem_of_find?_eq_some hr), of_decide_eq_true hid, rfl⟩
  · rintro ⟨r, hr, rfl, rfl⟩
    have hmem := mem_select_person.mpr hr
    cases hfound : (Row.select Row.person? s.rows).find? fun x => x.id = r.id with
    | none =>
      have hnot := List.find?_eq_none.mp hfound r hmem
      simp at hnot
    | some x =>
      have hx := mem_select_person.mp (List.mem_of_find?_eq_some hfound)
      have hid := List.find?_some hfound
      obtain rfl := person_eq h.consistent hx hr (of_decide_eq_true hid)
      exact ⟨x, rfl, rfl⟩

/-- Nobody is kept under an id that no row has. -/
theorem Keeps.find_eq_none_iff (h : Keeps ts dates s m) {id : ℤ} :
    m.find id = none ↔ (Table.tPerson, id) ∉ s.rows.map Row.key := by
  constructor
  · intro hnone hkey
    obtain ⟨r, hr, hid⟩ := person_of_key hkey
    rw [(h.find id _).mpr ⟨r, hr, hid, rfl⟩] at hnone
    cases hnone
  · intro hkey
    rw [Option.eq_none_iff_forall_ne_some]
    intro q hq
    obtain ⟨r, hr, rfl, -⟩ := (h.find id q).mp hq
    exact hkey (List.mem_map_of_mem hr)

/-- **When a person is accepted**: if nobody else has the tax number. -/
theorem Keeps.accepts_iff (h : Keeps ts dates s m) {p : PersonDTO} {id : ℤ}
    {r : PersonRecord V D} (hr : PersonDAO.row ts dates p id = some r) :
    Row.schema.Accepts s.rows (Row.person r) ↔
      ¬ m.Taken id (PersonDAO.dto dates r).federalTaxId := by
  have hid : r.id = id := ((PersonDAO.row_eq_some_iff ts dates).mp hr).1
  have htaken : m.Taken id (PersonDAO.dto dates r).federalTaxId ↔
      ∃ t, r.federalTaxId = some t ∧
        ∃ x, Row.person x ∈ s.rows ∧ x.id ≠ id ∧ x.federalTaxId = some t := by
    unfold PersonRegister.Taken
    constructor
    · rintro ⟨hne, j, q, hj, hq, htax⟩
      obtain ⟨x, hx, rfl, rfl⟩ := (h.find j q).mp hq
      obtain ⟨px, hpx⟩ := h.built x hx
      exact ⟨_, (federalTaxId_eq_some_iff hr).mpr ⟨rfl, hne⟩, x, hx, hj,
        (federalTaxId_eq_some_iff hpx).mpr ⟨htax, hne⟩⟩
    · rintro ⟨t, ht, x, hx, hxid, hxt⟩
      obtain ⟨px, hpx⟩ := h.built x hx
      obtain ⟨htax, hne⟩ := (federalTaxId_eq_some_iff hr).mp ht
      rw [htax]
      exact ⟨hne, x.id, _, hxid, (h.find _ _).mpr ⟨x, hx, rfl, rfl⟩,
        ((federalTaxId_eq_some_iff hpx).mp hxt).1⟩
  have hunique : (∀ u ∈ (Row.person r : Row V D).unique,
      u ∉ (Row.schema.others s.rows (Row.person r).key).flatMap Row.unique) ↔
      ¬ ∃ t, r.federalTaxId = some t ∧
        ∃ x, Row.person x ∈ s.rows ∧ x.id ≠ id ∧ x.federalTaxId = some t := by
    constructor
    · rintro hall ⟨t, ht, x, hx, hxid, hxt⟩
      refine hall (.personTaxId t) (by simp [Row.unique, ht]) ?_
      refine List.mem_flatMap.mpr ⟨Row.person x, ?_, by simp [Row.unique, hxt]⟩
      refine (Row.schema.mem_others).mpr ⟨hx, fun hkey => hxid ?_⟩
      exact (congrArg Prod.snd hkey).trans hid
    · intro hnot u hu hmem
      obtain ⟨t, ht, rfl⟩ := List.mem_map.mp hu
      obtain ⟨x, hx, hxu⟩ := List.mem_flatMap.mp hmem
      obtain ⟨hxrows, hxkey⟩ := (Row.schema.mem_others).mp hx
      cases x with
      | person x =>
        obtain ⟨t', ht', heq⟩ := List.mem_map.mp hxu
        cases heq
        refine hnot ⟨t, Option.mem_toList.mp ht, x, hxrows, fun hx => hxkey ?_,
          Option.mem_toList.mp ht'⟩
        exact congrArg (Prod.mk Table.tPerson) (hx.trans hid.symm)
      | _ => simp [Row.unique] at hxu
  unfold Schema.Accepts
  rw [htaken, ← hunique]
  constructor
  · rintro ⟨-, hu, -⟩
    exact hu
  · intro hu
    exact ⟨fun k hk => (nomatch hk), hu, check_of_row hr⟩

/-! ## Calls -/

/-- A call that writes another table leaves the persons as they are. -/
theorem TableChange.mem_person {table : Table} {answer : ContactAnswer}
    (h : TableChange s table s' answer) (hs : Row.schema.Consistent s.rows)
    (ht : table ≠ .tPerson) (r : PersonRecord V D) :
    Row.person r ∈ s'.rows ↔ Row.person r ∈ s.rows := by
  cases h with
  | same => exact Iff.rfl
  | insert id new rows f _ hkey hrows hf =>
    obtain ⟨-, -, rfl⟩ := Row.schema.insert_eq_some_iff.mp hrows
    rw [hf.mem_map rfl, List.mem_append, List.mem_singleton, or_iff_left]
    rintro rfl
    exact ht (congrArg Prod.fst hkey).symm
  | update new rows hkey hrows =>
    obtain ⟨-, rfl⟩ := Row.schema.update_eq_some_iff.mp hrows
    rw [Row.schema.mem_replace_iff]
    constructor
    · rintro (⟨rfl, -⟩ | ⟨hr, -⟩)
      · exact absurd hkey.symm ht
      · exact hr
    · intro hr
      refine Or.inr ⟨hr, fun heq => ht ?_⟩
      exact hkey.symm.trans (congrArg Prod.fst heq).symm
  | delete id =>
    rw [mem_delete_iff hs rfl, and_iff_left]
    rintro (hkey | hrefers | ⟨q, -, -, hrefers⟩)
    · exact ht (congrArg Prod.fst hkey).symm
    · cases hrefers
    · cases hrefers

theorem Keeps.of_other (h : Keeps ts dates s m) {table : Table} {answer : ContactAnswer}
    (hchange : TableChange s table s' answer) (ht : table ≠ .tPerson) : Keeps ts dates s' m where
  consistent := hchange.consistent h.consistent
  ids := hchange.ids h.ids
  built r hr := h.built r ((hchange.mem_person h.consistent ht r).mp hr)
  lastId := (hchange.lastId_of_ne ht.symm).trans h.lastId
  find id q := by
    rw [h.find]
    simp only [hchange.mem_person h.consistent ht]

/-- What is admitted to the register is what the row that is built reads back as. -/
theorem Keeps.admitted_eq (h : Keeps ts dates s m) {p : PersonDTO} {id : ℤ}
    {r : PersonRecord V D} (hr : PersonDAO.row ts dates p id = some r)
    (haccepts : Row.schema.Accepts s.rows (Row.person r)) :
    m.admitted dates p id = some (PersonDAO.dto dates r) := by
  unfold PersonRegister.admitted
  rw [← map_dto_row ts, hr, Option.map_some]
  exact Option.filter_some_pos (by simpa using (h.accepts_iff hr).mp haccepts)

theorem Keeps.admitted_eq_none (h : Keeps ts dates s m) {p : PersonDTO} {id : ℤ}
    (hrefused : ∀ r, PersonDAO.row ts dates p id = some r →
      ¬ Row.schema.Accepts s.rows (Row.person r)) : m.admitted dates p id = none := by
  unfold PersonRegister.admitted
  rw [← map_dto_row ts]
  cases hr : PersonDAO.row ts dates p id with
  | none => rfl
  | some r =>
    have htaken := not_not.mp (mt (h.accepts_iff hr).mpr (hrefused r hr))
    rw [Option.map_some, Option.filter_eq_none_iff]
    rintro q ⟨⟩
    simpa using htaken

theorem Keeps.key_nextId (h : Keeps ts dates s m) (table : Table) (fate : Fate) :
    (table, (s.nextId table fate : ℤ)) ∉ s.rows.map Row.key := by
  intro hkey
  have hle := h.ids _ hkey
  unfold ContactTables.nextId at hle
  push_cast at hle
  omega

/-- The person that is stored under an id, and the others. -/
theorem Keeps.find_update_iff (h : Keeps ts dates s m) {r : PersonRecord V D} {j : ℤ}
    {q : PersonDTO} :
    Function.update m.find r.id (some (PersonDAO.dto dates r)) j = some q ↔
      (j = r.id ∧ PersonDAO.dto dates r = q) ∨
        ∃ x, Row.person x ∈ s.rows ∧ x.id ≠ r.id ∧ x.id = j ∧ PersonDAO.dto dates x = q := by
  by_cases hj : j = r.id
  · subst hj
    rw [Function.update_self, Option.some.injEq]
    constructor
    · intro hq
      exact Or.inl ⟨rfl, hq⟩
    · rintro (⟨-, hq⟩ | ⟨x, -, hne, heq, -⟩)
      · exact hq
      · exact absurd heq hne
  · rw [Function.update_of_ne hj, h.find]
    constructor
    · rintro ⟨x, hx, rfl, hq⟩
      exact Or.inr ⟨x, hx, hj, rfl, hq⟩
    · rintro (⟨heq, -⟩ | ⟨x, hx, -, heq, hq⟩)
      · exact absurd heq hj
      · exact ⟨x, hx, heq, hq⟩

theorem Keeps.insert (h : Keeps ts dates s m) (p : PersonDTO) (fate : Fate) :
    Keeps ts dates (PersonDAO.insert ts dates s p fate).1 (m.insert dates p fate).1 ∧
      (PersonDAO.insert ts dates s p fate).2 = (m.insert dates p fate).2 := by
  have hchange := contactSystem_change ts dates s (.insertPerson p) fate
  have hid : m.lastId + fate.skipped + 1 = s.nextId .tPerson fate := by
    rw [ContactTables.nextId, h.lastId]
  rcases s.insertRow_cases .tPerson (fun id => (PersonDAO.row ts dates p id).map .person) id fate
    with ⟨new, rows, hfate, hnew, hrows, heq⟩ | ⟨hrefused, heq⟩
  · obtain ⟨r, hr, rfl⟩ := Option.map_eq_some_iff.mp hnew
    obtain ⟨hkey, haccepts, rfl⟩ := Row.schema.insert_eq_some_iff.mp hrows
    have hrid : r.id = s.nextId .tPerson fate := ((PersonDAO.row_eq_some_iff ts dates).mp hr).1
    have hregister : m.insert dates p fate =
        (⟨Function.update m.find r.id (some (PersonDAO.dto dates r)), s.nextId .tPerson fate⟩,
          .inserted (s.nextId .tPerson fate)) := by
      unfold PersonRegister.insert
      simp [hid, hfate, h.admitted_eq hr haccepts, hrid]
    have hmem : ∀ x, Row.person x ∈ s.rows ++ [Row.person r] ↔ Row.person x ∈ s.rows ∨ x = r := by
      simp
    have hold : ∀ x, Row.person x ∈ s.rows → x.id ≠ r.id := by
      intro x hx heq
      exact hkey (List.mem_map.mpr ⟨_, hx, congrArg (Prod.mk Table.tPerson) heq⟩)
    rw [show (contactSystem ts dates).step s (.insertPerson p, fate) = _ from heq] at hchange
    rw [hregister, show PersonDAO.insert ts dates s p fate = _ from heq]
    refine ⟨⟨hchange.consistent h.consistent, hchange.ids h.ids, ?_, ?_, ?_⟩, rfl⟩
    · intro x hx
      rcases (hmem x).mp hx with hx | rfl
      · exact h.built x hx
      · exact ⟨p, hrid ▸ hr⟩
    · show Function.update s.lastId .tPerson _ .tPerson = _
      exact Function.update_self _ _ _
    · intro j q
      rw [h.find_update_iff]
      constructor
      · rintro (⟨rfl, hq⟩ | ⟨x, hx, -, hj, hq⟩)
        · exact ⟨r, (hmem r).mpr (Or.inr rfl), rfl, hq⟩
        · exact ⟨x, (hmem x).mpr (Or.inl hx), hj, hq⟩
      · rintro ⟨x, hx, hj, hq⟩
        rcases (hmem x).mp hx with hx | rfl
        · exact Or.inr ⟨x, hx, hold x hx, hj, hq⟩
        · exact Or.inl ⟨hj.symm, hq⟩
  · have hnone : (if fate.refused then none else m.admitted dates p (s.nextId .tPerson fate)) =
        none := by
      cases hfate : fate.refused with
      | true => rfl
      | false =>
        have hnew := hrefused.resolve_left (by simp [hfate])
        refine h.admitted_eq_none fun r hr haccepts => ?_
        have hrows := hnew (.person r) (by rw [hr]; rfl)
        have hrid : r.id = s.nextId .tPerson fate :=
          ((PersonDAO.row_eq_some_iff ts dates).mp hr).1
        have hkey : (Row.person r : Row V D).key ∉ s.rows.map Row.key := by
          rw [show (Row.person r : Row V D).key = (Table.tPerson, (s.nextId .tPerson fate : ℤ))
            from congrArg (Prod.mk _) hrid]
          exact h.key_nextId _ _
        have hsome : Row.schema.insert s.rows (.person r) = some _ :=
          Row.schema.insert_eq_some_iff.mpr ⟨hkey, haccepts, rfl⟩
        rw [hrows] at hsome
        cases hsome
    have hregister : m.insert dates p fate = (m, .threw) := by
      unfold PersonRegister.insert
      simp only [hid, hnone]
    rw [hregister, show PersonDAO.insert ts dates s p fate = _ from heq]
    exact ⟨h, rfl⟩

theorem Keeps.update (h : Keeps ts dates s m) (p : PersonDTO) (fate : Fate) :
    Keeps ts dates (PersonDAO.update ts dates s p fate).1 (m.update dates p fate).1 ∧
      (PersonDAO.update ts dates s p fate).2 = (m.update dates p fate).2 := by
  have hchange := contactSystem_change ts dates s (.updatePerson p) fate
  rcases s.updateRow_cases (.tPerson, p.id)
      (fun _ => (PersonDAO.row ts dates p p.id).map .person) fate with
    ⟨old, new, rows, hfate, hold, hnew, hrows, heq⟩ | ⟨hfate, hnone, heq⟩ | ⟨hrefused, heq⟩
  · obtain ⟨r, hr, rfl⟩ := Option.map_eq_some_iff.mp hnew
    obtain ⟨haccepts, rfl⟩ := Row.schema.update_eq_some_iff.mp hrows
    have hrid : r.id = p.id := ((PersonDAO.row_eq_some_iff ts dates).mp hr).1
    have hkeyEq : (Row.person r : Row V D).key = (Table.tPerson, p.id) :=
      congrArg (Prod.mk _) hrid
    have hkey : (Row.person r : Row V D).key ∈ s.rows.map Row.key := by
      have hfound := List.find?_some hold
      rw [hkeyEq]
      exact List.mem_map.mpr ⟨old, List.mem_of_find?_eq_some hold, of_decide_eq_true hfound⟩
    have hfind : m.find p.id ≠ none := by
      rw [Ne, h.find_eq_none_iff, ← hkeyEq]
      exact not_not.mpr hkey
    have hregister : m.update dates p fate =
        ({ m with find := Function.update m.find r.id (some (PersonDAO.dto dates r)) },
          .found true) := by
      unfold PersonRegister.update
      simp [hfate, hfind, h.admitted_eq hr haccepts, hrid]
    have hmem : ∀ x, Row.person x ∈ Row.schema.replace s.rows (Row.person r) ↔
        x = r ∨ (Row.person x ∈ s.rows ∧ x.id ≠ r.id) := by
      intro x
      rw [Row.schema.mem_replace_iff]
      constructor
      · rintro (⟨heq, -⟩ | ⟨hx, hne⟩)
        · exact Or.inl (Row.person.inj heq)
        · exact Or.inr ⟨hx, fun heq => hne (congrArg (Prod.mk Table.tPerson) heq)⟩
      · rintro (rfl | ⟨hx, hne⟩)
        · exact Or.inl ⟨rfl, hkey⟩
        · exact Or.inr ⟨hx, fun heq => hne (congrArg Prod.snd heq)⟩
    rw [show (contactSystem ts dates).step s (.updatePerson p, fate) = _ from heq] at hchange
    rw [hregister, show PersonDAO.update ts dates s p fate = _ from heq]
    refine ⟨⟨hchange.consistent h.consistent, hchange.ids h.ids, ?_, h.lastId, ?_⟩, rfl⟩
    · intro x hx
      rcases (hmem x).mp hx with rfl | ⟨hx, -⟩
      · exact ⟨p, hrid ▸ hr⟩
      · exact h.built x hx
    · intro j q
      rw [h.find_update_iff]
      constructor
      · rintro (⟨rfl, hq⟩ | ⟨x, hx, hne, hj, hq⟩)
        · exact ⟨r, (hmem r).mpr (Or.inl rfl), rfl, hq⟩
        · exact ⟨x, (hmem x).mpr (Or.inr ⟨hx, hne⟩), hj, hq⟩
      · rintro ⟨x, hx, hj, hq⟩
        rcases (hmem x).mp hx with rfl | ⟨hx, hne⟩
        · exact Or.inl ⟨hj.symm, hq⟩
        · exact Or.inr ⟨x, hx, hne, hj, hq⟩
  · have hfind : m.find p.id = none := by
      rw [h.find_eq_none_iff]
      intro hkey
      obtain ⟨r, hr, hrkey⟩ := List.mem_map.mp hkey
      exact hnone r hr hrkey
    have hregister : m.update dates p fate = (m, .found false) := by
      simp [PersonRegister.update, hfate, hfind]
    rw [hregister, show PersonDAO.update ts dates s p fate = _ from heq]
    exact ⟨h, rfl⟩
  · have hregister : m.update dates p fate = (m, .threw) := by
      cases hfate : fate.refused with
      | true => simp [PersonRegister.update, hfate]
      | false =>
        obtain ⟨old, hmem, hold, hnew⟩ := hrefused.resolve_left (by simp [hfate])
        have hfound := List.find?_some hold
        have hfind : m.find p.id ≠ none := by
          rw [Ne, h.find_eq_none_iff]
          exact not_not.mpr (List.mem_map.mpr ⟨old, hmem, of_decide_eq_true hfound⟩)
        have hnone : m.admitted dates p p.id = none := by
          refine h.admitted_eq_none fun r hr haccepts => ?_
          have hrows := hnew (.person r) (by rw [hr]; rfl)
          have hsome := Row.schema.update_eq_some_iff.mpr ⟨haccepts, rfl⟩
          rw [hrows] at hsome
          cases hsome
        simp [PersonRegister.update, hfate, hfind, hnone]
    rw [hregister, show PersonDAO.update ts dates s p fate = _ from heq]
    exact ⟨h, rfl⟩

/-- No person goes with another. -/
theorem mem_person_delete {rows : List (Row V D)} (hrows : Row.schema.Consistent rows)
    {r : PersonRecord V D} {id : ℤ} :
    Row.person r ∈ Row.schema.delete rows (.tPerson, id) ↔ Row.person r ∈ rows ∧ r.id ≠ id := by
  rw [mem_delete_iff hrows rfl]
  refine and_congr_right fun _ => ?_
  constructor
  · intro hkept hid
    exact hkept (Or.inl (congrArg (Prod.mk Table.tPerson) hid))
  · rintro hne (hkey | hrefers | ⟨q, -, -, hrefers⟩)
    · exact hne (congrArg Prod.snd hkey)
    · cases hrefers
    · cases hrefers

theorem Keeps.remove (h : Keeps ts dates s m) (id : ℤ) (fate : Fate) :
    Keeps ts dates (PersonDAO.remove s id fate).1 (m.remove id fate).1 ∧
      (PersonDAO.remove s id fate).2 = (m.remove id fate).2 := by
  have hchange := contactSystem_change ts dates s (.removePerson id) fate
  rcases s.removeRow_cases (.tPerson, id) fate with ⟨hfate, heq⟩ | ⟨hfate, heq⟩
  · have hmem : ∀ x, Row.person x ∈ Row.schema.delete s.rows (.tPerson, id) ↔
        Row.person x ∈ s.rows ∧ x.id ≠ id := fun _ => mem_person_delete h.consistent
    have hanswer : (s.rows.any fun r => r.key = (.tPerson, id)) = (m.find id).isSome := by
      rw [Bool.eq_iff_iff, Option.isSome_iff_ne_none, Ne, h.find_eq_none_iff, not_not]
      simp
    have hregister : m.remove id fate =
        ({ m with find := Function.update m.find id none },
          .found (s.rows.any fun r => r.key = (.tPerson, id))) := by
      simp [PersonRegister.remove, hfate, hanswer]
    rw [show (contactSystem ts dates).step s (.removePerson id, fate) = _ from heq] at hchange
    rw [hregister, show PersonDAO.remove s id fate = _ from heq]
    refine ⟨⟨hchange.consistent h.consistent, hchange.ids h.ids, ?_, h.lastId, ?_⟩, rfl⟩
    · intro x hx
      exact h.built x ((hmem x).mp hx).1
    · intro j q
      dsimp only
      by_cases hj : j = id
      · subst hj
        rw [Function.update_self]
        constructor
        · intro hnone
          cases hnone
        · rintro ⟨x, hx, hxj, -⟩
          exact absurd hxj ((hmem x).mp hx).2
      · rw [Function.update_of_ne hj, h.find]
        constructor
        · rintro ⟨x, hx, rfl, hq⟩
          exact ⟨x, (hmem x).mpr ⟨hx, hj⟩, rfl, hq⟩
        · rintro ⟨x, hx, hxj, hq⟩
          exact ⟨x, ((hmem x).mp hx).1, hxj, hq⟩
  · have hregister : m.remove id fate = (m, .threw) := by
      simp [PersonRegister.remove, hfate]
    rw [hregister, show PersonDAO.remove s id fate = _ from heq]
    exact ⟨h, rfl⟩

end Tables

/-! ## Every run -/

section Runs

variable (ts : TextSearch V) (dates : DateText D)

theorem keeps_installed : Keeps ts dates .installed .empty where
  consistent := Row.schema.consistent_nil
  ids := fun k hk => by cases hk
  built := fun r hr => by cases hr
  lastId := rfl
  find := by simp [PersonRegister.empty, ContactTables.installed]

/-- What a caller of `PersonDAO` sees of an answer. -/
def personAnswer (call : DaoCall D × Fate) (answer : ContactAnswer) : Option ContactAnswer :=
  if DaoCall.table call.1 = .tPerson then some answer else none

/-- **One call.** -/
theorem Keeps.step {s : ContactTables V D} {m : PersonRegister} (h : Keeps ts dates s m)
    (call : DaoCall D × Fate) :
    Keeps ts dates ((contactSystem ts dates).step s call).1
        ((PersonRegister.machine dates).step m call).1 ∧
      personAnswer call ((contactSystem ts dates).step s call).2 =
        ((PersonRegister.machine dates).step m call).2 := by
  obtain ⟨call, fate⟩ := call
  have hother := fun ht => h.of_other (contactSystem_change ts dates s call fate) ht
  cases call with
  | insertPerson p =>
    obtain ⟨hkeeps, hanswer⟩ := h.insert p fate
    exact ⟨hkeeps, congrArg some hanswer⟩
  | updatePerson p =>
    obtain ⟨hkeeps, hanswer⟩ := h.update p fate
    exact ⟨hkeeps, congrArg some hanswer⟩
  | removePerson id =>
    obtain ⟨hkeeps, hanswer⟩ := h.remove id fate
    exact ⟨hkeeps, congrArg some hanswer⟩
  | _ => exact ⟨hother (by simp [DaoCall.table]), rfl⟩

theorem keeps_run (calls : List (DaoCall D × Fate)) :
    List.zipWith personAnswer calls ((contactSystem ts dates).outputs .installed calls) =
        (PersonRegister.machine dates).outputs .empty calls ∧
      Keeps ts dates (reached ts dates calls) ((PersonRegister.machine dates).run .empty calls) :=
  (contactSystem ts dates).outputs_eq_of_related (PersonRegister.machine dates) personAnswer
    (Keeps ts dates) (fun _ _ call h => h.step ts dates call) _ _ calls (keeps_installed ts dates)

/-- **`PersonDAO` is a register of persons.**  After any calls of all DAO classes, its inserts,
updates and removes have been answered as by the register, and `find_by_id` finds under every id
what the register holds. -/
theorem personDAO_refines_register (calls : List (DaoCall D × Fate)) :
    List.zipWith personAnswer calls ((contactSystem ts dates).outputs .installed calls) =
        (PersonRegister.machine dates).outputs .empty calls ∧
      ∀ id, PersonDAO.findById dates (reached ts dates calls) id =
        ((PersonRegister.machine dates).run .empty calls).find id := by
  obtain ⟨hanswers, hkeeps⟩ := keeps_run ts dates calls
  exact ⟨hanswers, hkeeps.findById⟩

/-! ## Saving what was read -/

variable {ts dates}

theorem nullable_of_stored {α : Type} {assign : SqlText → Option α} {out : α → SqlText}
    (hout : ∀ text a, text ≠ [] → assign text = some a → out a ≠ [] ∧ assign (out a) = some a)
    {text : SqlText} {stored : Option α} (h : nullable assign text = some stored) :
    nullable assign ((stored.map out).getD []) = some stored := by
  rcases nullable_eq_some_iff.mp h with ⟨-, rfl⟩ | ⟨htext, a, ha, rfl⟩
  · exact nullable_eq_some_iff.mpr (Or.inl ⟨rfl, rfl⟩)
  · obtain ⟨hne, hassign⟩ := hout text a htext ha
    exact nullable_eq_some_iff.mpr (Or.inr ⟨hne, a, hassign, rfl⟩)

theorem nullable_varchar_of_stored {n : ℕ} (hn : 0 < n) {text : SqlText}
    {stored : Option SqlText} (h : nullable (varchar n) text = some stored) :
    nullable (varchar n) (stored.getD []) = some stored := by
  have hne := ne_nil_of_nullable hn h
  rcases nullable_eq_some_iff.mp h with ⟨-, rfl⟩ | ⟨-, a, ha, rfl⟩
  · exact nullable_eq_some_iff.mpr (Or.inl ⟨rfl, rfl⟩)
  · refine nullable_eq_some_iff.mpr (Or.inr ⟨fun hnil => hne (congrArg some hnil), a, ?_, rfl⟩)
    exact varchar_of_length_le (length_varchar ha)

theorem nullIfEmpty_of_stored (text : SqlText) :
    nullIfEmpty ((nullIfEmpty text).getD []) = nullIfEmpty text := by
  rw [nullIfEmpty_getD]

/-- **A row that is built is built again from what it reads back as.** -/
theorem row_dto {p : PersonDTO} {id : ℤ} {r : PersonRecord V D}
    (h : PersonDAO.row ts dates p id = some r) :
    PersonDAO.row ts dates (PersonDAO.dto dates r) r.id = some r := by
  obtain ⟨-, hfirst, hmiddle, hlast, htax, hident, hpassport, hcountry, hexpiry, hbirth, hkeywords,
    hvector⟩ := (PersonDAO.row_eq_some_iff ts dates).mp h
  have hdate : ∀ (text : SqlText) (d : D), text ≠ [] → dates.dateIn text = some d →
      dates.dateOut d ≠ [] ∧ dates.dateIn (dates.dateOut d) = some d :=
    fun _ d _ _ => ⟨dates.dateOut_ne_nil d, dates.dateIn_dateOut d⟩
  have hchar : ∀ text a : SqlText, text ≠ [] → char 2 text = some a →
      a ≠ [] ∧ char 2 a = some a := by
    intro text a _ ha
    have hlength := length_char ha
    refine ⟨?_, char_of_length_eq hlength⟩
    rintro rfl
    cases hlength
  refine (PersonDAO.row_eq_some_iff ts dates).mpr ⟨rfl, varchar_of_length_le (length_varchar hfirst),
    nullable_varchar_of_stored (by norm_num) hmiddle, varchar_of_length_le (length_varchar hlast),
    nullable_varchar_of_stored (by norm_num) htax,
    nullable_varchar_of_stored (by norm_num) hident,
    nullable_varchar_of_stored (by norm_num) hpassport, ?_, nullable_of_stored hdate hexpiry,
    nullable_of_stored hdate hbirth, ?_, hvector⟩
  · show nullable (char 2) (r.passportCountry.getD []) = some r.passportCountry
    simpa using nullable_of_stored hchar hcountry
  · show nullIfEmpty (r.keywords.getD []) = r.keywords
    rw [← hkeywords, nullIfEmpty_of_stored]

/-- **Saving a person as it was read** changes nothing, in no table, after any calls. -/
theorem update_unmodified (ts : TextSearch V) (dates : DateText D)
    (calls : List (DaoCall D × Fate)) {id : ℤ} {p : PersonDTO}
    (hp : PersonDAO.findById dates (reached ts dates calls) id = some p) (skipped : ℕ) :
    PersonDAO.update ts dates (reached ts dates calls) p ⟨skipped, false⟩ =
      (reached ts dates calls, .found true) := by
  obtain ⟨-, hkeeps⟩ := keeps_run ts dates calls
  rw [hkeeps.findById, hkeeps.find] at hp
  obtain ⟨r, hr, rfl, rfl⟩ := hp
  obtain ⟨p₀, hp₀⟩ := hkeeps.built r hr
  have hrow := row_dto hp₀
  rcases (reached ts dates calls).updateRow_cases (.tPerson, r.id)
      (fun _ => (PersonDAO.row ts dates (PersonDAO.dto dates r) r.id).map .person)
      ⟨skipped, false⟩ with
    ⟨old, new, rows, -, -, hnew, hrows, heq⟩ | ⟨-, hnone, -⟩ | ⟨hrefused, -⟩
  · rw [hrow] at hnew
    cases hnew
    rw [Row.schema.update_self hkeeps.consistent hr] at hrows
    cases hrows
    exact heq
  · exact absurd rfl (hnone _ hr)
  · obtain ⟨old, -, -, hnew⟩ := hrefused.resolve_left (by simp)
    have hrows := hnew (.person r) (by rw [hrow]; rfl)
    rw [Row.schema.update_self hkeeps.consistent hr] at hrows
    cases hrows

end Runs

/-! ## A person without dates -/

/-- Vectors that are the texts themselves. -/
def plainSearch : TextSearch SqlText where
  toTsvector text := text
  setweight vector _ := vector
  concat v w := v ++ w

/-- Dates that are kept as they are written. -/
def writtenDates : DateText {text : SqlText // text ≠ []} where
  dateIn text := if h : text = [] then none else some ⟨text, h⟩
  dateOut d := d.val
  dateIn_dateOut d := by simp [d.property]
  dateOut_ne_nil d := d.property

def ana : PersonDTO := { firstName := "Ana".toList, lastName := "Lima".toList }

theorem findById_ana :
    PersonDAO.findById writtenDates (reached plainSearch writtenDates [(.insertPerson ana, {})]) 1 =
      some { ana with id := 1 } := by
  decide

theorem update_unmodified_ana :
    PersonDAO.update plainSearch writtenDates
        (reached plainSearch writtenDates [(.insertPerson ana, {})]) { ana with id := 1 }
        ⟨0, false⟩ =
      (reached plainSearch writtenDates [(.insertPerson ana, {})], .found true) :=
  update_unmodified plainSearch writtenDates _ findById_ana 0

end Pensar.Analysis
