import Pensar.Model.ContactSchema

/-!
# Statements of the DAO classes

A call that changes the tables sends one statement: it inserts the row that it builds, updates
the row of an id, or deletes it.  The id of a new row comes from the sequence of the table.  If
the statement is refused the call throws, and the tables are as before.

The triggers compute the search vectors.  As in `OrgDAO`, a statement can fail for a reason outside
these tables, and ids can be skipped: that is the `Fate` of a call.  Whether an update of a row that
is not there is refused for its values depends on when the server looks at them; this is part of
its fate, too.
-/

set_option autoImplicit false

namespace Pensar.Model

open Pensar.Computation

variable {V D : Type}

/-- The rows of all tables, and the last id that the sequence of each has handed out. -/
structure ContactTables (V D : Type) where
  rows : List (Row V D)
  lastId : Table → ℕ

namespace Row

def person? : Row V D → Option (PersonRecord V D)
  | person r => some r
  | _ => none

def orgUnit? : Row V D → Option (OrgUnit V)
  | orgUnit r => some r
  | _ => none

def localizedOrgUnit? : Row V D → Option LocalizedOrgUnit
  | localizedOrgUnit r => some r
  | _ => none

def phone? : Row V D → Option PhoneRow
  | phone r => some r
  | _ => none

def email? : Row V D → Option EmailRow
  | email r => some r
  | _ => none

def address? : Row V D → Option AddressRow
  | address r => some r
  | _ => none

def role? : Row V D → Option RoleRow
  | role r => some r
  | _ => none

def personOrgRelation? : Row V D → Option (RelationRow D)
  | personOrgRelation r => some r
  | _ => none

def personRole? : Row V D → Option (PersonRoleRow D)
  | personRole r => some r
  | _ => none

def dataVisibility? : Row V D → Option DataVisibility
  | dataVisibility r => some r
  | _ => none

/-- The rows of one table, in the order in which a scan meets them. -/
def select {α : Type} (table : Row V D → Option α) (rows : List (Row V D)) : List α :=
  rows.filterMap table

/-- The tables of the organisation. -/
def orgDatabase (rows : List (Row V D)) : OrgDatabase V where
  tLocale := INSTALLED_LOCALES
  tOrgUnit := select orgUnit? rows
  tLocalizedOrgUnit := select localizedOrgUnit? rows

/-- `fn_localized_orgunit_refresh_search` for that unit: the update of `keywords` has the trigger
on `T_OrgUnit` run.
SOURCE: contact/db/contact_ddl.sql:365-378 -/
def refreshSearch (ts : TextSearch V) (unit : ℤ) (rows : List (Row V D)) : List (Row V D) :=
  rows.map fun
    | orgUnit o =>
      orgUnit (if o.id = unit then (orgDatabase rows).fnOrgunitSearchVector ts o else o)
    | r => r

end Row

namespace ContactTables

/-- After the installation. -/
def installed : ContactTables V D := ⟨[], fun _ => 0⟩

/-- The id that the sequence of the table hands out next. -/
def nextId (s : ContactTables V D) (table : Table) (fate : Fate) : ℕ :=
  s.lastId table + fate.skipped + 1

/-- The row that `build` makes for the next id is inserted; the triggers that run after that are
`after`. -/
def insertRow (s : ContactTables V D) (table : Table) (build : ℤ → Option (Row V D))
    (after : List (Row V D) → List (Row V D)) (fate : Fate) :
    ContactTables V D × ContactAnswer :=
  let id := s.nextId table fate
  match if fate.refused then none else (build id).bind (Row.schema.insert s.rows) with
  | some rows =>
    (⟨after rows, Function.update s.lastId table id⟩, .inserted id)
  | none => (s, .threw)

/-- `UPDATE … WHERE id = …`: `change` makes the new row of the old one. -/
def updateRow (s : ContactTables V D) (key : RowKey) (change : Row V D → Option (Row V D))
    (fate : Fate) : ContactTables V D × ContactAnswer :=
  if fate.refused then (s, .threw)
  else
    match s.rows.find? fun r => r.key = key with
    | none => (s, .found false)
    | some old =>
      match (change old).bind (Row.schema.update s.rows) with
      | some rows => ({ s with rows }, .found true)
      | none => (s, .threw)

/-- `DELETE … WHERE id = …`. -/
def removeRow (s : ContactTables V D) (key : RowKey) (fate : Fate) :
    ContactTables V D × ContactAnswer :=
  if fate.refused then (s, .threw)
  else ({ s with rows := Row.schema.delete s.rows key }, .found (s.rows.any fun r => r.key = key))

/-! ## What the statements do -/

theorem insertRow_cases (s : ContactTables V D) (table : Table) (build : ℤ → Option (Row V D))
    (after : List (Row V D) → List (Row V D)) (fate : Fate) :
    (∃ new rows, fate.refused = false ∧ build (s.nextId table fate) = some new ∧
      Row.schema.insert s.rows new = some rows ∧
      s.insertRow table build after fate =
        (⟨after rows, Function.update s.lastId table (s.nextId table fate)⟩,
          .inserted (s.nextId table fate))) ∨
    ((fate.refused = true ∨ ∀ new, build (s.nextId table fate) = some new →
      Row.schema.insert s.rows new = none) ∧
      s.insertRow table build after fate = (s, .threw)) := by
  unfold insertRow
  cases hrefused : fate.refused with
  | true => exact Or.inr ⟨Or.inl rfl, rfl⟩
  | false =>
    cases hnew : build (s.nextId table fate) with
    | none => exact Or.inr ⟨Or.inr (fun _ h => nomatch h), by simp [hnew]⟩
    | some new =>
      cases hrows : Row.schema.insert s.rows new with
      | none =>
        refine Or.inr ⟨Or.inr ?_, by simp [hnew, hrows]⟩
        rintro _ ⟨⟩
        exact hrows
      | some rows => exact Or.inl ⟨new, rows, rfl, rfl, hrows, by simp [hnew, hrows]⟩

theorem updateRow_cases (s : ContactTables V D) (key : RowKey)
    (change : Row V D → Option (Row V D)) (fate : Fate) :
    (∃ old new rows, fate.refused = false ∧ s.rows.find? (fun r => r.key = key) = some old ∧
      change old = some new ∧ Row.schema.update s.rows new = some rows ∧
      s.updateRow key change fate = ({ s with rows }, .found true)) ∨
    (fate.refused = false ∧ (∀ r ∈ s.rows, r.key ≠ key) ∧
      s.updateRow key change fate = (s, .found false)) ∨
    ((fate.refused = true ∨ ∃ old ∈ s.rows, s.rows.find? (fun r => r.key = key) = some old ∧
      ∀ new, change old = some new → Row.schema.update s.rows new = none) ∧
      s.updateRow key change fate = (s, .threw)) := by
  unfold updateRow
  cases hrefused : fate.refused with
  | true => exact Or.inr (Or.inr ⟨Or.inl rfl, rfl⟩)
  | false =>
    cases hold : s.rows.find? fun r => r.key = key with
    | none =>
      refine Or.inr (Or.inl ⟨rfl, ?_, rfl⟩)
      simpa using hold
    | some old =>
      cases hnew : change old with
      | none =>
        refine Or.inr (Or.inr ⟨Or.inr ⟨old, List.mem_of_find?_eq_some hold, rfl, ?_⟩, ?_⟩)
        · simp [hnew]
        · simp [hnew]
      | some new =>
        cases hrows : Row.schema.update s.rows new with
        | none =>
          refine Or.inr (Or.inr ⟨Or.inr ⟨old, List.mem_of_find?_eq_some hold, rfl, ?_⟩, ?_⟩)
          · rw [hnew]
            rintro _ ⟨⟩
            exact hrows
          · simp [hnew, hrows]
        | some rows =>
          exact Or.inl ⟨old, new, rows, rfl, rfl, hnew, hrows, by simp [hnew, hrows]⟩

theorem removeRow_cases (s : ContactTables V D) (key : RowKey) (fate : Fate) :
    (fate.refused = false ∧ s.removeRow key fate =
      ({ s with rows := Row.schema.delete s.rows key },
        .found (s.rows.any fun r => r.key = key))) ∨
    (fate.refused = true ∧ s.removeRow key fate = (s, .threw)) := by
  unfold removeRow
  cases fate.refused with
  | true => exact Or.inr ⟨rfl, rfl⟩
  | false => exact Or.inl ⟨rfl, rfl⟩

end ContactTables

end Pensar.Model
