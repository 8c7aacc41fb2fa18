import Pensar.Computation.Machine
import Pensar.Model.AuditLog

/-!
# The tables of the organisation (`contact/db/contact_ddl.sql`)

`T_Locale`, `T_OrgUnit` and `T_LocalizedOrgUnit`, the constraints declared for them, and the
statements that change one row.  A statement does its work, with the actions of the foreign keys
and the triggers, and is refused if a constraint does not hold afterwards.

`V` is the type `tsvector`, and `TextSearch` what the server has for it.  Texts hold no character
0, which a parameter cannot pass on.  The audit logs are left out: what they keep is not read
here.
-/

set_option autoImplicit false

namespace Pensar.Model

open Pensar.Computation

variable {V : Type}

/-! ## The rows -/

/-- SOURCE: contact/db/contact_ddl.sql:73-77 -/
@[ext] structure Locale where
  id : ℤ
  code : SqlText
  isDefault : Bool
  deriving DecidableEq, Repr

/-- SOURCE: contact/db/contact_ddl.sql:292-301 -/
@[ext] structure OrgUnit (V : Type) where
  id : ℤ
  parentId : Option ℤ
  orgType : SqlText
  federalTaxId : Option SqlText
  isActive : Bool
  keywords : Option SqlText
  searchVector : Option V

/-- SOURCE: contact/db/contact_ddl.sql:310-316 -/
@[ext] structure LocalizedOrgUnit where
  id : ℤ
  orgUnitId : ℤ
  localeId : ℤ
  name : SqlText
  deriving DecidableEq, Repr

/-- The rows of each table, in the order in which a scan meets them. -/
@[ext] structure OrgDatabase (V : Type) where
  tLocale : List Locale
  tOrgUnit : List (OrgUnit V)
  tLocalizedOrgUnit : List LocalizedOrgUnit

/-- `to_tsvector ('simple', _)`, `setweight` and `||`. -/
structure TextSearch (V : Type) where
  toTsvector : SqlText → V
  setweight : V → Char → V
  concat : V → V → V

/-- SOURCE: contact/db/contact_ddl.sql:79-84 -/
def INSTALLED_LOCALES : List Locale :=
  [⟨1, "pt-BR".toList, true⟩, ⟨2, "en-US".toList, false⟩, ⟨3, "es-AR".toList, false⟩,
    ⟨4, "es-MX".toList, false⟩, ⟨5, "fr-FR".toList, false⟩]

/-- The locales that the rows of `T_LocalizedContactQualifier` refer to.
SOURCE: contact/db/contact_ddl.sql:407-410 -/
def QUALIFIER_LOCALES : List ℤ := [1, 2, 3, 4, 5]

/-- SOURCE: contact/db/contact_ddl.sql:296 -/
def ORG_TYPES : List SqlText :=
  ["Group".toList, "Company".toList, "Department".toList, "Division".toList, "Team".toList]

namespace OrgDatabase

/-- The database after the installation. -/
def installed : OrgDatabase V := ⟨INSTALLED_LOCALES, [], []⟩

/-! ## The constraints -/

/-- The primary keys and the unique ones.
SOURCE: contact/db/contact_ddl.sql:74-75, 293, 311, 315 -/
structure Keys (db : OrgDatabase V) : Prop where
  localeId : (db.tLocale.map Locale.id).Nodup
  localeCode : (db.tLocale.map Locale.code).Nodup
  orgUnitId : (db.tOrgUnit.map OrgUnit.id).Nodup
  localizedId : (db.tLocalizedOrgUnit.map LocalizedOrgUnit.id).Nodup
  localized : (db.tLocalizedOrgUnit.map fun loc => (loc.orgUnitId, loc.localeId)).Nodup

/-- The foreign keys.
SOURCE: contact/db/contact_ddl.sql:294, 312-313, 401 -/
structure References (db : OrgDatabase V) : Prop where
  parent : ∀ o ∈ db.tOrgUnit, ∀ p ∈ o.parentId, p ∈ db.tOrgUnit.map OrgUnit.id
  orgUnit : ∀ loc ∈ db.tLocalizedOrgUnit, loc.orgUnitId ∈ db.tOrgUnit.map OrgUnit.id
  locale : ∀ loc ∈ db.tLocalizedOrgUnit, loc.localeId ∈ db.tLocale.map Locale.id
  qualifier : ∀ id ∈ QUALIFIER_LOCALES, id ∈ db.tLocale.map Locale.id

/-- The types and the checks of the columns.
SOURCE: contact/db/contact_ddl.sql:34, 40, 75, 295-297, 314 -/
structure Checks (db : OrgDatabase V) : Prop where
  code : ∀ l ∈ db.tLocale, l.code.length ≤ 10
  orgType : ∀ o ∈ db.tOrgUnit, ORG_TYPES.contains o.orgType
  federalTaxId : ∀ o ∈ db.tOrgUnit, ∀ t ∈ o.federalTaxId, t.length ≤ 20
  name : ∀ loc ∈ db.tLocalizedOrgUnit, loc.name.length ≤ 200

structure Consistent (db : OrgDatabase V) : Prop where
  keys : db.Keys
  references : db.References
  checks : db.Checks

instance (db : OrgDatabase V) : Decidable db.Keys :=
  decidable_of_iff
    ((db.tLocale.map Locale.id).Nodup ∧ (db.tLocale.map Locale.code).Nodup ∧
      (db.tOrgUnit.map OrgUnit.id).Nodup ∧ (db.tLocalizedOrgUnit.map LocalizedOrgUnit.id).Nodup ∧
      (db.tLocalizedOrgUnit.map fun loc => (loc.orgUnitId, loc.localeId)).Nodup)
    ⟨fun ⟨a, b, c, d, e⟩ => ⟨a, b, c, d, e⟩, fun ⟨a, b, c, d, e⟩ => ⟨a, b, c, d, e⟩⟩

instance (db : OrgDatabase V) : Decidable db.References :=
  decidable_of_iff
    ((∀ o ∈ db.tOrgUnit, ∀ p ∈ o.parentId, p ∈ db.tOrgUnit.map OrgUnit.id) ∧
      (∀ loc ∈ db.tLocalizedOrgUnit, loc.orgUnitId ∈ db.tOrgUnit.map OrgUnit.id) ∧
      (∀ loc ∈ db.tLocalizedOrgUnit, loc.localeId ∈ db.tLocale.map Locale.id) ∧
      ∀ id ∈ QUALIFIER_LOCALES, id ∈ db.tLocale.map Locale.id)
    ⟨fun ⟨a, b, c, d⟩ => ⟨a, b, c, d⟩, fun ⟨a, b, c, d⟩ => ⟨a, b, c, d⟩⟩

instance (db : OrgDatabase V) : Decidable db.Checks :=
  decidable_of_iff
    ((∀ l ∈ db.tLocale, l.code.length ≤ 10) ∧
      (∀ o ∈ db.tOrgUnit, ORG_TYPES.contains o.orgType) ∧
      (∀ o ∈ db.tOrgUnit, ∀ t ∈ o.federalTaxId, t.length ≤ 20) ∧
      ∀ loc ∈ db.tLocalizedOrgUnit, loc.name.length ≤ 200)
    ⟨fun ⟨a, b, c, d⟩ => ⟨a, b, c, d⟩, fun ⟨a, b, c, d⟩ => ⟨a, b, c, d⟩⟩

instance (db : OrgDatabase V) : Decidable db.Consistent :=
  decidable_of_iff (db.Keys ∧ db.References ∧ db.Checks)
    ⟨fun ⟨a, b, c⟩ => ⟨a, b, c⟩, fun ⟨a, b, c⟩ => ⟨a, b, c⟩⟩

/-- The end of a statement: it is refused if a constraint does not hold. -/
def checked (db : OrgDatabase V) : Option (OrgDatabase V) :=
  if db.Consistent then some db else none

/-! ## The triggers -/

/-- A locale of that id is the default one. -/
def isDefaultLocale (db : OrgDatabase V) (id : ℤ) : Bool :=
  db.tLocale.any fun l => l.id = id && l.isDefault

/-- The name that `SELECT … INTO v_name` finds.
SOURCE: contact/db/contact_ddl.sql:352-355 -/
def defaultName (db : OrgDatabase V) (unit : ℤ) : Option SqlText :=
  (db.tLocalizedOrgUnit.find? fun loc =>
    loc.orgUnitId = unit && db.isDefaultLocale loc.localeId).map LocalizedOrgUnit.name

variable (ts : TextSearch V)

/-- SOURCE: contact/db/contact_ddl.sql:357-360 -/
def weightedVector (vName federalTaxId keywords : Option SqlText) : V :=
  ts.concat
    (ts.concat (ts.setweight (ts.toTsvector (vName.getD [])) 'A')
      (ts.setweight (ts.toTsvector (federalTaxId.getD [])) 'C'))
    (ts.setweight (ts.toTsvector (keywords.getD [])) 'B')

/-- SOURCE: contact/db/contact_ddl.sql:347-363 -/
def fnOrgunitSearchVector (db : OrgDatabase V) (new : OrgUnit V) : OrgUnit V :=
  { new with
    searchVector :=
      some (weightedVector ts (db.defaultName new.id) new.federalTaxId new.keywords) }

/-- `fn_localized_orgunit_refresh_search` for that unit: the update of `keywords` has the other
trigger run.
SOURCE: contact/db/contact_ddl.sql:365-378 -/
def refreshSearch (db : OrgDatabase V) (unit : ℤ) : OrgDatabase V :=
  { db with
    tOrgUnit := db.tOrgUnit.map fun o => if o.id = unit then db.fnOrgunitSearchVector ts o else o }

end OrgDatabase

/-! ## Statements on one row -/

/-- The columns that an `UPDATE` assigns; `none` stands for a column that is not in its list. -/
structure OrgUnitUpdate (V : Type) where
  id : Option ℤ := none
  parentId : Option (Option ℤ) := none
  orgType : Option SqlText := none
  federalTaxId : Option (Option SqlText) := none
  isActive : Option Bool := none
  keywords : Option (Option SqlText) := none
  searchVector : Option (Option V) := none

namespace OrgUnitUpdate

def assign (set : OrgUnitUpdate V) (o : OrgUnit V) : OrgUnit V where
  id := set.id.getD o.id
  parentId := set.parentId.getD o.parentId
  orgType := set.orgType.getD o.orgType
  federalTaxId := set.federalTaxId.getD o.federalTaxId
  isActive := set.isActive.getD o.isActive
  keywords := set.keywords.getD o.keywords
  searchVector := set.searchVector.getD o.searchVector

/-- `UPDATE OF federal_tax_id, keywords`.
SOURCE: contact/db/contact_ddl.sql:365-368 -/
def firesTrigger (set : OrgUnitUpdate V) : Bool := set.federalTaxId.isSome || set.keywords.isSome

end OrgUnitUpdate

/-- A statement that inserts a row, or changes or deletes the row of an id. -/
inductive OrgStatement (V : Type) where
  | insertLocale (row : Locale)
  | updateLocale (id : ℤ) (row : Locale)
  | deleteLocale (id : ℤ)
  | insertOrgUnit (row : OrgUnit V)
  | updateOrgUnit (id : ℤ) (set : OrgUnitUpdate V)
  | deleteOrgUnit (id : ℤ)
  | insertLocalized (row : LocalizedOrgUnit)
  | updateLocalized (id : ℤ) (row : LocalizedOrgUnit)
  | deleteLocalized (id : ℤ)

namespace OrgDatabase

variable (ts : TextSearch V)

/-- The row after an `UPDATE`; the trigger runs before it is stored. -/
def updatedOrgUnit (db : OrgDatabase V) (set : OrgUnitUpdate V) (o : OrgUnit V) : OrgUnit V :=
  if set.firesTrigger then db.fnOrgunitSearchVector ts (set.assign o) else set.assign o

/-- A statement and what comes with it, before the constraints are checked. -/
def change (db : OrgDatabase V) : OrgStatement V → OrgDatabase V
  | .insertLocale row => { db with tLocale := db.tLocale ++ [row] }
  | .updateLocale id row =>
    { db with tLocale := db.tLocale.map fun l => if l.id = id then row else l }
  | .deleteLocale id => { db with tLocale := db.tLocale.filter fun l => l.id ≠ id }
  | .insertOrgUnit row =>
    { db with tOrgUnit := db.tOrgUnit ++ [db.fnOrgunitSearchVector ts row] }
  | .updateOrgUnit id set =>
    { db with
      tOrgUnit := db.tOrgUnit.map fun o => if o.id = id then db.updatedOrgUnit ts set o else o }
  | .deleteOrgUnit id =>
    -- `ON DELETE SET NULL` for the children, `ON DELETE CASCADE` for the names; the trigger that
    -- these call finds no unit to refresh
    { db with
      tOrgUnit := (db.tOrgUnit.filter fun o => o.id ≠ id).map fun o =>
        if o.parentId = some id then { o with parentId := none } else o
      tLocalizedOrgUnit := db.tLocalizedOrgUnit.filter fun loc => loc.orgUnitId ≠ id }
  | .insertLocalized row =>
    refreshSearch ts { db with tLocalizedOrgUnit := db.tLocalizedOrgUnit ++ [row] } row.orgUnitId
  | .updateLocalized id row =>
    let changed := { db with
      tLocalizedOrgUnit := db.tLocalizedOrgUnit.map fun loc => if loc.id = id then row else loc }
    -- `COALESCE (NEW.org_unit_id, OLD.org_unit_id)` is the new unit
    if db.tLocalizedOrgUnit.any fun loc => loc.id = id then
      refreshSearch ts changed row.orgUnitId
    else
      changed
  | .deleteLocalized id =>
    let changed := { db with
      tLocalizedOrgUnit := db.tLocalizedOrgUnit.filter fun loc => loc.id ≠ id }
    match db.tLocalizedOrgUnit.find? fun loc => loc.id = id with
    | some old => refreshSearch ts changed old.orgUnitId
    | none => changed

/-- `none`: the statement is refused. -/
def execute (db : OrgDatabase V) (statement : OrgStatement V) : Option (OrgDatabase V) :=
  (db.change ts statement).checked

/-- The database server, one statement after another; the answer is whether it was executed. -/
def server : Machine (OrgDatabase V) (OrgStatement V) Bool where
  step db statement :=
    match db.execute ts statement with
    | some db' => (db', true)
    | none => (db, false)

theorem checked_eq_some_iff {db db' : OrgDatabase V} :
    db.checked = some db' ↔ db.Consistent ∧ db = db' := by
  unfold checked
  split <;> simp_all

theorem installed_consistent : (installed : OrgDatabase V).Consistent where
  keys :=
    { localeId := (by decide : (INSTALLED_LOCALES.map Locale.id).Nodup)
      localeCode := (by decide : (INSTALLED_LOCALES.map Locale.code).Nodup)
      orgUnitId := List.nodup_nil
      localizedId := List.nodup_nil
      localized := List.nodup_nil }
  references := by constructor <;> simp [installed, QUALIFIER_LOCALES, INSTALLED_LOCALES]
  checks := by constructor <;> simp [installed, INSTALLED_LOCALES]

theorem server_step_consistent (db : OrgDatabase V) (statement : OrgStatement V)
    (hdb : db.Consistent) : ((server ts).step db statement).1.Consistent := by
  unfold server
  cases h : db.execute ts statement with
  | none => simpa [h] using hdb
  | some db' =>
    obtain ⟨hdb', rfl⟩ := checked_eq_some_iff.mp h
    simpa [h] using hdb'

/-- The constraints hold after any statements. -/
theorem server_run_consistent (db : OrgDatabase V) (statements : List (OrgStatement V))
    (hdb : db.Consistent) : ((server ts).run db statements).Consistent :=
  (server ts).run_invariant Consistent (server_step_consistent ts) db statements hdb

end OrgDatabase

end Pensar.Model
