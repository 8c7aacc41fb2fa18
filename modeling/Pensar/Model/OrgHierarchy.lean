import Pensar.Computation.OrderBy
import Pensar.Computation.RecursiveQuery
import Pensar.Model.OrgDatabase

/-!
# The hierarchy of the organisation (`contact/db/contact_ddl.sql`, `contact/data/org_dao.hpp`)

`fn_org_hierarchy` evaluates a recursive query for a locale.  The same query stands in a
materialized view for each locale that there was at the installation; `fn_refresh_locale_mvs`
refreshes the views, and `fn_mv_org_hierarchy` reads one.  Both functions make the name of the
view from the code of a locale.  A code has at most ten characters, so that no name is cut off.

`RETURN QUERY` compares the types of the columns with the declared ones.  Which types the server
takes for which is its rule, `ReturnRule`.  Rounds of the recursion are counted down; `none` is
the value of a call that fails or has none left.
-/

set_option autoImplicit false

namespace Pensar.Model

open Pensar.Computation

variable {V : Type}

/-! ## Types of columns -/

inductive SqlType where
  | int
  | bigint
  | bigintArray
  | dEntityId
  | dLongName
  | dOrgType
  | dKeywords
  deriving DecidableEq, Repr

/-- Which types of a query's columns the server takes for a declared type: at least that type. -/
structure ReturnRule where
  accepts : (declared actual : SqlType) → Bool
  same : ∀ t, accepts t t = true

/-- The types have to be the same. -/
def ReturnRule.exact : ReturnRule := ⟨fun declared actual => declared = actual, by simp⟩

/-- `D_EntityId` passes for `BIGINT`, of which it is a domain. -/
def ReturnRule.lenient : ReturnRule :=
  ⟨fun declared actual => declared = actual || (declared = .bigint && actual = .dEntityId), by simp⟩

/-- `RETURN QUERY`. -/
def returnQuery {R : Type} (rule : ReturnRule) (declared actual : List SqlType) (rows : List R) :
    Option (List R) :=
  if declared.length = actual.length ∧ (declared.zip actual).all fun t => rule.accepts t.1 t.2 then
    some rows
  else
    none

/-- The `RETURNS TABLE` of both functions.
SOURCE: contact/db/contact_ddl.sql:803-804, 839-840 -/
def HIERARCHY_COLUMNS : List SqlType :=
  [.bigint, .bigint, .dLongName, .dOrgType, .dKeywords, .int, .bigintArray]

/-- The columns of the query in `fn_org_hierarchy`.
SOURCE: contact/db/contact_ddl.sql:844-845 -/
def LIVE_COLUMNS : List SqlType :=
  [.bigint, .bigint, .dLongName, .dOrgType, .dKeywords, .int, .bigintArray]

/-- The columns of the materialized views; `parent_id` has the type of the table's column.
SOURCE: contact/db/contact_ddl.sql:294, 736-737, 809 -/
def VIEW_COLUMNS : List SqlType :=
  [.bigint, .dEntityId, .dLongName, .dOrgType, .dKeywords, .int, .bigintArray]

/-! ## The recursive query -/

@[ext] structure HierarchyRow where
  id : ℤ
  parentId : Option ℤ
  name : SqlText
  orgType : SqlText
  keywords : Option SqlText
  depth : ℕ
  path : List ℤ
  deriving DecidableEq, Repr

namespace OrgDatabase

/-- The names of the unit that the two joins find for the locale.
SOURCE: contact/db/contact_ddl.sql:847-848 -/
def localizedNames (db : OrgDatabase V) (code : SqlText) (o : OrgUnit V) : List SqlText :=
  (db.tLocalizedOrgUnit.filter fun loc => loc.orgUnitId = o.id).flatMap fun loc =>
    (db.tLocale.filter fun l => l.id = loc.localeId && l.code = code).map fun _ => loc.name

/-- SOURCE: contact/db/contact_ddl.sql:844-849 -/
def rootRows (db : OrgDatabase V) (code : SqlText) : List HierarchyRow :=
  (db.tOrgUnit.filter fun o => o.parentId.isNone).flatMap fun o =>
    (db.localizedNames code o).map fun name =>
      ⟨o.id, o.parentId, name, o.orgType, o.keywords, 1, [o.id]⟩

/-- SOURCE: contact/db/contact_ddl.sql:851-856 -/
def childRows (db : OrgDatabase V) (code : SqlText) (orgTree : List HierarchyRow) :
    List HierarchyRow :=
  db.tOrgUnit.flatMap fun o =>
    (db.localizedNames code o).flatMap fun name =>
      (orgTree.filter fun t => o.parentId = some t.id).map fun t =>
        ⟨o.id, o.parentId, name, o.orgType, o.keywords, t.depth + 1, t.path ++ [o.id]⟩

/-- `WITH RECURSIVE org_tree AS …`, in the function and in the views.
SOURCE: contact/db/contact_ddl.sql:735-751, 843-858 -/
def orgTree (db : OrgDatabase V) (fuel : ℕ) (code : SqlText) : Option (List HierarchyRow) :=
  recursiveUnion (db.childRows code) fuel (db.rootRows code)

/-- SOURCE: contact/db/contact_ddl.sql:838-860 -/
def fnOrgHierarchy (rule : ReturnRule) (db : OrgDatabase V) (fuel : ℕ) (pLocaleCode : SqlText) :
    Option (List HierarchyRow) :=
  (db.orgTree fuel pLocaleCode).bind (returnQuery rule HIERARCHY_COLUMNS LIVE_COLUMNS)

end OrgDatabase

/-- struct `OrgHierarchyDTO`.
SOURCE: contact/data/org_dao.hpp:38-46 -/
@[ext] structure OrgHierarchyDTO where
  id : ℤ
  parentId : ℤ
  name : SqlText
  orgType : SqlText
  keywords : SqlText
  depth : ℕ
  deriving DecidableEq, Repr

/-- The columns that `OrgDAO::hierarchy` selects, and the object it makes of them.
SOURCE: contact/data/org_dao.hpp:208-224 -/
def OrgHierarchyDTO.ofRow (r : HierarchyRow) : OrgHierarchyDTO where
  id := r.id
  parentId := r.parentId.getD 0
  name := r.name
  orgType := r.orgType
  keywords := r.keywords.getD []
  depth := r.depth

/-- SOURCE: contact/data/org_dao.hpp:203-227 -/
def OrgDAO.hierarchy (rule : ReturnRule) (db : OrgDatabase V) (fuel : ℕ) (locale : SqlText) :
    Option (List OrgHierarchyDTO) :=
  (db.fnOrgHierarchy rule fuel locale).map (List.map OrgHierarchyDTO.ofRow)

/-! ## The materialized views -/

/-- `replace (code, '-', '_')`. -/
def localeSuffix (code : SqlText) : SqlText := code.map fun c => if c = '-' then '_' else c

/-- SOURCE: contact/db/contact_ddl.sql:731, 810, 871 -/
def mvOrgHierarchy (code : SqlText) : SqlText := "MV_OrgHierarchy_".toList ++ localeSuffix code

/-- SOURCE: contact/db/contact_ddl.sql:767, 872 -/
def mvContactQualifier (code : SqlText) : SqlText :=
  "MV_ContactQualifier_".toList ++ localeSuffix code

/-- SOURCE: contact/db/contact_ddl.sql:788, 873 -/
def mvRole (code : SqlText) : SqlText := "MV_Role_".toList ++ localeSuffix code

/-- A materialized view of the hierarchy: its name, the code in its query, and what it holds. -/
structure HierarchyView where
  name : SqlText
  code : SqlText
  rows : List HierarchyRow

/-- The materialized views of the hierarchy, and the names of the others. -/
structure LocaleViews where
  orgHierarchy : List HierarchyView
  contactQualifier : List SqlText
  role : List SqlText

namespace LocaleViews

/-- The views that the installation makes, while there are no units.
SOURCE: contact/db/contact_ddl.sql:723-798 -/
def installed : LocaleViews where
  orgHierarchy := INSTALLED_LOCALES.map fun l => ⟨mvOrgHierarchy l.code, l.code, []⟩
  contactQualifier := INSTALLED_LOCALES.map fun l => mvContactQualifier l.code
  role := INSTALLED_LOCALES.map fun l => mvRole l.code

/-- `REFRESH MATERIALIZED VIEW`, if there is one of that name. -/
def refreshOrgHierarchy (views : LocaleViews) (db : OrgDatabase V) (fuel : ℕ) (name : SqlText) :
    Option LocaleViews :=
  if views.orgHierarchy.any fun v => v.name = name then do
    let refreshed ← views.orgHierarchy.mapM fun v =>
      if v.name = name then
        (db.orgTree fuel v.code).map fun rows => { v with rows }
      else
        some v
    pure { views with orgHierarchy := refreshed }
  else
    none

/-- The loop of `fn_refresh_locale_mvs`.
SOURCE: contact/db/contact_ddl.sql:869-874 -/
def refreshLoop (db : OrgDatabase V) (fuel : ℕ) : List SqlText → LocaleViews → Option LocaleViews
  | [], views => some views
  | code :: codes, views => do
    let views ← views.refreshOrgHierarchy db fuel (mvOrgHierarchy code)
    if views.contactQualifier.contains (mvContactQualifier code) &&
        views.role.contains (mvRole code) then
      refreshLoop db fuel codes views
    else
      none

/-- SOURCE: contact/db/contact_ddl.sql:863-876 -/
def fnRefreshLocaleMvs (views : LocaleViews) (db : OrgDatabase V) (fuel : ℕ) :
    Option LocaleViews :=
  refreshLoop db fuel (((OrderBy.ascending Locale.id).sort db.tLocale).map Locale.code) views

/-- `coalesce (nullif (current_setting ('app.locale', TRUE), ''), 'pt-BR')`. -/
def sessionLocale : Option SqlText → SqlText
  | none => "pt-BR".toList
  | some [] => "pt-BR".toList
  | some locale => locale

/-- SOURCE: contact/db/contact_ddl.sql:802-812 -/
def fnMvOrgHierarchy (rule : ReturnRule) (views : LocaleViews) (appLocale : Option SqlText) :
    Option (List HierarchyRow) :=
  (views.orgHierarchy.find? fun v => v.name = mvOrgHierarchy (sessionLocale appLocale)).bind
    fun v => returnQuery rule HIERARCHY_COLUMNS VIEW_COLUMNS v.rows

end LocaleViews

end Pensar.Model
