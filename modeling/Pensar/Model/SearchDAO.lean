import Mathlib.Data.List.DropRight
import Pensar.Computation.TopRows
import Pensar.Model.ContactSystem

/-!
# `SearchDAO` (`contact/data/search_dao.hpp`)

The search functions of the server, and the calls that pass their results on.  They match a query
with the search vectors that the triggers have stored, and return the results of the highest rank.

`Q` is the type `tsquery`, and `R` that of a rank.
-/

set_option autoImplicit false

namespace Pensar.Model

open Pensar.Computation

variable {V Q R D : Type}

/-- `websearch_to_tsquery`, `@@` and `ts_rank_cd`.  There is no query for the name of a
configuration that the server does not have. -/
structure TextQuery (V Q R : Type) where
  websearchToTsquery : SqlText → SqlText → Option Q
  isMatch : V → Q → Bool
  tsRankCd : V → Q → R

/-- struct `SearchResultDTO`.
SOURCE: contact/data/search_dao.hpp:18-25 -/
structure SearchResultDTO (R : Type) where
  entityType : SqlText
  entityId : ℤ
  displayName : SqlText
  keywords : SqlText
  rank : R

/-- struct `PersonSearchResultDTO`.
SOURCE: contact/data/search_dao.hpp:28-35 -/
structure PersonSearchResultDTO (R : Type) where
  id : ℤ
  firstName : SqlText
  lastName : SqlText
  keywords : SqlText
  rank : R

/-- struct `OrgSearchResultDTO`.
SOURCE: contact/data/search_dao.hpp:38-45 -/
structure OrgSearchResultDTO (R : Type) where
  id : ℤ
  name : SqlText
  orgType : SqlText
  keywords : SqlText
  rank : R

/-- `TRIM (text)`. -/
def sqlTrim (text : SqlText) : SqlText := (text.dropWhile (· = ' ')).rdropWhile (· = ' ')

namespace TextQuery

variable (tq : TextQuery V Q R)

/-- The rank of a vector that matches; `NULL` does not. -/
def ranked (q : Q) (searchVector : Option V) : Option R :=
  (searchVector.filter (tq.isMatch · q)).map (tq.tsRankCd · q)

/-- The units with their names in the default locale. -/
def namedOrgUnits (rows : List (Row V D)) : List (OrgUnit V × LocalizedOrgUnit) :=
  (Row.select Row.orgUnit? rows).flatMap fun o =>
    ((Row.select Row.localizedOrgUnit? rows).filter fun loc =>
      loc.orgUnitId = o.id && (Row.orgDatabase rows).isDefaultLocale loc.localeId).map
        (Prod.mk o)

/-- The rows of `fn_search_persons`, before they are ordered.
SOURCE: contact/db/contact_ddl.sql:629-633 -/
def fnSearchPersons (q : Q) (rows : List (Row V D)) : List (PersonSearchResultDTO R) :=
  (Row.select Row.person? rows).filterMap fun p =>
    (tq.ranked q p.searchVector).map fun rank =>
      ⟨p.id, p.firstName, p.lastName, p.keywords.getD [], rank⟩

/-- The rows of `fn_search_orgunits`.
SOURCE: contact/db/contact_ddl.sql:653-659 -/
def fnSearchOrgunits (q : Q) (rows : List (Row V D)) : List (OrgSearchResultDTO R) :=
  (namedOrgUnits rows).filterMap fun (o, loc) =>
    (tq.ranked q o.searchVector).map fun rank =>
      ⟨o.id, loc.name, o.orgType, o.keywords.getD [], rank⟩

/-- The rows of `fn_search_contacts`.
SOURCE: contact/db/contact_ddl.sql:679-696 -/
def fnSearchContacts (q : Q) (rows : List (Row V D)) : List (SearchResultDTO R) :=
  ((Row.select Row.person? rows).filterMap fun p =>
    (tq.ranked q p.searchVector).map fun rank =>
      ⟨"Person".toList, p.id, sqlTrim (p.firstName ++ " ".toList ++ p.lastName),
        p.keywords.getD [], rank⟩) ++
  (namedOrgUnits rows).filterMap fun (o, loc) =>
    (tq.ranked q o.searchVector).map fun rank =>
      ⟨"OrgUnit".toList, o.id, loc.name, o.keywords.getD [], rank⟩

end TextQuery

/-! ## Calls -/

namespace SearchDAO

variable [LinearOrder R] (tq : TextQuery V Q R)

/-- The results of the highest rank; `none` if the call throws, for a configuration that is not
there or a limit below zero. -/
def answer {α : Type} {rank : α → R} (order : OrderBy (Descending rank)) (found : Q → List α)
    (query : SqlText) (limit : ℤ) (tsConfig : SqlText) : Option (List α) := do
  let q ← tq.websearchToTsquery tsConfig query
  if limit < 0 then none
  else some (limited (some limit.toNat) (order.sort (found q)))

/-- SOURCE: contact/data/search_dao.hpp:57-85 -/
def searchPersons (order : OrderBy (Descending (PersonSearchResultDTO.rank (R := R))))
    (s : ContactTables V D) (query : SqlText) (limit : ℤ := 50)
    (tsConfig : SqlText := "simple".toList) : Option (List (PersonSearchResultDTO R)) :=
  answer tq order (tq.fnSearchPersons · s.rows) query limit tsConfig

/-- SOURCE: contact/data/search_dao.hpp:88-116 -/
def searchOrgunits (order : OrderBy (Descending (OrgSearchResultDTO.rank (R := R))))
    (s : ContactTables V D) (query : SqlText) (limit : ℤ := 50)
    (tsConfig : SqlText := "simple".toList) : Option (List (OrgSearchResultDTO R)) :=
  answer tq order (tq.fnSearchOrgunits · s.rows) query limit tsConfig

/-- SOURCE: contact/data/search_dao.hpp:119-147 -/
def searchContacts (order : OrderBy (Descending (SearchResultDTO.rank (R := R))))
    (s : ContactTables V D) (query : SqlText) (limit : ℤ := 50)
    (tsConfig : SqlText := "simple".toList) : Option (List (SearchResultDTO R)) :=
  answer tq order (tq.fnSearchContacts · s.rows) query limit tsConfig

end SearchDAO

end Pensar.Model
