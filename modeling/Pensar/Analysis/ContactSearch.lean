import Pensar.Analysis.SearchVectors
import Pensar.Computation.KeyedRows
import Pensar.Model.SearchDAO

/-!
# Are searches current?

A search reads search vectors, which the triggers compute when a row is written.  The vector of a
unit depends on the name of the unit in the default locale, which is a row of another table.

Main results: `searchContacts_iff_merged`, `searchContacts_iff_current`.
-/

set_option autoImplicit false

namespace Pensar.Analysis

open Pensar.Computation
open Pensar.Model

variable {V Q R D : Type}

/-! ## Two searches in one -/

section Merged

variable [LinearOrder R] (tq : TextQuery V Q R)

/-- What a result for a person is among those for persons and units. -/
def ofPersonResult (r : PersonSearchResultDTO R) : SearchResultDTO R where
  entityType := "Person".toList
  entityId := r.id
  displayName := sqlTrim (r.firstName ++ " ".toList ++ r.lastName)
  keywords := r.keywords
  rank := r.rank

def ofOrgResult (r : OrgSearchResultDTO R) : SearchResultDTO R where
  entityType := "OrgUnit".toList
  entityId := r.id
  displayName := r.name
  keywords := r.keywords
  rank := r.rank

omit [LinearOrder R] in
theorem fnSearchContacts_eq (q : Q) (rows : List (Row V D)) :
    tq.fnSearchContacts q rows =
      (tq.fnSearchPersons q rows).map ofPersonResult ++
        (tq.fnSearchOrgunits q rows).map ofOrgResult := by
  unfold TextQuery.fnSearchContacts TextQuery.fnSearchPersons TextQuery.fnSearchOrgunits
  rw [List.map_filterMap, List.map_filterMap]
  simp only [Option.map_map]
  rfl

/-- The lists that a call can return. -/
theorem exists_answer_iff {α : Type} (rank : α → R) (found : Q → List α) {query tsConfig : SqlText}
    {limit : ℤ} {out : List α} :
    (∃ order : OrderBy (Descending rank),
      SearchDAO.answer tq order found query limit tsConfig = some out) ↔
      ∃ q, tq.websearchToTsquery tsConfig query = some q ∧ 0 ≤ limit ∧
        IsTop (Descending rank) (some limit.toNat) (found q) out := by
  simp only [SearchDAO.answer, Option.bind_eq_bind, Option.bind_eq_some_iff,
    Option.ite_none_left_eq_some, not_lt, Option.some.injEq,
    isTop_iff_exists_order (OrderBy.descending rank)]
  constructor
  · rintro ⟨order, q, hq, hlimit, hout⟩
    exact ⟨q, hq, hlimit, order, hout⟩
  · rintro ⟨q, hq, hlimit, order, hout⟩
    exact ⟨order, q, hq, hlimit, hout⟩

theorem isTop_ofPersonResult_iff {limit : Option ℕ} {found : List (PersonSearchResultDTO R)}
    {out : List (SearchResultDTO R)} :
    IsTop (Descending SearchResultDTO.rank) limit (found.map ofPersonResult) out ↔
      ∃ persons, IsTop (Descending PersonSearchResultDTO.rank) limit found persons ∧
        persons.map ofPersonResult = out :=
  isTop_map_iff

theorem isTop_ofOrgResult_iff {limit : Option ℕ} {found : List (OrgSearchResultDTO R)}
    {out : List (SearchResultDTO R)} :
    IsTop (Descending SearchResultDTO.rank) limit (found.map ofOrgResult) out ↔
      ∃ units, IsTop (Descending OrgSearchResultDTO.rank) limit found units ∧
        units.map ofOrgResult = out :=
  isTop_map_iff

/-- **A search of the contacts is a search of the persons and one of the units, merged**: it can
return just the lists of the highest ranks among a result of `search_persons` and one of
`search_orgunits`, each with the same limit. -/
theorem searchContacts_iff_merged (s : ContactTables V D) (query tsConfig : SqlText) (limit : ℤ)
    (out : List (SearchResultDTO R)) :
    (∃ order, SearchDAO.searchContacts tq order s query limit tsConfig = some out) ↔
      ∃ byPerson byUnit persons units,
        SearchDAO.searchPersons tq byPerson s query limit tsConfig = some persons ∧
        SearchDAO.searchOrgunits tq byUnit s query limit tsConfig = some units ∧
        ∃ order : OrderBy (Descending SearchResultDTO.rank),
          limited (some limit.toNat)
            (order.sort (persons.map ofPersonResult ++ units.map ofOrgResult)) = out := by
  unfold SearchDAO.searchContacts SearchDAO.searchPersons SearchDAO.searchOrgunits
  simp only [← isTop_iff_exists_order (OrderBy.descending SearchResultDTO.rank)]
  constructor
  · intro h
    obtain ⟨q, hq, hlimit, hout⟩ := (exists_answer_iff tq _ _).mp h
    rw [fnSearchContacts_eq, isTop_append_iff (OrderBy.descending _)] at hout
    obtain ⟨a, b, ha, hb, hout⟩ := hout
    obtain ⟨persons, hpersons, rfl⟩ := isTop_ofPersonResult_iff.mp ha
    obtain ⟨units, hunits, rfl⟩ := isTop_ofOrgResult_iff.mp hb
    obtain ⟨byPerson, hp⟩ := (exists_answer_iff tq PersonSearchResultDTO.rank
      (tq.fnSearchPersons · s.rows)).mpr ⟨q, hq, hlimit, hpersons⟩
    obtain ⟨byUnit, hu⟩ := (exists_answer_iff tq OrgSearchResultDTO.rank
      (tq.fnSearchOrgunits · s.rows)).mpr ⟨q, hq, hlimit, hunits⟩
    exact ⟨byPerson, byUnit, persons, units, hp, hu, hout⟩
  · rintro ⟨byPerson, byUnit, persons, units, hp, hu, hout⟩
    obtain ⟨q, hq, hlimit, hpersons⟩ := (exists_answer_iff tq _ _).mp ⟨byPerson, hp⟩
    obtain ⟨q', hq', -, hunits⟩ := (exists_answer_iff tq _ _).mp ⟨byUnit, hu⟩
    obtain rfl := Option.some.inj (hq.symm.trans hq')
    refine (exists_answer_iff tq _ _).mpr ⟨q, hq, hlimit, ?_⟩
    rw [fnSearchContacts_eq]
    exact (isTop_ofPersonResult_iff.mpr ⟨persons, hpersons, rfl⟩).merge
      (isTop_ofOrgResult_iff.mpr ⟨units, hunits, rfl⟩) hout

end Merged

/-! ## What is searched -/

section Current

variable (ts : TextSearch V) (tq : TextQuery V Q R) (q : Q)

/-- A person as a result, if what the columns hold matches. -/
def currentPerson (p : PersonRecord V D) : Option (SearchResultDTO R) :=
  if tq.isMatch (p.vector ts) q then
    some
      { entityType := "Person".toList
        entityId := p.id
        displayName := sqlTrim (p.firstName ++ " ".toList ++ p.lastName)
        keywords := p.keywords.getD []
        rank := tq.tsRankCd (p.vector ts) q }
  else none

/-- A unit as a result, if it has a name in the default locale and if the name and what the columns
hold match. -/
def currentUnit (rows : List (Row V D)) (o : OrgUnit V) : Option (SearchResultDTO R) := do
  let name ← (Row.orgDatabase rows).defaultName o.id
  if tq.isMatch (unitVector ts rows o) q then
    some
      { entityType := "OrgUnit".toList
        entityId := o.id
        displayName := name
        keywords := o.keywords.getD []
        rank := tq.tsRankCd (unitVector ts rows o) q }
  else none

/-- The persons and the units that match, each once. -/
def currentContacts (rows : List (Row V D)) : List (SearchResultDTO R) :=
  (Row.select Row.person? rows).filterMap (currentPerson ts tq q) ++
    (Row.select Row.orgUnit? rows).filterMap (currentUnit ts tq q rows)

variable {ts tq q} {rows : List (Row V D)}

theorem names_nodup (hrows : Row.schema.Consistent rows) :
    ((Row.select Row.localizedOrgUnit? rows).map fun loc =>
      Row.UniqueValue.localizedOrgUnit loc.orgUnitId loc.localeId).Nodup := by
  refine List.Nodup.sublist ?_ hrows.unique
  clear hrows
  unfold Row.select
  induction rows with
  | nil => exact List.Sublist.slnil
  | cons r rows ih =>
    rw [List.flatMap_cons]
    cases r with
    | localizedOrgUnit r => exact ih.cons_cons _
    | _ => exact ih.trans (List.sublist_append_right _ _)

/-- There is one default locale, and a unit has one name in it. -/
theorem names_eq (hrows : Row.schema.Consistent rows) (unit : ℤ) :
    ((Row.select Row.localizedOrgUnit? rows).filter fun loc =>
        loc.orgUnitId = unit && (Row.orgDatabase rows).isDefaultLocale loc.localeId) =
      ((Row.select Row.localizedOrgUnit? rows).find? fun loc =>
        loc.orgUnitId = unit && (Row.orgDatabase rows).isDefaultLocale loc.localeId).toList := by
  refine filter_eq_toList_find? (names_nodup hrows) _ (k := .localizedOrgUnit unit 1) ?_
  intro loc hloc
  simp only [OrgDatabase.isDefaultLocale, Row.orgDatabase, INSTALLED_LOCALES, Bool.and_eq_true,
    decide_eq_true_eq, List.any_cons, List.any_nil, Bool.and_true, Bool.and_false,
    Bool.or_false] at hloc
  rw [hloc.1, ← hloc.2]

theorem mem_select_orgUnit {o : OrgUnit V} :
    o ∈ Row.select Row.orgUnit? rows ↔ Row.orgUnit o ∈ rows := by
  unfold Row.select
  rw [List.mem_filterMap]
  constructor
  · rintro ⟨x, hx, ho⟩
    cases x with
    | orgUnit x =>
      cases ho
      exact hx
    | _ => cases ho
  · intro h
    exact ⟨_, h, rfl⟩

theorem ranked_some (v : V) :
    tq.ranked q (some v) = if tq.isMatch v q then some (tq.tsRankCd v q) else none := by
  unfold TextQuery.ranked
  cases h : tq.isMatch v q <;> simp [h]

/-- **The vectors are current**, so that a search finds what it is for. -/
theorem fnSearchContacts_eq_current (hrows : Row.schema.Consistent rows)
    (hpersons : ∀ p, Row.person p ∈ rows → p.searchVector = some (p.vector ts))
    (hunits : UnitVectors ts rows) :
    tq.fnSearchContacts q rows = currentContacts ts tq q rows := by
  unfold TextQuery.fnSearchContacts currentContacts
  congr 1
  · refine List.filterMap_congr fun p hp => ?_
    rw [hpersons p (mem_select_person.mp hp), ranked_some, currentPerson]
    split <;> rfl
  · unfold TextQuery.namedOrgUnits
    rw [List.filterMap_flatMap, List.filterMap_eq_flatMap_toList]
    refine List.flatMap_congr fun o ho => ?_
    rw [names_eq hrows, currentUnit]
    cases hname : (Row.select Row.localizedOrgUnit? rows).find? fun loc =>
        loc.orgUnitId = o.id && (Row.orgDatabase rows).isDefaultLocale loc.localeId with
    | none =>
      rw [show (Row.orgDatabase rows).defaultName o.id = none from
        congrArg (Option.map LocalizedOrgUnit.name) hname]
      rfl
    | some loc =>
      rw [show (Row.orgDatabase rows).defaultName o.id = some loc.name from
        congrArg (Option.map LocalizedOrgUnit.name) hname]
      have hranked := congrArg (tq.ranked q) (hunits o (mem_select_orgUnit.mp ho))
      rw [ranked_some] at hranked
      simp only [Option.toList_some, List.map_cons, List.map_nil, List.filterMap_cons,
        List.filterMap_nil, hranked]
      by_cases hmatch : tq.isMatch (unitVector ts rows o) q = true
      · simp [hmatch]
      · simp [hmatch]

end Current

/-- **Searches are current and complete**: after any calls, a search of the contacts can return just
the lists of the highest ranks among the persons that match and the units that match by the name
that they have now, each of them once. -/
theorem searchContacts_iff_current [LinearOrder R] (ts : TextSearch V) (dates : DateText D)
    (tq : TextQuery V Q R) (calls : List (DaoCall D × Fate)) (query tsConfig : SqlText) (limit : ℤ)
    (out : List (SearchResultDTO R)) :
    (∃ order, SearchDAO.searchContacts tq order (reached ts dates calls) query limit tsConfig =
        some out) ↔
      ∃ q, tq.websearchToTsquery tsConfig query = some q ∧ 0 ≤ limit ∧
        IsTop (Descending SearchResultDTO.rank) (some limit.toNat)
          (currentContacts ts tq q (reached ts dates calls).rows) out := by
  unfold SearchDAO.searchContacts
  rw [exists_answer_iff]
  simp only [fnSearchContacts_eq_current (reached_consistent ts dates calls)
    (fun _ => personVectors_reached ts dates calls) (unitVectors_reached ts dates calls)]

end Pensar.Analysis
