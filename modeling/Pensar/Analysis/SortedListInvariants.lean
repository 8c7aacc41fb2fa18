import Pensar.Analysis.SortedListRefinement

/-!
# What the callers of a `SortedList` can break

`add` keeps the elements of a unique list pairwise inequivalent, but `set_unique` only sets
the flag: `unique_along_iff` says that uniqueness holds throughout a history exactly when
no list that has equivalent elements is made unique.  The references that `at`, `[]` and
`begin` give out can be assigned through: `searchable_along_iff` says that the lists stay
sorted and searchable exactly when every value that is assigned fits between its
neighbours.
-/

set_option autoImplicit false

namespace Pensar.Analysis

open Pensar.Computation
open Pensar.Computation.StrictWeakOrder
open Pensar.Model
open Pensar.Interface

variable {T : Type}

/-! ## Uniqueness -/

/-- No two elements are equivalent. -/
def Inequivalent (l : SortedList T) : Prop :=
  l.data.Pairwise fun a b => l.comp.equiv a b = false

def UniqueLaw (l : SortedList T) : Prop := l.isUnique = true → Inequivalent l

theorem inequivalent_insert {O : StrictWeakOrder T} {data : List T} {value : T}
    (hdata : data.Pairwise fun a b => O.equiv a b = false)
    (hvalue : data.any (O.equiv value) = false) :
    (O.insert value data).Pairwise fun a b => O.equiv a b = false := by
  have hsymm : ∀ {a b : T}, O.equiv a b = false → O.equiv b a = false := by
    intro a b hab
    by_contra hba
    rw [Bool.not_eq_false] at hba
    exact Bool.false_ne_true (hab.symm.trans (equiv_symm hba))
  rw [(insert_perm value data).pairwise_iff hsymm, List.pairwise_cons]
  refine ⟨?_, hdata⟩
  intro x hx
  simpa using List.any_eq_false.mp hvalue x hx

theorem add_uniqueLaw {l : SortedList T} (hl : ListSorted l) (hlaw : UniqueLaw l) (value : T) :
    UniqueLaw (l.add value).2 := by
  unfold SortedList.add
  simp only [search_test, search_any hl value, insertIdx_lowerBound hl value]
  by_cases hreject : (l.unique && l.data.any (l.comp.equiv value)) = true
  · rw [if_pos hreject]
    exact hlaw
  · rw [if_neg hreject]
    intro hunique
    have hu : l.unique = true := hunique
    have hnone : l.data.any (l.comp.equiv value) = false := by simpa [hu] using hreject
    exact inequivalent_insert (hlaw hunique) hnone

theorem sublist_uniqueLaw {l : SortedList T} (hlaw : UniqueLaw l) {data : List T}
    (hdata : data.Sublist l.data) : UniqueLaw { l with data } :=
  fun hunique => List.Pairwise.sublist hdata (hlaw hunique)

theorem remove_uniqueLaw {l : SortedList T} (hlaw : UniqueLaw l) (value : T) :
    UniqueLaw (l.remove value).2 := by
  unfold SortedList.remove
  simp only
  split
  · exact sublist_uniqueLaw hlaw (List.eraseIdx_sublist _ _)
  · exact hlaw

theorem removeAt_uniqueLaw {l l' : SortedList T} (hlaw : UniqueLaw l) {index : ℕ}
    (h : l.removeAt index = .ok l') : UniqueLaw l' := by
  unfold SortedList.removeAt SortedList.validateIndex at h
  split at h
  · cases h
  · cases h
    exact sublist_uniqueLaw hlaw (List.eraseIdx_sublist _ _)

theorem new_uniqueLaw (unique : Bool) (comp : StrictWeakOrder T) :
    UniqueLaw (SortedList.new unique comp) := fun _ => List.Pairwise.nil

theorem ofItems_uniqueLaw (items : List T) (unique : Bool) (comp : StrictWeakOrder T) :
    UniqueLaw (SortedList.ofItems items unique comp) := by
  unfold SortedList.ofItems
  suffices h : ∀ l : SortedList T, ListSorted l → UniqueLaw l →
      UniqueLaw (items.foldl (fun self item => (self.add item).2) l) from
    h _ (new_sorted unique comp) (new_uniqueLaw unique comp)
  induction items with
  | nil => exact fun l _ hlaw => hlaw
  | cons item items ih =>
    exact fun l hl hlaw => ih _ (add_sorted hl item) (add_uniqueLaw hl hlaw item)

/-- No list with equivalent elements is made unique. -/
def MadeUniqueInTime (lists : List (SortedList T)) : ListCall T → Prop
  | .setUnique list true => ∀ l, lists[list]? = some l → Inequivalent l
  | _ => True

theorem classOps_keeps_uniqueLaw (defaultComp : StrictWeakOrder T) :
    (classOps defaultComp).Keeps fun l => ListSorted l ∧ UniqueLaw l where
  new unique comp := ⟨new_sorted unique comp, new_uniqueLaw unique comp⟩
  ofItems items unique comp :=
    ⟨ofItems_sorted items unique comp, ofItems_uniqueLaw items unique comp⟩
  copy _ h := h
  copyNonConst l _ :=
    ⟨copyNonConst_sorted defaultComp l, ofItems_uniqueLaw l.data false defaultComp⟩
  add _ value h := ⟨add_sorted h.1 value, add_uniqueLaw h.1 h.2 value⟩
  remove _ value h := ⟨remove_sorted h.1 value, remove_uniqueLaw h.2 value⟩
  removeAt _ _ _ h hok := ⟨removeAt_sorted h.1 hok, removeAt_uniqueLaw h.2 hok⟩
  clear _ _ := ⟨List.Pairwise.nil, fun _ => List.Pairwise.nil⟩

theorem uniqueLaw_step_iff (defaultComp : StrictWeakOrder T) {lists : List (SortedList T)}
    (hlists : ∀ l ∈ lists, ListSorted l) (hlaw : ∀ l ∈ lists, UniqueLaw l) (call : ListCall T) :
    (∀ l ∈ ((classOps defaultComp).step lists call).1, UniqueLaw l) ↔
      MadeUniqueInTime lists call := by
  constructor
  · intro h
    cases call with
    | setUnique list unique =>
      cases unique with
      | false => exact trivial
      | true =>
        intro l hl
        have hlt := (List.getElem?_eq_some_iff.mp hl).1
        have hmem : l.setUnique true ∈
            ((classOps defaultComp).step lists (.setUnique list true)).1 := by
          simp only [ListOps.step, ListOps.on, hl]
          exact List.mem_set hlt _
        have hlast : Inequivalent (l.setUnique true) := h _ hmem rfl
        exact hlast
    | _ => exact trivial
  · intro h l hl
    refine ((classOps_keeps_uniqueLaw defaultComp).step
      (fun x hx => ⟨hlists x hx, hlaw x hx⟩) call ?_ l hl).2
    rintro list unique x rfl hx
    refine ⟨hlists x (List.mem_of_getElem? hx), ?_⟩
    intro hunique
    cases unique with
    | false => exact absurd hunique Bool.false_ne_true
    | true => exact h x hx

/-- **Uniqueness.**  Throughout a history every list that `is_unique` has no two
equivalent elements, exactly when no list that has some is made unique in it. -/
theorem unique_along_iff (defaultComp : StrictWeakOrder T) (calls : List (ListCall T)) :
    (∀ done, done <+: calls →
        ∀ l ∈ (classOps defaultComp).history.run [] done, UniqueLaw l) ↔
      (classOps defaultComp).history.Along MadeUniqueInTime [] calls :=
  Machine.prefix_invariant_iff (classOps defaultComp).history
    (fun lists => ∀ l ∈ lists, ListSorted l) (fun lists => ∀ l ∈ lists, UniqueLaw l)
    MadeUniqueInTime
    (fun _ call hlists => step_sorted defaultComp hlists call)
    (fun _ call hlists hlaw => uniqueLaw_step_iff defaultComp hlists hlaw call)
    [] calls (by simp) (by simp)

/-- Two equal elements, and then the flag. -/
theorem not_uniqueLaw_setUnique_late :
    ¬ ∀ l ∈ (classOps (less ℕ)).history.run []
        [.construct false (less ℕ), .add 0 1, .add 0 1, .setUnique 0 true], UniqueLaw l := by
  intro h
  have hlast : Inequivalent (T := ℕ) ⟨[1, 1], true, less ℕ⟩ :=
    h ⟨[1, 1], true, less ℕ⟩ (List.mem_singleton.mpr rfl) rfl
  exact absurd hlast (by unfold Inequivalent; decide)

/-! ## Order -/

/-- Sorted, and `find` and `contains` succeed when some element is equivalent. -/
def Searchable (l : SortedList T) : Prop :=
  l.comp.Sorted l.data ∧ ∀ value,
    (l.find value ≠ l.data.length ↔ ∃ x ∈ l.data, l.comp.equiv value x = true) ∧
      (l.contains value = true ↔ ∃ x ∈ l.data, l.comp.equiv value x = true)

theorem searchable_iff (l : SortedList T) : Searchable l ↔ ListSorted l := by
  constructor
  · intro h
    exact h.1
  · intro hl
    refine ⟨hl, ?_⟩
    intro value
    have hcontains : l.contains value = true ↔ ∃ x ∈ l.data, l.comp.equiv value x = true := by
      rw [contains_iff hl, List.any_eq_true]
    refine ⟨?_, hcontains⟩
    rw [← hcontains]
    unfold SortedList.contains
    rw [decide_eq_true_iff]

/-- The value is not less than the element before the index, nor the element after it less
than the value. -/
def Fits (l : SortedList T) (index : ℕ) (value : T) : Prop :=
  (∀ x, 0 < index → l.data[index - 1]? = some x → l.comp.le x value) ∧
    ∀ x, l.data[index + 1]? = some x → l.comp.le value x

/-- An assignment keeps the order exactly when there is no such element or the value fits. -/
theorem write_sorted_iff {l : SortedList T} (hl : ListSorted l) (via : SortedList.Access)
    (index : ℕ) (value : T) :
    ListSorted (ListOps.attempt l (l.write via index value)).2 ↔
      (index < l.data.length → Fits l index value) := by
  by_cases hindex : index < l.data.length
  · have hwrite : l.write via index value =
        .ok { l with data := l.data.set index value } := by
      cases via with
      | iterator => rfl
      | «at» =>
        simp only [SortedList.write, SortedList.access, SortedList.validateIndex,
          if_neg (show ¬ index ≥ l.data.length by omega)]
        rfl
      | subscript =>
        simp only [SortedList.write, SortedList.access, SortedList.validateIndex,
          if_neg (show ¬ index ≥ l.data.length by omega)]
        rfl
    rw [hwrite]
    exact (set_sorted_iff hl hindex value).trans ⟨fun h _ => h, fun h => h hindex⟩
  · have hsame : (ListOps.attempt l (l.write via index value)).2 = l := by
      cases via with
      | iterator =>
        have hset : l.data.set index value = l.data :=
          List.set_eq_of_length_le (by omega)
        show ({ l with data := l.data.set index value } : SortedList T) = l
        rw [hset]
      | «at» =>
        simp only [SortedList.write, SortedList.access, SortedList.validateIndex,
          if_pos (show index ≥ l.data.length by omega)]
        rfl
      | subscript =>
        simp only [SortedList.write, SortedList.access, SortedList.validateIndex,
          if_pos (show index ≥ l.data.length by omega)]
        rfl
    rw [hsame]
    exact iff_of_true hl fun h => absurd h hindex

/-- Every value that is assigned fits. -/
def WritesFit (lists : List (SortedList T)) : PublicCall T → Prop
  | .write list _ index value =>
    ∀ l, lists[list]? = some l → index < l.data.length → Fits l index value
  | _ => True

theorem movedFrom_sorted (movedComp : StrictWeakOrder T → StrictWeakOrder T)
    (l : SortedList T) : ListSorted (l.movedFrom movedComp) := List.Pairwise.nil

theorem set_all {P : SortedList T → Prop} {lists : List (SortedList T)}
    (hlists : ∀ l ∈ lists, P l) {l : SortedList T} (hl : P l) (i : ℕ) :
    ∀ x ∈ lists.set i l, P x := by
  intro x hx
  rcases List.mem_or_eq_of_mem_set hx with hx | rfl
  · exact hlists x hx
  · exact hl

theorem publicStep_sorted_iff (defaultComp : StrictWeakOrder T)
    (movedComp : StrictWeakOrder T → StrictWeakOrder T) {lists : List (SortedList T)}
    (hlists : ∀ l ∈ lists, ListSorted l) (call : PublicCall T) :
    (∀ l ∈ (publicStep defaultComp movedComp lists call).1, ListSorted l) ↔
      WritesFit lists call := by
  cases call with
  | call call => exact iff_of_true (step_sorted defaultComp hlists call) trivial
  | moveConstruct source =>
    refine iff_of_true ?_ trivial
    simp only [publicStep]
    cases hsource : lists[source]? with
    | none => exact hlists
    | some l =>
      intro x hx
      rcases List.mem_append.mp hx with hx | hx
      · exact set_all hlists (movedFrom_sorted movedComp l) source x hx
      · rw [List.mem_singleton.mp hx]
        exact hlists l (List.mem_of_getElem? hsource)
  | moveAssign list source =>
    refine iff_of_true ?_ trivial
    simp only [publicStep]
    cases hsource : lists[source]? with
    | none => exact hlists
    | some l =>
      have hl : ListSorted l := hlists l (List.mem_of_getElem? hsource)
      exact set_all (set_all hlists hl list) (movedFrom_sorted movedComp l) source
  | write list via index value =>
    constructor
    · intro h l hl
      have hlt := (List.getElem?_eq_some_iff.mp hl).1
      have hsorted : ListSorted l := hlists l (List.mem_of_getElem? hl)
      apply (write_sorted_iff hsorted via index value).mp
      apply h
      simp only [publicStep, ListOps.on, hl]
      exact List.mem_set hlt _
    · intro h
      apply ListOps.on_all hlists
      intro l hl
      have hsorted : ListSorted l := hlists l (List.mem_of_getElem? hl)
      exact (write_sorted_iff hsorted via index value).mpr (h l hl)

/-- **Order.**  Under the whole public interface every list stays sorted and searchable
exactly when every value that is assigned through a reference or an iterator fits between
its neighbours. -/
theorem searchable_along_iff (defaultComp : StrictWeakOrder T)
    (movedComp : StrictWeakOrder T → StrictWeakOrder T) (calls : List (PublicCall T)) :
    (∀ done, done <+: calls →
        ∀ l ∈ (publicHistory defaultComp movedComp).run [] done, Searchable l) ↔
      (publicHistory defaultComp movedComp).Along WritesFit [] calls := by
  simp only [searchable_iff]
  exact Machine.prefix_invariant_iff (publicHistory defaultComp movedComp)
    (fun _ => True) (fun lists => ∀ l ∈ lists, ListSorted l) WritesFit
    (fun _ _ _ => trivial)
    (fun _ call _ hlists => publicStep_sorted_iff defaultComp movedComp hlists call)
    [] calls trivial (by simp)

/-- `list.at (0) = 3` on the list of 1 and 2. -/
theorem not_searchable_write :
    ¬ ∀ l ∈ (publicHistory (less ℕ) (fun comp => comp)).run []
        [.call (.constructInit [1, 2] false (less ℕ)), .write 0 .at 0 3], Searchable l := by
  intro h
  have hlast : Searchable (T := ℕ) ⟨[3, 2], false, less ℕ⟩ :=
    h ⟨[3, 2], false, less ℕ⟩ (List.mem_singleton.mpr rfl)
  exact absurd hlast.1 (by unfold Sorted; decide)

end Pensar.Analysis
