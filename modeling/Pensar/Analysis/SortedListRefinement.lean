import Pensar.Interface.SortedListReference

/-!
# `SortedList` and its reference model

On a sorted list every operation of the class does what the reference model does
(`add_refines`, `remove_refines`, `find_refines`, ...), and leaves the list sorted, so
every list of a history is sorted (`history_sorted`).  The one call that can do otherwise
than the model is the copy of a list that is not `const`: it puts the elements into a new
list one by one (`copyNonConst_eq_iff`).

Main result: `sortedList_refines_iff`.
-/

set_option autoImplicit false

namespace Pensar.Analysis

open Pensar.Computation
open Pensar.Computation.StrictWeakOrder
open Pensar.Model
open Pensar.Interface

variable {T : Type}

def ListSorted (l : SortedList T) : Prop := l.comp.Sorted l.data

/-! ## The operations -/

/-- The test on the element where the search stopped, as the class writes it. -/
theorem search_test (O : StrictWeakOrder T) (value : T) :
    (fun x => !O.lt x value && !O.lt value x) = O.equiv value := by
  funext x
  rw [equiv, Bool.and_comm]

theorem find_eq_findIdx {l : SortedList T} (hl : ListSorted l) (value : T) :
    l.find value = l.data.findIdx (l.comp.equiv value) := by
  unfold SortedList.find
  rw [search_test]
  exact search_eq_findIdx hl value

theorem contains_iff {l : SortedList T} (hl : ListSorted l) (value : T) :
    l.contains value = l.data.any (l.comp.equiv value) := by
  have hlt := @List.findIdx_lt_length _ (l.comp.equiv value) l.data
  have hle := @List.findIdx_le_length _ (l.comp.equiv value) l.data
  unfold SortedList.contains
  rw [find_eq_findIdx hl, Bool.eq_iff_iff, List.any_eq_true, ← hlt, decide_eq_true_iff]
  omega

/-- Where the search stops there is an equivalent element exactly if there is one. -/
theorem search_any {l : SortedList T} (hl : ListSorted l) (value : T) :
    (l.data[l.comp.lowerBound l.data value]?).any (l.comp.equiv value) =
      l.data.any (l.comp.equiv value) := by
  have hfind := search_eq_findIdx hl value
  have hlt := @List.findIdx_lt_length _ (l.comp.equiv value) l.data
  rw [Bool.eq_iff_iff, List.any_eq_true, ← hlt, ← hfind]
  cases hx : l.data[l.comp.lowerBound l.data value]? with
  | none => simp
  | some x =>
    have hpos := (List.getElem?_eq_some_iff.mp hx).1
    cases hv : l.comp.equiv value x <;> simp [hv, hpos]

theorem add_refines {l : SortedList T} (hl : ListSorted l) (value : T) :
    ((l.add value).1, abstraction (l.add value).2) = (abstraction l).add value := by
  unfold SortedList.add Reference.add abstraction
  simp only [search_test, search_any hl value, insertIdx_lowerBound hl value]
  by_cases hreject : (l.unique && l.data.any (l.comp.equiv value)) = true
  · rw [if_pos hreject, if_pos hreject]
  · rw [if_neg hreject, if_neg hreject]

theorem add_sorted {l : SortedList T} (hl : ListSorted l) (value : T) :
    ListSorted (l.add value).2 := by
  unfold SortedList.add
  simp only [search_test, insertIdx_lowerBound hl value]
  split
  · exact hl
  · exact insert_sorted hl value

theorem remove_refines {l : SortedList T} (hl : ListSorted l) (value : T) :
    ((l.remove value).1, abstraction (l.remove value).2) = (abstraction l).remove value := by
  unfold SortedList.remove Reference.remove abstraction
  simp only [find_eq_findIdx hl value, List.eraseP_eq_eraseIdx]
  by_cases hany : ∃ x ∈ l.data, l.comp.equiv value x = true
  · have hfound := List.findIdx?_eq_some_of_exists hany
    have hlt := List.findIdx_lt_length_of_exists hany
    rw [if_pos (by omega), hfound, List.any_eq_true.mpr hany]
  · have hnone : ∀ x ∈ l.data, l.comp.equiv value x = false := by
      intro x hx
      by_contra hv
      exact hany ⟨x, hx, by simpa using hv⟩
    have hend := List.findIdx_eq_length_of_false hnone
    have hfound : l.data.findIdx? (l.comp.equiv value) = none :=
      List.findIdx?_eq_none_iff.mpr hnone
    have hfalse : l.data.any (l.comp.equiv value) = false := by
      rw [List.any_eq_false]
      intro x hx
      rw [hnone x hx]
      exact Bool.false_ne_true
    rw [if_neg (by omega), hfound, hfalse]

theorem remove_sorted {l : SortedList T} (hl : ListSorted l) (value : T) :
    ListSorted (l.remove value).2 := by
  unfold SortedList.remove
  simp only
  split
  · exact List.Pairwise.sublist (List.eraseIdx_sublist _ _) hl
  · exact hl

theorem removeAt_refines (l : SortedList T) (index : ℕ) :
    (l.removeAt index).map abstraction = (abstraction l).removeAt index := by
  unfold SortedList.removeAt Reference.removeAt SortedList.validateIndex
  by_cases hindex : index < l.data.length
  · rw [if_neg (by omega), if_pos (show index < (abstraction l).elements.length from hindex)]
    rfl
  · rw [if_pos (by omega), if_neg (show ¬ index < (abstraction l).elements.length from hindex)]
    rfl

theorem removeAt_sorted {l l' : SortedList T} (hl : ListSorted l) {index : ℕ}
    (h : l.removeAt index = .ok l') : ListSorted l' := by
  unfold SortedList.removeAt SortedList.validateIndex at h
  split at h
  · cases h
  · cases h
    exact List.Pairwise.sublist (List.eraseIdx_sublist _ _) hl

theorem new_sorted (unique : Bool) (comp : StrictWeakOrder T) :
    ListSorted (SortedList.new unique comp) := List.Pairwise.nil

theorem foldl_add_sorted (items : List T) {l : SortedList T} (hl : ListSorted l) :
    ListSorted (items.foldl (fun self item => (self.add item).2) l) := by
  induction items generalizing l with
  | nil => exact hl
  | cons item items ih => exact ih (add_sorted hl item)

theorem ofItems_sorted (items : List T) (unique : Bool) (comp : StrictWeakOrder T) :
    ListSorted (SortedList.ofItems items unique comp) :=
  foldl_add_sorted items (new_sorted unique comp)

theorem foldl_add_refines (items : List T) {l : SortedList T} (hl : ListSorted l) :
    abstraction (items.foldl (fun self item => (self.add item).2) l) =
      items.foldl (fun r item => (r.add item).2) (abstraction l) := by
  induction items generalizing l with
  | nil => rfl
  | cons item items ih =>
    have hadd : abstraction (l.add item).2 = ((abstraction l).add item).2 :=
      congrArg Prod.snd (add_refines hl item)
    rw [List.foldl_cons, List.foldl_cons, ih (add_sorted hl item), hadd]

theorem ofItems_refines (items : List T) (unique : Bool) (comp : StrictWeakOrder T) :
    abstraction (SortedList.ofItems items unique comp) = Reference.ofItems items unique comp :=
  foldl_add_refines items (new_sorted unique comp)

/-! ## Copies -/

/-- Adding to a list that is not unique is insertion. -/
theorem reference_ofItems_elements (items : List T) (comp : StrictWeakOrder T) :
    Reference.ofItems items false comp =
      ⟨items.foldl (fun acc v => comp.insert v acc) [], false, comp⟩ := by
  suffices h : ∀ acc : List T,
      items.foldl (fun r item => (Reference.add r item).2) ⟨acc, false, comp⟩ =
        ⟨items.foldl (fun acc v => comp.insert v acc) acc, false, comp⟩ from h []
  induction items with
  | nil =>
    intro acc
    rfl
  | cons item items ih =>
    intro acc
    exact ih (comp.insert item acc)

/-- What a list has to be for its copy through the range constructor to be a copy: not
unique, ordered by the default comparator, and every class the same backwards, as it is
when equivalent elements are equal. -/
def SurvivesRangeCopy (defaultComp : StrictWeakOrder T) (l : SortedList T) : Prop :=
  l.unique = false ∧ l.comp = defaultComp ∧
    ∀ v, (l.data.filter (l.comp.equiv v)).reverse = l.data.filter (l.comp.equiv v)

theorem copyNonConst_eq_iff (defaultComp : StrictWeakOrder T) {l : SortedList T}
    (hl : ListSorted l) :
    abstraction (SortedList.copyNonConst defaultComp l) = abstraction l ↔
      SurvivesRangeCopy defaultComp l := by
  unfold SortedList.copyNonConst SurvivesRangeCopy
  rw [ofItems_refines, reference_ofItems_elements, abstraction, Reference.mk.injEq]
  constructor
  · rintro ⟨helements, hunique, rfl⟩
    exact ⟨hunique.symm, rfl, (foldl_insert_eq_iff hl).mp helements⟩
  · rintro ⟨hunique, rfl, hclasses⟩
    exact ⟨(foldl_insert_eq_iff hl).mpr hclasses, hunique.symm, rfl⟩

theorem copyNonConst_sorted (defaultComp : StrictWeakOrder T) (l : SortedList T) :
    ListSorted (SortedList.copyNonConst defaultComp l) :=
  ofItems_sorted l.data false defaultComp

/-! ## Histories -/

variable (defaultComp : StrictWeakOrder T)

theorem grow_refines (lists : List (SortedList T)) (l : Option (SortedList T)) :
    referenceOps.grow (lists.map abstraction) (l.map abstraction) =
      (((classOps defaultComp).grow lists l).1.map abstraction,
        ((classOps defaultComp).grow lists l).2) := by
  cases l with
  | none => simp [ListOps.grow]
  | some l => simp [ListOps.grow, referenceOps, classOps]

theorem on_refines {lists : List (SortedList T)} (hlists : ∀ l ∈ lists, ListSorted l) (i : ℕ)
    {call : SortedList T → Answer × SortedList T} {call' : Reference T → Answer × Reference T}
    (hcall : ∀ l, ListSorted l → ((call l).1, abstraction (call l).2) = call' (abstraction l)) :
    referenceOps.on (lists.map abstraction) i call' =
      (((classOps defaultComp).on lists i call).1.map abstraction,
        ((classOps defaultComp).on lists i call).2) := by
  unfold ListOps.on
  rw [List.getElem?_map]
  cases hi : lists[i]? with
  | none => rfl
  | some l =>
    have hl : ListSorted l := hlists l (List.mem_of_getElem? hi)
    simp only [Option.map_some, ← hcall l hl, List.map_set]
    rfl

theorem attempt_refines (l : SortedList T) (result : Except String (SortedList T)) :
    ((ListOps.attempt l result).1, abstraction (ListOps.attempt l result).2) =
      ListOps.attempt (abstraction l) (result.map abstraction) := by
  cases result <;> rfl

/-- The calls that do what the model does: all but the copy of a list that is not
`const`, and that too when the list survives it. -/
def CopiesSurvive (lists : List (SortedList T)) : ListCall T → Prop
  | .copyNonConst source =>
    ∀ l, lists[source]? = some l → SurvivesRangeCopy defaultComp l
  | _ => True

theorem step_refines {lists : List (SortedList T)} (hlists : ∀ l ∈ lists, ListSorted l)
    (call : ListCall T) (hcall : CopiesSurvive defaultComp lists call) :
    referenceOps.step (lists.map abstraction) call =
      (((classOps defaultComp).step lists call).1.map abstraction,
        ((classOps defaultComp).step lists call).2) := by
  cases call with
  | construct unique comp =>
    exact grow_refines defaultComp lists (some (SortedList.new unique comp))
  | constructInit items unique comp =>
    have h := grow_refines defaultComp lists (some (SortedList.ofItems items unique comp))
    rw [Option.map_some, ofItems_refines] at h
    exact h
  | constructRange items unique comp =>
    have h := grow_refines defaultComp lists (some (SortedList.ofItems items unique comp))
    rw [Option.map_some, ofItems_refines] at h
    exact h
  | copyConst source =>
    have h := grow_refines defaultComp lists (lists[source]?.map SortedList.copy)
    have hcopy : ((lists[source]?).map SortedList.copy).map abstraction =
        ((lists.map abstraction)[source]?).map id := by
      rw [List.getElem?_map, Option.map_map, Option.map_map]
      rfl
    rw [hcopy] at h
    exact h
  | copyNonConst source =>
    have h := grow_refines defaultComp lists
      (lists[source]?.map (SortedList.copyNonConst defaultComp))
    have hcopy : ((lists[source]?).map (SortedList.copyNonConst defaultComp)).map abstraction =
        ((lists.map abstraction)[source]?).map id := by
      rw [List.getElem?_map]
      cases hsource : lists[source]? with
      | none => rfl
      | some l =>
        have hl : ListSorted l := hlists l (List.mem_of_getElem? hsource)
        exact congrArg some ((copyNonConst_eq_iff defaultComp hl).mpr (hcall l hsource))
    rw [hcopy] at h
    exact h
  | copyAssign list source =>
    apply on_refines defaultComp hlists list
    intro l _
    rw [List.getElem?_map]
    cases lists[source]? <;> rfl
  | add list value =>
    apply on_refines defaultComp hlists list
    intro l hl
    exact congrArg (Prod.map Answer.returned id) (add_refines hl value)
  | remove list value =>
    apply on_refines defaultComp hlists list
    intro l hl
    exact congrArg (Prod.map Answer.returned id) (remove_refines hl value)
  | removeAt list index =>
    apply on_refines defaultComp hlists list
    intro l _
    rw [attempt_refines]
    exact congrArg (ListOps.attempt (abstraction l)) (removeAt_refines l index)
  | clear list =>
    apply on_refines defaultComp hlists list
    intro l _
    rfl
  | setUnique list unique =>
    apply on_refines defaultComp hlists list
    intro l _
    rfl

theorem classOps_keeps_sorted : (classOps defaultComp).Keeps ListSorted where
  new := new_sorted
  ofItems := ofItems_sorted
  copy _ hl := hl
  copyNonConst l _ := copyNonConst_sorted defaultComp l
  add _ value hl := add_sorted hl value
  remove _ value hl := remove_sorted hl value
  removeAt _ _ _ hl h := removeAt_sorted hl h
  clear _ _ := List.Pairwise.nil

theorem step_sorted {lists : List (SortedList T)} (hlists : ∀ l ∈ lists, ListSorted l)
    (call : ListCall T) : ∀ l ∈ ((classOps defaultComp).step lists call).1, ListSorted l := by
  apply (classOps_keeps_sorted defaultComp).step hlists
  intro list unique l _ hl
  have hsorted : ListSorted l := hlists l (List.mem_of_getElem? hl)
  exact hsorted

/-- **Every list of every history is sorted.** -/
theorem history_sorted (calls : List (ListCall T)) :
    ∀ l ∈ (classOps defaultComp).history.run [] calls, ListSorted l :=
  Machine.run_invariant _ (fun lists => ∀ l ∈ lists, ListSorted l)
    (fun _ call hlists => step_sorted defaultComp hlists call) [] calls (by simp)

/-- A copy that the list does not survive shows in the reply. -/
theorem reply_eq_iff {lists : List (SortedList T)} (hlists : ∀ l ∈ lists, ListSorted l)
    (call : ListCall T) :
    ((classOps defaultComp).step lists call).2 =
        (referenceOps.step (lists.map abstraction) call).2 ↔
      CopiesSurvive defaultComp lists call := by
  constructor
  · intro h
    cases call with
    | copyNonConst source =>
      intro l hl
      have hsorted : ListSorted l := hlists l (List.mem_of_getElem? hl)
      apply (copyNonConst_eq_iff defaultComp hsorted).mp
      simp only [ListOps.step, ListOps.grow, List.getElem?_map, hl, Option.map_some,
        ListReply.mk.injEq, Option.some.injEq] at h
      exact h.2
    | _ => exact trivial
  · intro h
    rw [step_refines defaultComp hlists call h]

/-- **Refinement.**  The replies of a history, each with the list as it is then, are those
of the model exactly when every list that is copied without being `const` survives it;
then the lists are the model's.  In every history the lists are sorted, and `find` and
`contains` agree with a linear search. -/
theorem sortedList_refines_iff (calls : List (ListCall T)) :
    ((classOps defaultComp).history.outputs [] calls = referenceOps.history.outputs [] calls ↔
        (classOps defaultComp).history.Along (CopiesSurvive defaultComp) [] calls) ∧
      ((classOps defaultComp).history.Along (CopiesSurvive defaultComp) [] calls →
        ((classOps defaultComp).history.run [] calls).map abstraction =
          referenceOps.history.run [] calls) ∧
      ∀ l ∈ (classOps defaultComp).history.run [] calls,
        l.comp.Sorted l.data ∧ ∀ value,
          l.find value = (abstraction l).find value ∧
            l.contains value = l.data.any (l.comp.equiv value) := by
  have hstep : ∀ lists references call,
      (references = lists.map abstraction ∧ ∀ l ∈ lists, ListSorted l) →
      CopiesSurvive defaultComp lists call →
      ((referenceOps.step references call).1 =
          ((classOps defaultComp).step lists call).1.map abstraction ∧
        ∀ l ∈ ((classOps defaultComp).step lists call).1, ListSorted l) := by
    rintro lists _ call ⟨rfl, hlists⟩ hcall
    refine ⟨?_, step_sorted defaultComp hlists call⟩
    rw [step_refines defaultComp hlists call hcall]
  refine ⟨?_, ?_, ?_⟩
  · have h := Machine.outputs_eq_iff (classOps defaultComp).history (fun call => call) _
      (fun _ => True) referenceOps.history (CopiesSurvive defaultComp)
      (by
        rintro lists _ call _ ⟨rfl, hlists⟩
        exact reply_eq_iff defaultComp hlists call)
      (fun lists references call _ => hstep lists references call)
      [] [] calls (fun _ _ => trivial) ⟨rfl, by simp⟩
    rwa [List.map_id'] at h
  · intro hcalls
    have h := Machine.run_relation_along (classOps defaultComp).history (fun call => call) _
      referenceOps.history (CopiesSurvive defaultComp) hstep [] [] calls hcalls
      ⟨rfl, by simp⟩
    rw [List.map_id'] at h
    exact h.1.symm
  · intro l hl
    have hsorted := history_sorted defaultComp calls l hl
    exact ⟨hsorted, fun value => ⟨find_eq_findIdx hsorted value, contains_iff hsorted value⟩⟩

/-- A unique list with the element 1; its copy takes a second 1. -/
theorem not_refines_copy_of_unique :
    (classOps (less ℕ)).history.outputs []
        [.constructInit [1] true (less ℕ), .copyNonConst 0, .add 1 1] ≠
      referenceOps.history.outputs []
        [.constructInit [1] true (less ℕ), .copyNonConst 0, .add 1 1] := by
  intro h
  have hanswers := congrArg (List.map ListReply.answer) h
  exact absurd hanswers (by decide)

end Pensar.Analysis
