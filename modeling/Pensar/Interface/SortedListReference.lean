import Pensar.Computation.Machine
import Pensar.Model.SortedList

/-!
# The reference model of `SortedList`, and histories of lists

`Reference` says what a sorted list is for, by going through the elements from the front.
A history is a sequence of calls on any number of lists, which are numbered in the order
in which they are constructed.  `ListOps.history` is the machine that makes the calls; it
runs with the operations of the class, `classOps`, and with those of the model,
`referenceOps`.
-/

set_option autoImplicit false

namespace Pensar.Interface

open Pensar.Computation
open Pensar.Model

variable {T : Type}

@[ext] structure Reference (T : Type) where
  elements : List T
  unique : Bool
  comp : StrictWeakOrder T

namespace Reference

def new (unique : Bool) (comp : StrictWeakOrder T) : Reference T := ⟨[], unique, comp⟩

/-- Insert before the first element that is not less; a list that is unique takes no
value that has an equivalent in it. -/
def add (r : Reference T) (value : T) : Bool × Reference T :=
  if r.unique && r.elements.any (r.comp.equiv value) then
    (false, r)
  else
    (true, { r with elements := r.comp.insert value r.elements })

/-- Remove the first equivalent element. -/
def remove (r : Reference T) (value : T) : Bool × Reference T :=
  (r.elements.any (r.comp.equiv value),
    { r with elements := r.elements.eraseP (r.comp.equiv value) })

def removeAt (r : Reference T) (index : ℕ) : Except String (Reference T) :=
  if index < r.elements.length then
    .ok { r with elements := r.elements.eraseIdx index }
  else
    .error ("SortedList::remove_at: Index " ++ toString index ++ " out of bounds for size " ++
      toString r.elements.length)

def clear (r : Reference T) : Reference T := { r with elements := [] }

def setUnique (r : Reference T) (unique : Bool) : Reference T := { r with unique }

def ofItems (items : List T) (unique : Bool) (comp : StrictWeakOrder T) : Reference T :=
  items.foldl (fun r item => (r.add item).2) (new unique comp)

/-- A linear search; the length stands for not found. -/
def find (r : Reference T) (value : T) : ℕ := r.elements.findIdx (r.comp.equiv value)

end Reference

/-! ## Histories -/

/-- A call; `list` and `source` are numbers of lists. -/
inductive ListCall (T : Type) where
  | construct (unique : Bool) (comp : StrictWeakOrder T)
  | constructInit (init : List T) (unique : Bool) (comp : StrictWeakOrder T)
  | constructRange (range : List T) (unique : Bool) (comp : StrictWeakOrder T)
  | copyConst (source : ℕ)
  | copyNonConst (source : ℕ)
  | copyAssign (list source : ℕ)
  | add (list : ℕ) (value : T)
  | remove (list : ℕ) (value : T)
  | removeAt (list index : ℕ)
  | clear (list : ℕ)
  | setUnique (list : ℕ) (unique : Bool)

inductive Answer where
  | done
  | returned (result : Bool)
  | threw (message : String)
  deriving DecidableEq

/-- How a call ended, and the list it was about as it is then. -/
structure ListReply (T : Type) where
  answer : Answer
  list : Option (Reference T)

/-- The operations that a history is made of. -/
structure ListOps (T σ : Type) where
  view : σ → Reference T
  new : Bool → StrictWeakOrder T → σ
  ofItems : List T → Bool → StrictWeakOrder T → σ
  copy : σ → σ
  copyNonConst : σ → σ
  add : σ → T → Bool × σ
  remove : σ → T → Bool × σ
  removeAt : σ → ℕ → Except String σ
  clear : σ → σ
  setUnique : σ → Bool → σ

namespace ListOps

variable {σ : Type} (I : ListOps T σ)

/-- One more list. -/
def grow (lists : List σ) (l : Option σ) : List σ × ListReply T :=
  (lists ++ l.toList, ⟨.done, l.map I.view⟩)

/-- A call on the list with the number `i`. -/
def on (lists : List σ) (i : ℕ) (call : σ → Answer × σ) : List σ × ListReply T :=
  match lists[i]? with
  | none => (lists, ⟨.done, none⟩)
  | some l => (lists.set i (call l).2, ⟨(call l).1, some (I.view (call l).2)⟩)

/-- The answer of a call that may throw; then the list is as it was. -/
def attempt (l : σ) : Except String σ → Answer × σ
  | .ok l' => (.done, l')
  | .error message => (.threw message, l)

def step (lists : List σ) : ListCall T → List σ × ListReply T
  | .construct unique comp => I.grow lists (some (I.new unique comp))
  | .constructInit items unique comp => I.grow lists (some (I.ofItems items unique comp))
  | .constructRange items unique comp => I.grow lists (some (I.ofItems items unique comp))
  | .copyConst source => I.grow lists (lists[source]?.map I.copy)
  | .copyNonConst source => I.grow lists (lists[source]?.map I.copyNonConst)
  | .copyAssign list source =>
    I.on lists list fun l => (.done, (lists[source]?.map I.copy).getD l)
  | .add list value => I.on lists list fun l => ((I.add l value).map .returned id)
  | .remove list value => I.on lists list fun l => ((I.remove l value).map .returned id)
  | .removeAt list index => I.on lists list fun l => attempt l (I.removeAt l index)
  | .clear list => I.on lists list fun l => (.done, I.clear l)
  | .setUnique list unique => I.on lists list fun l => (.done, I.setUnique l unique)

def history : Machine (List σ) (ListCall T) (ListReply T) where
  step := I.step

variable {I}

theorem grow_all {P : σ → Prop} {lists : List σ} {l : Option σ} (hlists : ∀ x ∈ lists, P x)
    (hl : ∀ x, l = some x → P x) : ∀ x ∈ (I.grow lists l).1, P x := by
  intro x hx
  rcases List.mem_append.mp hx with hx | hx
  · exact hlists x hx
  · exact hl x (Option.mem_toList.mp hx)

theorem on_all {P : σ → Prop} {lists : List σ} {i : ℕ} {call : σ → Answer × σ}
    (hlists : ∀ x ∈ lists, P x) (hcall : ∀ l, lists[i]? = some l → P (call l).2) :
    ∀ x ∈ (I.on lists i call).1, P x := by
  intro x hx
  unfold on at hx
  cases hi : lists[i]? with
  | none =>
    rw [hi] at hx
    exact hlists x hx
  | some l =>
    rw [hi] at hx
    rcases List.mem_or_eq_of_mem_set hx with hx | rfl
    · exact hlists x hx
    · exact hcall l hi

/-- Every operation but `setUnique` ends in a list with the property. -/
structure Keeps (I : ListOps T σ) (P : σ → Prop) : Prop where
  new : ∀ unique comp, P (I.new unique comp)
  ofItems : ∀ items unique comp, P (I.ofItems items unique comp)
  copy : ∀ l, P l → P (I.copy l)
  copyNonConst : ∀ l, P l → P (I.copyNonConst l)
  add : ∀ l value, P l → P (I.add l value).2
  remove : ∀ l value, P l → P (I.remove l value).2
  removeAt : ∀ l index l', P l → I.removeAt l index = .ok l' → P l'
  clear : ∀ l, P l → P (I.clear l)

theorem attempt_all {P : σ → Prop} {l : σ} {result : Except String σ} (hl : P l)
    (hresult : ∀ l', result = .ok l' → P l') : P (attempt l result).2 := by
  cases result with
  | error message => exact hl
  | ok l' => exact hresult l' rfl

/-- A property of one list that its operations keep is one of all lists that a call
keeps. -/
theorem Keeps.step {P : σ → Prop} (hkeeps : I.Keeps P) {lists : List σ}
    (hlists : ∀ x ∈ lists, P x) (call : ListCall T)
    (hset : ∀ list unique l, call = .setUnique list unique → lists[list]? = some l →
      P (I.setUnique l unique)) :
    ∀ x ∈ (I.step lists call).1, P x := by
  have hat : ∀ {i : ℕ} {l : σ}, lists[i]? = some l → P l :=
    fun h => hlists _ (List.mem_of_getElem? h)
  cases call with
  | construct unique comp =>
    apply grow_all hlists
    rintro x ⟨⟩
    exact hkeeps.new unique comp
  | constructInit items unique comp =>
    apply grow_all hlists
    rintro x ⟨⟩
    exact hkeeps.ofItems items unique comp
  | constructRange items unique comp =>
    apply grow_all hlists
    rintro x ⟨⟩
    exact hkeeps.ofItems items unique comp
  | copyConst source =>
    apply grow_all hlists
    intro x hx
    obtain ⟨l, hl, rfl⟩ := Option.map_eq_some_iff.mp hx
    exact hkeeps.copy l (hat hl)
  | copyNonConst source =>
    apply grow_all hlists
    intro x hx
    obtain ⟨l, hl, rfl⟩ := Option.map_eq_some_iff.mp hx
    exact hkeeps.copyNonConst l (hat hl)
  | copyAssign list source =>
    apply on_all hlists
    intro l hl
    cases hsource : lists[source]? with
    | none => exact hat hl
    | some l' => exact hkeeps.copy l' (hat hsource)
  | add list value => exact on_all hlists fun l hl => hkeeps.add l value (hat hl)
  | remove list value => exact on_all hlists fun l hl => hkeeps.remove l value (hat hl)
  | removeAt list index =>
    apply on_all hlists
    intro l hl
    exact attempt_all (hat hl) fun l' hl' => hkeeps.removeAt l index l' (hat hl) hl'
  | clear list => exact on_all hlists fun l hl => hkeeps.clear l (hat hl)
  | setUnique list unique =>
    exact on_all hlists fun l hl => hset list unique l rfl hl

end ListOps

/-- The list as the model sees it. -/
def abstraction (l : SortedList T) : Reference T := ⟨l.data, l.unique, l.comp⟩

/-- The class; `defaultComp` is `Compare ()`. -/
def classOps (defaultComp : StrictWeakOrder T) : ListOps T (SortedList T) where
  view := abstraction
  new := SortedList.new
  ofItems := SortedList.ofItems
  copy := SortedList.copy
  copyNonConst := SortedList.copyNonConst defaultComp
  add := SortedList.add
  remove := SortedList.remove
  removeAt := SortedList.removeAt
  clear := SortedList.clear
  setUnique := SortedList.setUnique

/-- The reference model, where a copy is a copy. -/
def referenceOps : ListOps T (Reference T) where
  view := id
  new := Reference.new
  ofItems := Reference.ofItems
  copy := id
  copyNonConst := id
  add := Reference.add
  remove := Reference.remove
  removeAt := Reference.removeAt
  clear := Reference.clear
  setUnique := Reference.setUnique

/-! ## The whole public interface -/

/-- A call that can change a list: those of a history, moves, and assignments through a
reference or an iterator. -/
inductive PublicCall (T : Type) where
  | call (call : ListCall T)
  | moveConstruct (source : ℕ)
  | moveAssign (list source : ℕ)
  | write (list : ℕ) (via : SortedList.Access) (index : ℕ) (value : T)

/-- `movedComp` is what a move makes of a comparator. -/
def publicStep (defaultComp : StrictWeakOrder T)
    (movedComp : StrictWeakOrder T → StrictWeakOrder T) (lists : List (SortedList T)) :
    PublicCall T → List (SortedList T) × Answer
  | .call call =>
    let (lists, reply) := (classOps defaultComp).step lists call
    (lists, reply.answer)
  | .moveConstruct source =>
    match lists[source]? with
    | none => (lists, .done)
    | some l => (lists.set source (l.movedFrom movedComp) ++ [l], .done)
  | .moveAssign list source =>
    match lists[source]? with
    | none => (lists, .done)
    | some l => ((lists.set list l).set source (l.movedFrom movedComp), .done)
  | .write list via index value =>
    let (lists, reply) := (classOps defaultComp).on lists list fun l =>
      ListOps.attempt l (l.write via index value)
    (lists, reply.answer)

def publicHistory (defaultComp : StrictWeakOrder T)
    (movedComp : StrictWeakOrder T → StrictWeakOrder T) :
    Machine (List (SortedList T)) (PublicCall T) Answer where
  step := publicStep defaultComp movedComp

end Pensar.Interface
