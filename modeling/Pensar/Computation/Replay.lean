import Mathlib.Algebra.Order.Group.Multiset

/-!
# Replaying the changes of a bag

A change creates, updates or deletes one element of a bag; it is stuck when the element that
it updates or deletes is not there.

A change takes one element from `old?` to `new?`, where `none` is an element that is not
there, and leaves the rest of the bag alone.

Main result: `Change.replay_concat_swap`.
-/

set_option autoImplicit false

namespace Pensar.Computation

/-- The element that is there, if any. -/
def present {α : Type} : Option α → Multiset α
  | none => 0
  | some a => {a}

@[simp] theorem present_none {α : Type} : present (none : Option α) = 0 := rfl

@[simp] theorem present_some {α : Type} (a : α) : present (some a) = {a} := rfl

theorem map_present {α β : Type} (f : α → β) (o : Option α) :
    (present o).map f = present (o.map f) := by
  cases o <;> simp

theorem coe_filterMap_cons {α β : Type} (f : β → Option α) (b : β) (items : List β) :
    (((b :: items).filterMap f : List α) : Multiset α) =
      present (f b) + (items.filterMap f : List α) := by
  cases h : f b with
  | none => simp [h]
  | some a => simp [h]

/-- The bag read off a list, as what one position gives and what the others give. -/
theorem exists_rest_filterMap_set {α β : Type} (f : β → Option α) (items : List β) (i : ℕ)
    (hi : i < items.length) :
    ∃ rest : Multiset α, ∀ b, (((items.set i b).filterMap f : List α) : Multiset α) =
      present (f b) + rest := by
  induction items generalizing i with
  | nil => simp at hi
  | cons item items ih =>
    cases i with
    | zero => exact ⟨(items.filterMap f : List α), fun b => coe_filterMap_cons f b items⟩
    | succ i =>
      obtain ⟨rest, hrest⟩ := ih i (by simpa using hi)
      refine ⟨present (f item) + rest, ?_⟩
      intro b
      rw [List.set_cons_succ, coe_filterMap_cons, hrest b, add_left_comm]

inductive Change (α : Type) where
  | created (new : α)
  | updated (old new : α)
  | deleted (old : α)
  deriving DecidableEq, Repr

namespace Change

variable {α β : Type}

def old? : Change α → Option α
  | created _ => none
  | updated old _ => some old
  | deleted old => some old

def new? : Change α → Option α
  | created new => some new
  | updated _ new => some new
  | deleted _ => none

def map (f : α → β) : Change α → Change β
  | created new => created (f new)
  | updated old new => updated (f old) (f new)
  | deleted old => deleted (f old)

@[simp] theorem old?_map (f : α → β) (c : Change α) : (c.map f).old? = c.old?.map f := by
  cases c <;> rfl

@[simp] theorem new?_map (f : α → β) (c : Change α) : (c.map f).new? = c.new?.map f := by
  cases c <;> rfl

variable [DecidableEq α]

/-- The bag after a change, `none` if the change is stuck. -/
def apply (bag : Multiset α) : Change α → Option (Multiset α)
  | created new => some (new ::ₘ bag)
  | updated old new => if old ∈ bag then some (new ::ₘ bag.erase old) else none
  | deleted old => if old ∈ bag then some (bag.erase old) else none

def replay (bag : Multiset α) (changes : List (Change α)) : Option (Multiset α) :=
  changes.foldlM apply bag

@[simp] theorem replay_nil (bag : Multiset α) : replay bag [] = some bag := rfl

theorem replay_append (bag : Multiset α) (changes more : List (Change α)) :
    replay bag (changes ++ more) = (replay bag changes).bind fun bag' => replay bag' more := by
  unfold replay
  rw [List.foldlM_append]
  rfl

theorem replay_concat (bag : Multiset α) (changes : List (Change α)) (c : Change α) :
    replay bag (changes ++ [c]) = (replay bag changes).bind fun bag' => apply bag' c := by
  rw [replay_append]
  congr 1
  funext bag'
  unfold replay
  rw [List.foldlM_cons]
  exact bind_pure _

/-- What a change does to the bag: it takes its element from `old?` to `new?`. -/
theorem apply_swap (c : Change α) (rest : Multiset α) :
    apply (present c.old? + rest) c = some (present c.new? + rest) := by
  cases c with
  | created new => simp [apply, old?, new?]
  | updated old new => simp [apply, old?, new?]
  | deleted old => simp [apply, old?, new?]

/-- **The replay rule.**  One more change takes its element of the replayed bag from `old?` to
`new?`. -/
theorem replay_concat_swap {bag : Multiset α} {changes : List (Change α)} {c : Change α}
    {rest : Multiset α} (h : replay bag changes = some (present c.old? + rest)) :
    replay bag (changes ++ [c]) = some (present c.new? + rest) := by
  rw [replay_concat, h]
  exact apply_swap c rest

end Change

end Pensar.Computation
