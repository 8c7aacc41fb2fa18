import Mathlib.Data.List.Nodup
import Mathlib.Data.List.Perm.Subperm
import Mathlib.Logic.Function.Basic
import Mathlib.Logic.Relation

/-!
# Paths from the roots of a descent

A `Descent` says which elements are roots and which are children of which.  `Path path x` says
that `path` leads from a root to `x`, each element a child of the one before it.  Nothing keeps
a descent from having cycles; an element on a cycle, or below one, has no path.

Where every element has at most one parent, and a root has none, an element has at most one path
(`Path.unique`) and meets no element on it twice (`Path.nodup`), so that paths in a finite set
are bounded (`Path.length_le`).

Given by a function `parent`, a descent is a forest when every element is `Rooted`.
* `forall_rooted_update_iff`: giving an element of a forest another parent leaves a forest
  exactly when the element is not among the ancestors of that parent, or the parent itself.
* `Rooted.detach`: taking parents away leaves a forest.
-/

set_option autoImplicit false

namespace Pensar.Computation

/-- Which elements are roots, and which (the second) are children of which (the first). -/
structure Descent (α : Type) where
  IsRoot : α → Prop
  Child : α → α → Prop

namespace Descent

variable {α : Type} {D : Descent α}

/-- `path` leads from a root to the element, with both in it. -/
inductive Path (D : Descent α) : List α → α → Prop where
  | root {x : α} (h : D.IsRoot x) : Path D [x] x
  | child {path : List α} {x y : α} (hpath : Path D path y) (h : D.Child y x) :
      Path D (path ++ [x]) x

/-- Every element has at most one parent, and the roots have none. -/
structure Functional (D : Descent α) : Prop where
  root : ∀ x y, D.IsRoot x → ¬ D.Child y x
  parent : ∀ x y z, D.Child y x → D.Child z x → y = z

theorem Path.ne_nil {path : List α} {x : α} (h : D.Path path x) : path ≠ [] := by
  cases h <;> simp

/-- **A path is determined by where it leads.** -/
theorem Path.unique (hD : D.Functional) {p q : List α} {x : α} (hp : D.Path p x)
    (hq : D.Path q x) : p = q := by
  induction hp generalizing q with
  | root h =>
    cases hq with
    | root _ => rfl
    | child _ h' => exact absurd h' (hD.root _ _ h)
  | child _ h ih =>
    cases hq with
    | root h' => exact absurd h (hD.root _ _ h')
    | child hq h' =>
      obtain rfl := hD.parent _ _ _ h h'
      rw [ih hq]

/-- The path to an element on a path is the front part of it. -/
theorem Path.to_mem {p : List α} {x y : α} (hp : D.Path p x) (hy : y ∈ p) :
    ∃ q, D.Path q y ∧ q <+: p := by
  induction hp with
  | root h =>
    obtain rfl := List.mem_singleton.mp hy
    exact ⟨_, .root h, List.prefix_rfl⟩
  | @child path x z hpath h ih =>
    rcases List.mem_append.mp hy with hy | hy
    · obtain ⟨q, hq, hprefix⟩ := ih hy
      exact ⟨q, hq, hprefix.trans (List.prefix_append _ _)⟩
    · obtain rfl := List.mem_singleton.mp hy
      exact ⟨_, .child hpath h, List.prefix_rfl⟩

/-- **A path meets no element twice.** -/
theorem Path.nodup (hD : D.Functional) {p : List α} {x : α} (hp : D.Path p x) : p.Nodup := by
  induction hp with
  | root h => exact List.nodup_singleton _
  | @child path x y hpath h ih =>
    have hnew : x ∉ path := by
      intro hx
      obtain ⟨q, hq, hprefix⟩ := hpath.to_mem hx
      have hlength := hprefix.length_le
      rw [hq.unique hD (.child hpath h), List.length_append, List.length_singleton] at hlength
      omega
    exact ih.append (List.nodup_singleton x) (by simpa using hnew)

theorem Path.length_le (hD : D.Functional) {p : List α} {x : α} (hp : D.Path p x)
    (elements : List α) (hsub : p ⊆ elements) : p.length ≤ elements.length :=
  (List.Nodup.subperm (hp.nodup hD) hsub).length_le

end Descent

/-! ## Parents given by a function -/

section ParentFunction

variable {ι : Type} {parent parent' : ι → Option ι}

/-- The descent in which `parent x` is the parent of `x`, and `x` a root if there is none. -/
def descentOf (parent : ι → Option ι) : Descent ι where
  IsRoot x := parent x = none
  Child y x := parent x = some y

theorem descentOf_functional (parent : ι → Option ι) : (descentOf parent).Functional where
  root x y h h' := by
    have hnone : parent x = none := h
    rw [show parent x = some y from h'] at hnone
    cases hnone
  parent x y z h h' := by
    have hy : parent x = some y := h
    rw [show parent x = some z from h'] at hy
    exact (Option.some.inj hy).symm

/-- Going from parent to parent ends. -/
def Rooted (parent : ι → Option ι) (x : ι) : Prop := ∃ path, (descentOf parent).Path path x

/-- Going from parent to parent one gets from the first element to the second. -/
def Reaches (parent : ι → Option ι) : ι → ι → Prop :=
  Relation.ReflTransGen fun x y => parent x = some y

theorem rooted_of_none {x : ι} (h : parent x = none) : Rooted parent x := ⟨[x], .root h⟩

theorem Rooted.of_parent {x y : ι} (h : parent x = some y) (hy : Rooted parent y) :
    Rooted parent x := by
  obtain ⟨path, hpath⟩ := hy
  exact ⟨path ++ [x], .child hpath h⟩

/-- The induction along the way to the root. -/
@[elab_as_elim]
theorem Rooted.induction {P : ι → Prop} {x : ι} (hx : Rooted parent x)
    (root : ∀ x, parent x = none → P x) (child : ∀ x y, parent x = some y → P y → P x) : P x := by
  obtain ⟨path, hpath⟩ := hx
  induction hpath with
  | root h => exact root _ h
  | child _ h ih => exact child _ _ h ih

theorem not_rooted_of_cycle {x p : ι} (hx : parent x = some p) (hp : Reaches parent p x) :
    ¬ Rooted parent x := by
  rintro ⟨q, hq⟩
  have hcycle : ∀ y, Reaches parent p y → ∃ q', (descentOf parent).Path q' y ∧
      q'.length < q.length := by
    intro y hy
    induction hy with
    | refl =>
      cases hq with
      | root h =>
        rw [show parent x = none from h] at hx
        cases hx
      | @child path _ y hpath h =>
        rw [show parent x = some y from h, Option.some.injEq] at hx
        exact ⟨path, hx ▸ hpath, by simp⟩
    | tail _ hstep ih =>
      obtain ⟨q', hq', hlt⟩ := ih
      cases hq' with
      | root h =>
        rw [show parent _ = none from h] at hstep
        cases hstep
      | @child path _ y hpath h =>
        rw [show parent _ = some y from h, Option.some.injEq] at hstep
        rw [List.length_append, List.length_singleton] at hlt
        exact ⟨path, hstep ▸ hpath, by omega⟩
  obtain ⟨q', hq', hlt⟩ := hcycle x hp
  rw [hq'.unique (descentOf_functional parent) hq] at hlt
  omega

/-- **Taking parents away leaves a forest.** -/
theorem Rooted.detach {x : ι} (hx : Rooted parent x)
    (hdetach : ∀ y, parent' y = none ∨ parent' y = parent y) : Rooted parent' x := by
  refine hx.induction ?_ ?_
  · intro y hy
    rcases hdetach y with h | h
    · exact rooted_of_none h
    · exact rooted_of_none (h.trans hy)
  · intro y z hy hz
    rcases hdetach y with h | h
    · exact rooted_of_none h
    · exact .of_parent (h.trans hy) hz

section Update

variable [DecidableEq ι]

theorem reaches_update {x y : ι} (v : Option ι) (h : Reaches parent y x) :
    Reaches (Function.update parent x v) y x := by
  induction h using Relation.ReflTransGen.head_induction_on with
  | refl => exact .refl
  | @head a b hab _ ih =>
    by_cases ha : a = x
    · rw [ha]
      exact .refl
    · refine .head ?_ ih
      rw [Function.update_of_ne ha]
      exact hab

/-- What does not lie below an element keeps its way to the root. -/
theorem rooted_update_of_not_reaches {x y : ι} (v : Option ι) (hy : Rooted parent y)
    (h : ¬ Reaches parent y x) : Rooted (Function.update parent x v) y := by
  revert h
  refine hy.induction ?_ ?_
  · intro z hz h
    have hne : z ≠ x := fun hzx => h (hzx ▸ .refl)
    exact rooted_of_none ((Function.update_of_ne hne _ _).trans hz)
  · intro z w hz ih h
    have hne : z ≠ x := fun hzx => h (hzx ▸ .refl)
    exact .of_parent ((Function.update_of_ne hne _ _).trans hz) (ih fun hw => h (.head hz hw))

/-- **Another parent for one element of a forest** leaves a forest exactly when the element is
neither that parent nor among its ancestors. -/
theorem forall_rooted_update_iff (hrooted : ∀ y, Rooted parent y) (x : ι) (v : Option ι) :
    (∀ y, Rooted (Function.update parent x v) y) ↔ ∀ p, v = some p → ¬ Reaches parent p x := by
  constructor
  · rintro h p rfl hp
    exact not_rooted_of_cycle (Function.update_self x (some p) parent)
      (reaches_update (some p) hp) (h x)
  · intro h
    have hx : Rooted (Function.update parent x v) x := by
      cases v with
      | none => exact rooted_of_none (Function.update_self _ _ _)
      | some p =>
        exact .of_parent (Function.update_self _ _ _)
          (rooted_update_of_not_reaches _ (hrooted p) (h p rfl))
    intro y
    refine (hrooted y).induction ?_ ?_
    · intro z hz
      by_cases hzx : z = x
      · rw [hzx]
        exact hx
      · exact rooted_of_none ((Function.update_of_ne hzx _ _).trans hz)
    · intro z w hz ih
      by_cases hzx : z = x
      · rw [hzx]
        exact hx
      · exact .of_parent ((Function.update_of_ne hzx _ _).trans hz) ih

end Update

end ParentFunction

end Pensar.Computation
