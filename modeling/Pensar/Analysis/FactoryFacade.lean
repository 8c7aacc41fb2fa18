import Pensar.Analysis.PoolAccounting

/-!
# The factory in front of a pool

`NewFactory::get` is `const` and `PoolFactory::get` is not, so the second one hides the
first without overriding it.  The `Factory` calls through a pointer to the base class: it
makes a new object every time (`factory_get`) and leaves its pool as it was constructed
(`factory_pool_run`).

Main result: `factory_outputs_iff`.
-/

set_option autoImplicit false

namespace Pensar.Analysis

open Pensar.Computation
open Pensar.Model
open Pensar.Interface

variable {T Args : Type}

theorem factory_get (C : Pooled T Args) (args : Args) (depth : ℕ) (s : PoolState T) :
    Factory.get C args depth s =
      .returned s.memory.objects.length
        { s with memory := (NewFactory.get C args s.memory).2 } := rfl

/-- The pool that a `Factory` has created is never used. -/
theorem factory_pool_run (C : Pooled T Args) (depth : ℕ) (s : PoolState T)
    (calls : List (ClientCall Args)) :
    ((factoryHistory C depth).run s calls).factory = s.factory := by
  apply Machine.run_invariant (factoryHistory C depth) (fun s' => s'.factory = s.factory)
  · intro s' call h
    cases call with
    | get args => exact h
    | release handle => exact h
    | copy handle =>
      show (copyHandle handle s').factory = s.factory
      unfold copyHandle
      split <;> exact h
  · rfl

/-! ## One step -/

/-- What a `Factory` returns is no object of its pool. -/
theorem factory_get_entry {s : PoolState T} (h : PoolInvariant s) :
    s.factory.pool.idxOf? s.memory.objects.length = none := by
  rw [List.idxOf?_eq_none_iff]
  intro hmem
  exact lt_irrefl _ (h.pool_lt _ hmem)

theorem answers_ne_of_get {s : PoolState T} (h : PoolInvariant s) (C : Pooled T Args)
    (depth : ℕ) (args : Args) :
    ((factoryHistory C depth).step s (.get args)).2 ≠
      ((directHistory C depth).step s (.get args)).2 := by
  intro heq
  simp only [factoryHistory, directHistory, clientHistory, clientStep, factory_get] at heq
  cases hget : PoolFactory.get C args depth s with
  | assertFailed =>
    rw [hget] at heq
    cases heq
  | deeper =>
    rw [hget] at heq
    cases heq
  | returned a s' =>
    rw [hget] at heq
    have hmem : a ∈ s'.factory.pool := (get_taken h C args depth hget).mem
    have hreport := congrArg GetReport.entry (FactoryAnswer.returned.inj heq)
    have hentry : s.factory.pool.idxOf? s.memory.objects.length =
        s'.factory.pool.idxOf? a := hreport
    rw [factory_get_entry h] at hentry
    exact List.idxOf?_eq_none_iff.mp hentry.symm hmem

theorem answers_eq_iff {s : PoolState T} (h : PoolInvariant s) (C : Pooled T Args) (depth : ℕ)
    (call : ClientCall Args) :
    ((factoryHistory C depth).step s call).2 = ((directHistory C depth).step s call).2 ↔
      ¬ call.IsGet := by
  cases call with
  | get args => exact iff_of_false (answers_ne_of_get h C depth args) (not_not_intro trivial)
  | copy handle => exact iff_of_true rfl not_false
  | release handle => exact iff_of_true rfl not_false

/-- Without a `get` the two states stay the same. -/
theorem states_eq_of_not_get {s : PoolState T} (h : PoolInvariant s) (C : Pooled T Args)
    (depth : ℕ) {call : ClientCall Args} (hcall : ¬ call.IsGet) :
    ((factoryHistory C depth).step s call).1 = ((directHistory C depth).step s call).1 ∧
      PoolInvariant ((factoryHistory C depth).step s call).1 := by
  cases call with
  | get args => exact (hcall trivial).elim
  | copy handle => exact ⟨rfl, poolInvariant_copyHandle h handle⟩
  | release handle => exact ⟨rfl, poolInvariant_releaseHandle h handle⟩

/-! ## Main result -/

/-- **The facade.**  A `Factory` answers a sequence of calls as the `PoolFactory` it creates
would exactly when the sequence contains no `get`. -/
theorem factory_outputs_iff (C : Pooled T Args) (depth poolSize refillSize : ℕ) (args : Args)
    (calls : List (ClientCall Args)) :
    (factoryHistory C depth).outputs (Factory.new C poolSize refillSize args {}) calls =
      (directHistory C depth).outputs (PoolFactory.new C poolSize refillSize args {}) calls ↔
    ∀ call ∈ calls, ¬ call.IsGet := by
  have hanswer : ∀ (s s' : PoolState T) (call : ClientCall Args), True →
      (s = s' ∧ PoolInvariant s) →
      (((factoryHistory C depth).step s call).2 =
        ((directHistory C depth).step s' (id call)).2 ↔ ¬ call.IsGet) := by
    rintro s _ call - ⟨rfl, hinv⟩
    exact answers_eq_iff hinv C depth call
  have hstep : ∀ (s s' : PoolState T) (call : ClientCall Args), True →
      (s = s' ∧ PoolInvariant s) → ¬ call.IsGet →
      ((factoryHistory C depth).step s call).1 =
          ((directHistory C depth).step s' (id call)).1 ∧
        PoolInvariant ((factoryHistory C depth).step s call).1 := by
    rintro s _ call - ⟨rfl, hinv⟩ hcall
    exact states_eq_of_not_get hinv C depth hcall
  have hstart := poolInvariant_new C poolSize refillSize args
  have hrule := Machine.outputs_eq_iff (factoryHistory C depth) id
    (fun s s' => s = s' ∧ PoolInvariant s) (fun _ => True) (directHistory C depth)
    (fun _ call => ¬ call.IsGet) hanswer hstep _ _ calls (fun _ _ => trivial) ⟨rfl, hstart⟩
  rw [List.map_id] at hrule
  exact hrule.trans (Machine.along_const_iff _ _ _ _)

/-- The first `get` on a pool of one object. -/
theorem not_factory_outputs_get :
    (factoryHistory ⟨fun id : ℕ => id, fun id _ => id⟩ 2).outputs
        (Factory.new ⟨fun id : ℕ => id, fun id _ => id⟩ 1 1 0 {}) [.get 5] ≠
      (directHistory ⟨fun id : ℕ => id, fun id _ => id⟩ 2).outputs
        (PoolFactory.new ⟨fun id : ℕ => id, fun id _ => id⟩ 1 1 0 {}) [.get 5] := by
  decide

end Pensar.Analysis
