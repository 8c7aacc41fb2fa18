import Mathlib.Data.List.Infix
import Pensar.Analysis.PoolAccounting

/-!
# Released objects

The shared pointer that `get` leaves on the heap keeps the use count of the object above
one after the clients have released it, so it never becomes available again
(`recycled_iff_held`).  A pool recycles as it is meant to exactly as long as no object of it
loses its last handle.

Main result: `recycled_along_iff`.
-/

set_option autoImplicit false

namespace Pensar.Analysis

open Pensar.Computation
open Pensar.Model
open Pensar.Interface

variable {T Args : Type}

/-- Recycling asks that the clients hold whatever was once returned. -/
theorem recycled_iff_held {s : PoolState T} (h : PoolInvariant s) :
    Recycled s ↔ ∀ a ∈ s.factory.pool, a ∈ s.memory.leaked → Held s a := by
  constructor
  · intro hrecycled a ha hleaked
    by_contra hunheld
    exact (available_iff h ha).mp (hrecycled a ha hunheld) hleaked
  · intro hheld a ha hunheld
    rw [available_iff h ha]
    intro hleaked
    exact hunheld (hheld a ha hleaked)

theorem get_adds_unavailable {s : PoolState T} (h : PoolInvariant s) (C : Pooled T Args)
    (args : Args) (depth : ℕ) {a : Address} {s' : PoolState T}
    (hget : PoolFactory.get C args depth s = .returned a s')
    (hadds : s.factory.pool.length < s'.factory.pool.length) :
    ∀ b ∈ s.factory.pool, ¬ Available s b := by
  cases depth with
  | zero => cases hget
  | succ depth =>
    rcases get_succ h C args with ⟨b, _, _, htake⟩ | ⟨hnone, _⟩
    · rw [htake] at hget
      cases hget
      exact (lt_irrefl _ hadds).elim
    · exact hnone

theorem addsOnlyWhenHeld_of_recycled {s : PoolState T} (h : PoolInvariant s) (C : Pooled T Args)
    (hrecycled : Recycled s) : AddsOnlyWhenHeld C s := by
  intro args depth a s' hget hadds b hb
  by_contra hunheld
  exact get_adds_unavailable h C args depth hget hadds b hb (hrecycled b hb hunheld)

/-! ## One step -/

theorem recycled_new (C : Pooled T Args) (initialPoolSize aRefillSize : ℕ) (args : Args) :
    Recycled (PoolFactory.new C initialPoolSize aRefillSize args {}) := by
  rw [recycled_iff_held (poolInvariant_new C initialPoolSize aRefillSize args)]
  intro a _ hleaked
  unfold PoolFactory.new PoolFactory.fillPool at hleaked
  rw [pushNew_eq] at hleaked
  cases hleaked

theorem recycled_reset {s : PoolState T} (h : PoolInvariant s) (C : Pooled T Args)
    (initialPoolSize aRefillSize : ℕ) (args : Args) :
    Recycled (PoolFactory.reset C initialPoolSize aRefillSize args s) := by
  rw [recycled_iff_held (poolInvariant_reset h C initialPoolSize aRefillSize args)]
  intro a ha hleaked
  unfold PoolFactory.reset PoolFactory.fillPool at ha hleaked
  rw [pushNew_eq] at ha hleaked
  have hrange : a ∈ List.range' s.memory.objects.length initialPoolSize := by simpa using ha
  exact (new_unleaked h hrange hleaked).elim

theorem recycled_get {s : PoolState T} (h : PoolInvariant s) (hrecycled : Recycled s)
    {a : Address} {s' : PoolState T} (htaken : Taken s a s') : Recycled (hold a s') := by
  rw [recycled_iff_held (poolInvariant_hold htaken.invariant htaken.leaked)]
  rw [recycled_iff_held h] at hrecycled
  intro b hb hleaked
  have hleaked : b ∈ s'.memory.leaked := hleaked
  show some b ∈ s'.memory.handles ++ [some a]
  rw [htaken.leaked_eq] at hleaked
  rw [htaken.handles_eq]
  rcases List.mem_append.mp hleaked with hold | hnew
  · exact List.mem_append_left _ (hrecycled b (htaken.old b hb hold) hold)
  · rw [List.mem_singleton.mp hnew]
    exact List.mem_append_right _ (List.mem_singleton_self _)

theorem recycled_copyHandle {s : PoolState T} (h : PoolInvariant s) (hrecycled : Recycled s)
    (handle : ℕ) : Recycled (copyHandle handle s) := by
  rw [recycled_iff_held (poolInvariant_copyHandle h handle)]
  rw [recycled_iff_held h] at hrecycled
  unfold copyHandle
  split
  · intro b hb hleaked
    exact List.mem_append_left _ (hrecycled b hb hleaked)
  · exact hrecycled

theorem held_releaseHandle_iff {s : PoolState T} {handle : ℕ} {a : Address}
    (ha : s.memory.handles[handle]? = some (some a)) :
    Held (releaseHandle handle s) a ↔ 2 ≤ s.memory.handles.count (some a) := by
  obtain ⟨hlt, hget⟩ := List.getElem?_eq_some_iff.mp ha
  have hcount : (s.memory.handles.set handle none).count (some a) =
      s.memory.handles.count (some a) - 1 := by
    rw [List.count_set hlt]
    simp [hget]
  show some a ∈ s.memory.handles.set handle none ↔ _
  rw [← List.count_pos_iff, hcount]
  omega

/-- A release of a handle keeps the handles of every other object. -/
theorem held_releaseHandle_of_ne {s : PoolState T} {handle : ℕ} {a : Address} (h : Held s a)
    (ha : s.memory.handles[handle]? ≠ some (some a)) : Held (releaseHandle handle s) a := by
  obtain ⟨i, hi⟩ := List.mem_iff_getElem?.mp h
  have hne : handle ≠ i := by
    rintro rfl
    exact ha hi
  apply List.mem_of_getElem? (i := i)
  show (s.memory.handles.set handle none)[i]? = _
  rw [List.getElem?_set_ne hne, hi]

theorem recycled_releaseHandle_iff {s : PoolState T} (h : PoolInvariant s)
    (hrecycled : Recycled s) (handle : ℕ) :
    Recycled (releaseHandle handle s) ↔
      ∀ a ∈ s.factory.pool, s.memory.handles[handle]? = some (some a) →
        2 ≤ s.memory.handles.count (some a) := by
  rw [recycled_iff_held (poolInvariant_releaseHandle h handle)]
  rw [recycled_iff_held h] at hrecycled
  constructor
  · intro hheld a ha hhandle
    have hleaked := h.held_leaked a (List.mem_of_getElem? hhandle)
    exact (held_releaseHandle_iff hhandle).mp (hheld a ha hleaked)
  · intro hkeeps a ha hleaked
    by_cases hhandle : s.memory.handles[handle]? = some (some a)
    · exact (held_releaseHandle_iff hhandle).mpr (hkeeps a ha hhandle)
    · exact held_releaseHandle_of_ne (hrecycled a ha hleaked) hhandle

theorem recycled_step_iff (C : Pooled T Args) (depth : ℕ) (s : PoolState T)
    (call : PoolCall Args) (h : PoolInvariant s) (hrecycled : Recycled s) :
    Recycled (poolStep C depth s call).1 ↔ KeepsHandle s call := by
  cases call with
  | reset initialPoolSize aRefillSize args =>
    exact iff_of_true (recycled_reset h C initialPoolSize aRefillSize args) trivial
  | client call =>
    cases call with
    | copy handle => exact iff_of_true (recycled_copyHandle h hrecycled handle) trivial
    | release handle => exact recycled_releaseHandle_iff h hrecycled handle
    | get args =>
      apply iff_of_true _ trivial
      simp only [poolStep, clientStep]
      cases hget : PoolFactory.get C args depth s with
      | returned a s' => exact recycled_get h hrecycled (get_taken h C args depth hget)
      | assertFailed => exact hrecycled
      | deeper => exact hrecycled

/-! ## Main result -/

/-- **Recycling.**  Throughout a history released objects are available again, and only a
pool that is held by clients grows, exactly when no release in it drops the last handle of
an object of the pool. -/
theorem recycled_along_iff (C : Pooled T Args) (depth initialPoolSize aRefillSize : ℕ)
    (args : Args) (calls : List (PoolCall Args)) :
    (∀ p, p <+: calls →
      Recycled ((poolHistory C depth).run
        (PoolFactory.new C initialPoolSize aRefillSize args {}) p) ∧
      AddsOnlyWhenHeld C ((poolHistory C depth).run
        (PoolFactory.new C initialPoolSize aRefillSize args {}) p)) ↔
    (poolHistory C depth).Along KeepsHandle
      (PoolFactory.new C initialPoolSize aRefillSize args {}) calls := by
  have hrule := Machine.prefix_invariant_iff (poolHistory C depth) PoolInvariant Recycled
    KeepsHandle (poolInvariant_step C depth) (recycled_step_iff C depth) _ calls
    (poolInvariant_new C initialPoolSize aRefillSize args)
    (recycled_new C initialPoolSize aRefillSize args)
  rw [← hrule]
  constructor
  · intro h p hp
    exact (h p hp).1
  · intro h p hp
    have hrun := poolInvariant_run C depth initialPoolSize aRefillSize args p
    exact ⟨h p hp, addsOnlyWhenHeld_of_recycled hrun C (h p hp)⟩

/-- A pool of one object that is taken and released grows at the next `get`. -/
theorem not_recycled_released :
    ¬ ∀ p, p <+: [PoolCall.client (.get 0), .client (.release 0)] →
      Recycled ((poolHistory ⟨fun id : ℕ => id, fun id _ => id⟩ 2).run
        (PoolFactory.new ⟨fun id : ℕ => id, fun id _ => id⟩ 1 1 0 {}) p) ∧
      AddsOnlyWhenHeld ⟨fun id : ℕ => id, fun id _ => id⟩
        ((poolHistory ⟨fun id : ℕ => id, fun id _ => id⟩ 2).run
          (PoolFactory.new ⟨fun id : ℕ => id, fun id _ => id⟩ 1 1 0 {}) p) := by
  intro h
  have hadds := (h _ List.prefix_rfl).2 0 2 1 _ rfl (by decide) 0 (by decide)
  revert hadds
  decide

end Pensar.Analysis
