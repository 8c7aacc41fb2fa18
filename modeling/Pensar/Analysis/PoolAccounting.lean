import Mathlib.Data.List.Nodup
import Pensar.Interface.PoolHistory

/-!
# The two accounts of a pool

A pool factory counts its available objects in `available_count`, and it finds them by
their use counts.  Every `get` leaves one shared pointer to the object it returns on the
heap, where nobody deletes it.  An object of the pool is therefore available exactly as long
as it was never returned (`available_iff`), whatever the clients do with their handles, and
this is what the two accounts agree on.

`PoolInvariant` is kept by every call (`poolInvariant_step`); under it a `get` returns after
at most one refill if a refill adds anything (`get_returns`).

Main result: `pool_accounting`.
-/

set_option autoImplicit false

namespace Pensar.Analysis

open Pensar.Computation
open Pensar.Model
open Pensar.Interface

variable {T Args : Type}

/-! ## The invariant -/

structure PoolInvariant (s : PoolState T) : Prop where
  nodup : s.factory.pool.Nodup
  pool_lt : ∀ a : ℕ, a ∈ s.factory.pool → a < s.memory.objects.length
  leaked_lt : ∀ a : ℕ, a ∈ s.memory.leaked → a < s.memory.objects.length
  held_leaked : ∀ a, Held s a → a ∈ s.memory.leaked
  count_eq : s.factory.availableCount =
    s.factory.pool.countP fun a => a ∉ s.memory.leaked

theorem available_iff {s : PoolState T} (h : PoolInvariant s) {a : Address}
    (ha : a ∈ s.factory.pool) : Available s a ↔ a ∉ s.memory.leaked := by
  have hpool : s.factory.pool.count a = 1 := List.count_eq_one_of_mem h.nodup ha
  unfold Available PoolFactory.useCount
  constructor
  · intro huse hleaked
    have hpos : 0 < s.memory.leaked.count a := List.count_pos_iff.mpr hleaked
    omega
  · intro hleaked
    have hnone : s.memory.leaked.count a = 0 := List.count_eq_zero.mpr hleaked
    have hunheld : s.memory.handles.count (some a) = 0 := by
      rw [List.count_eq_zero]
      intro hheld
      exact hleaked (h.held_leaked a hheld)
    omega

theorem PoolInvariant.accounted {s : PoolState T} (h : PoolInvariant s) : Accounted s := by
  unfold Accounted
  rw [h.count_eq]
  apply List.countP_congr
  intro a ha
  simp [available_iff h ha]

/-! ## New objects -/

theorem pushNew_eq (C : Pooled T Args) (args : Args) (count : ℕ) (s : PoolState T) :
    PoolFactory.pushNew C args count s =
      { factory := { s.factory with
          pool := s.factory.pool ++ List.range' s.memory.objects.length count }
        memory := { s.memory with
          objects := s.memory.objects ++ List.replicate count (C.make args) } } := by
  induction count generalizing s with
  | zero => simp [PoolFactory.pushNew]
  | succ count ih =>
    simp [PoolFactory.pushNew, ih, Memory.makeShared, List.range'_succ, List.replicate_succ]

/-- New objects are behind all that there are. -/
theorem le_of_mem_new {s : PoolState T} {count a : ℕ}
    (ha : a ∈ List.range' s.memory.objects.length count) : s.memory.objects.length ≤ a :=
  (List.mem_range'_1.mp ha).1

theorem new_unleaked {s : PoolState T} (h : PoolInvariant s) {count a : ℕ}
    (ha : a ∈ List.range' s.memory.objects.length count) : a ∉ s.memory.leaked := by
  intro hleaked
  have hlt := h.leaked_lt a hleaked
  have hle := le_of_mem_new ha
  omega

/-- The pool with new objects behind it, all of them available. -/
theorem poolInvariant_pushNew {s : PoolState T} (h : PoolInvariant s) (C : Pooled T Args)
    (args : Args) (count refillSize : ℕ) :
    PoolInvariant
      { factory :=
          { pool := (PoolFactory.pushNew C args count s).factory.pool
            availableCount := s.factory.availableCount + count
            refillSize := refillSize }
        memory := (PoolFactory.pushNew C args count s).memory } := by
  rw [pushNew_eq]
  refine ⟨?_, ?_, ?_, h.held_leaked, ?_⟩
  · apply List.Nodup.append h.nodup List.nodup_range'
    intro a hold hrange
    have hlt := h.pool_lt a hold
    have hle := le_of_mem_new hrange
    omega
  · intro a ha
    simp only [List.length_append, List.length_replicate]
    rcases List.mem_append.mp ha with hold | hrange
    · have hlt := h.pool_lt a hold
      omega
    · rw [List.mem_range'_1] at hrange
      omega
  · intro a ha
    have hlt := h.leaked_lt a ha
    simp only [List.length_append, List.length_replicate]
    omega
  · have hall : (List.range' s.memory.objects.length count).countP
        (fun a => a ∉ s.memory.leaked) = count := by
      rw [List.countP_eq_length.mpr, List.length_range']
      intro a ha
      exact decide_eq_true (new_unleaked h ha)
    show s.factory.availableCount + count = _
    rw [List.countP_append, h.count_eq, hall]

theorem poolInvariant_add {s : PoolState T} (h : PoolInvariant s) (C : Pooled T Args)
    (count : ℕ) (args : Args) : PoolInvariant (PoolFactory.add C count args s) := by
  have hpush := poolInvariant_pushNew h C args count s.factory.refillSize
  unfold PoolFactory.add
  rw [pushNew_eq] at hpush ⊢
  exact hpush

/-- The pool without its objects. -/
theorem poolInvariant_clear {s : PoolState T} (h : PoolInvariant s) (refillSize : ℕ) :
    PoolInvariant ⟨{ refillSize := refillSize }, s.memory⟩ :=
  ⟨List.nodup_nil, nofun, h.leaked_lt, h.held_leaked, rfl⟩

theorem poolInvariant_new (C : Pooled T Args) (initialPoolSize aRefillSize : ℕ) (args : Args) :
    PoolInvariant (PoolFactory.new C initialPoolSize aRefillSize args {}) := by
  have hempty : PoolInvariant (⟨{ refillSize := aRefillSize }, {}⟩ : PoolState T) :=
    ⟨List.nodup_nil, nofun, nofun, nofun, rfl⟩
  have hpush := poolInvariant_pushNew hempty C args initialPoolSize aRefillSize
  unfold PoolFactory.new PoolFactory.fillPool
  rw [pushNew_eq] at hpush ⊢
  simpa using hpush

theorem poolInvariant_reset {s : PoolState T} (h : PoolInvariant s) (C : Pooled T Args)
    (initialPoolSize aRefillSize : ℕ) (args : Args) :
    PoolInvariant (PoolFactory.reset C initialPoolSize aRefillSize args s) := by
  have hpush := poolInvariant_pushNew (poolInvariant_clear h aRefillSize) C args
    initialPoolSize aRefillSize
  unfold PoolFactory.reset PoolFactory.fillPool
  rw [pushNew_eq] at hpush ⊢
  simpa using hpush

/-! ## `get` -/

theorem countP_unleaked_snoc {pool leaked : List Address} (hnodup : pool.Nodup) {a : Address}
    (ha : a ∈ pool) (hleaked : a ∉ leaked) :
    pool.countP (fun b => b ∉ leaked ++ [a]) + 1 = pool.countP (fun b => b ∉ leaked) := by
  have hpos : 0 < pool.countP (fun b => b ∉ leaked) :=
    List.countP_pos_iff.mpr ⟨a, ha, decide_eq_true hleaked⟩
  have hrest : pool.countP (fun b => b ∉ leaked ++ [a]) =
      (pool.erase a).countP (fun b => b ∉ leaked) := by
    rw [List.Nodup.erase_eq_filter hnodup, List.countP_filter]
    apply List.countP_congr
    intro b _
    simp
  rw [hrest, List.countP_erase, if_pos ⟨ha, decide_eq_true hleaked⟩]
  omega

theorem poolInvariant_take {s : PoolState T} (h : PoolInvariant s) (C : Pooled T Args)
    (args : Args) {a : Address} (ha : a ∈ s.factory.pool) (havailable : Available s a) :
    PoolInvariant (PoolFactory.take C args a s) := by
  have hleaked : a ∉ s.memory.leaked := (available_iff h ha).mp havailable
  refine ⟨h.nodup, ?_, ?_, ?_, ?_⟩
  · intro b hb
    have hlt := h.pool_lt b hb
    simpa [PoolFactory.take, Memory.newShared, Memory.initializeAt] using hlt
  · intro b hb
    simp only [PoolFactory.take, Memory.newShared, Memory.initializeAt, List.length_modify,
      List.mem_append, List.mem_singleton] at hb ⊢
    rcases hb with hb | rfl
    · exact h.leaked_lt b hb
    · exact h.pool_lt b ha
  · intro b hb
    exact List.mem_append_left _ (h.held_leaked b hb)
  · -- one object fewer is available, and the count goes down from a positive value
    have hcount := h.count_eq
    have hone := countP_unleaked_snoc h.nodup ha hleaked
    show decrement s.factory.availableCount =
      s.factory.pool.countP (fun b => b ∉ s.memory.leaked ++ [a])
    unfold decrement
    rw [if_neg (by omega)]
    omega

/-- A `get` takes an available object of the pool, or it refills and starts again. -/
theorem get_succ {s : PoolState T} (h : PoolInvariant s) (C : Pooled T Args) (args : Args) :
    (∃ a ∈ s.factory.pool, Available s a ∧
      ∀ depth, PoolFactory.get C args (depth + 1) s =
        .returned a (PoolFactory.take C args a s)) ∨
    ((∀ a ∈ s.factory.pool, ¬ Available s a) ∧
      ∀ depth, PoolFactory.get C args (depth + 1) s =
        PoolFactory.get C args depth (PoolFactory.add C s.factory.refillSize args s)) := by
  cases hfind : s.factory.pool.find? (fun ptr => PoolFactory.useCount s ptr < 2) with
  | some a =>
    left
    refine ⟨a, List.mem_of_find?_eq_some hfind, ?_, ?_⟩
    · have huse := List.find?_some hfind
      exact of_decide_eq_true huse
    · intro depth
      simp only [PoolFactory.get, hfind]
  | none =>
    right
    have hnone : ∀ a ∈ s.factory.pool, ¬ Available s a := by
      intro a ha havailable
      exact List.find?_eq_none.mp hfind a ha (decide_eq_true havailable)
    refine ⟨hnone, ?_⟩
    intro depth
    have hcount : s.factory.availableCount = 0 := by
      rw [h.accounted, List.countP_eq_zero]
      intro a ha
      simpa using hnone a ha
    simp only [PoolFactory.get, hfind, hcount, le_refl, if_true]

@[simp] theorem add_leaked (C : Pooled T Args) (count : ℕ) (args : Args) (s : PoolState T) :
    (PoolFactory.add C count args s).memory.leaked = s.memory.leaked := by
  unfold PoolFactory.add
  rw [pushNew_eq]

@[simp] theorem add_handles (C : Pooled T Args) (count : ℕ) (args : Args) (s : PoolState T) :
    (PoolFactory.add C count args s).memory.handles = s.memory.handles := by
  unfold PoolFactory.add
  rw [pushNew_eq]

@[simp] theorem add_pool (C : Pooled T Args) (count : ℕ) (args : Args) (s : PoolState T) :
    (PoolFactory.add C count args s).factory.pool =
      s.factory.pool ++ List.range' s.memory.objects.length count := by
  unfold PoolFactory.add
  rw [pushNew_eq]

theorem add_held {s : PoolState T} (C : Pooled T Args) (count : ℕ) (args : Args) (a : Address) :
    Held (PoolFactory.add C count args s) a ↔ Held s a := by
  unfold Held
  rw [add_handles]

/-- A new object was never returned. -/
theorem mem_pool_of_add {s : PoolState T} (h : PoolInvariant s) (C : Pooled T Args) (count : ℕ)
    (args : Args) {b : ℕ} (hb : b ∈ (PoolFactory.add C count args s).factory.pool)
    (hleaked : b ∈ s.memory.leaked) : b ∈ s.factory.pool := by
  rw [add_pool] at hb
  rcases List.mem_append.mp hb with hold | hnew
  · exact hold
  · exact (new_unleaked h hnew hleaked).elim

/-- An object of the pool that is available is held by no client. -/
theorem available_unheld {s : PoolState T} (h : PoolInvariant s) {a : Address}
    (ha : a ∈ s.factory.pool) (havailable : Available s a) : ¬ Held s a := by
  intro hheld
  exact (available_iff h ha).mp havailable (h.held_leaked a hheld)

/-- After a refill that adds anything there is an available object. -/
theorem exists_available_add {s : PoolState T} (h : PoolInvariant s) (C : Pooled T Args)
    {count : ℕ} (hcount : 1 ≤ count) (args : Args) :
    ∃ a ∈ (PoolFactory.add C count args s).factory.pool,
      Available (PoolFactory.add C count args s) a := by
  have hadd := poolInvariant_add h C count args
  have hmem : s.memory.objects.length ∈ (PoolFactory.add C count args s).factory.pool := by
    rw [add_pool]
    apply List.mem_append_right
    rw [List.mem_range'_1]
    omega
  refine ⟨_, hmem, (available_iff hadd hmem).mpr ?_⟩
  rw [add_leaked]
  intro hleaked
  exact lt_irrefl _ (h.leaked_lt _ hleaked)

/-- What holds when a `get` has returned `a`. -/
structure Taken (s : PoolState T) (a : Address) (s' : PoolState T) : Prop where
  invariant : PoolInvariant s'
  mem : a ∈ s'.factory.pool
  unheld : ¬ Held s a
  leaked_eq : s'.memory.leaked = s.memory.leaked ++ [a]
  handles_eq : s'.memory.handles = s.memory.handles
  old : ∀ b ∈ s'.factory.pool, b ∈ s.memory.leaked → b ∈ s.factory.pool

theorem Taken.leaked {s s' : PoolState T} {a : Address} (h : Taken s a s') :
    a ∈ s'.memory.leaked := by
  rw [h.leaked_eq]
  exact List.mem_append_right _ (List.mem_singleton_self a)

theorem taken_take {s : PoolState T} (h : PoolInvariant s) (C : Pooled T Args) (args : Args)
    {a : Address} (ha : a ∈ s.factory.pool) (havailable : Available s a) :
    Taken s a (PoolFactory.take C args a s) :=
  ⟨poolInvariant_take h C args ha havailable, ha, available_unheld h ha havailable,
    rfl, rfl, fun _ hb _ => hb⟩

theorem get_taken {s : PoolState T} (h : PoolInvariant s) (C : Pooled T Args) (args : Args)
    (depth : ℕ) {a : Address} {s' : PoolState T}
    (hget : PoolFactory.get C args depth s = .returned a s') : Taken s a s' := by
  induction depth generalizing s with
  | zero => cases hget
  | succ depth ih =>
    rcases get_succ h C args with ⟨b, hb, havailable, htake⟩ | ⟨_, hrefill⟩
    · rw [htake] at hget
      cases hget
      exact taken_take h C args hb havailable
    · rw [hrefill] at hget
      have htaken := ih (poolInvariant_add h C _ args) hget
      have hleaked := htaken.leaked_eq
      have hhandles := htaken.handles_eq
      rw [add_leaked] at hleaked
      rw [add_handles] at hhandles
      refine ⟨htaken.invariant, htaken.mem, ?_, hleaked, hhandles, ?_⟩
      · intro hheld
        exact htaken.unheld ((add_held C _ args a).mpr hheld)
      · intro b hb hbleaked
        have hadd := htaken.old b hb (by rwa [add_leaked])
        exact mem_pool_of_add h C _ args hadd hbleaked

theorem get_ne_assertFailed {s : PoolState T} (h : PoolInvariant s) (C : Pooled T Args)
    (args : Args) (depth : ℕ) : PoolFactory.get C args depth s ≠ .assertFailed := by
  induction depth generalizing s with
  | zero => nofun
  | succ depth ih =>
    rcases get_succ h C args with ⟨b, _, _, htake⟩ | ⟨_, hrefill⟩
    · rw [htake]
      nofun
    · rw [hrefill]
      exact ih (poolInvariant_add h C _ args)

theorem get_returns {s : PoolState T} (h : PoolInvariant s) (hrefill : 1 ≤ s.factory.refillSize)
    (C : Pooled T Args) (args : Args) : ReturnsUnheld C args s := by
  rcases get_succ h C args with ⟨a, ha, havailable, htake⟩ | ⟨_, hadd⟩
  · have htaken := taken_take h C args ha havailable
    exact ⟨a, _, fun depth => htake (depth + 1), Or.inl rfl, htaken.mem, htaken.unheld⟩
  · have hinv := poolInvariant_add h C s.factory.refillSize args
    obtain ⟨b, hb, hnew⟩ := exists_available_add h C hrefill args
    rcases get_succ hinv C args with ⟨a, ha, havailable, htake⟩ | ⟨hnone, _⟩
    · have htaken := taken_take hinv C args ha havailable
      refine ⟨a, _, ?_, Or.inr rfl, htaken.mem, ?_⟩
      · intro depth
        rw [hadd (depth + 1), htake depth]
      · intro hheld
        exact htaken.unheld ((add_held C _ args a).mpr hheld)
    · exact (hnone b hb hnew).elim

/-! ## The steps of a history -/

theorem poolInvariant_hold {s : PoolState T} (h : PoolInvariant s) {a : Address}
    (ha : a ∈ s.memory.leaked) : PoolInvariant (hold a s) := by
  refine ⟨h.nodup, h.pool_lt, h.leaked_lt, ?_, h.count_eq⟩
  intro b hb
  rcases List.mem_append.mp hb with hold | hnew
  · exact h.held_leaked b hold
  · cases List.mem_singleton.mp hnew
    exact ha

theorem poolInvariant_copyHandle {s : PoolState T} (h : PoolInvariant s) (handle : ℕ) :
    PoolInvariant (copyHandle handle s) := by
  unfold copyHandle
  split
  · next a ha => exact poolInvariant_hold h (h.held_leaked a (List.mem_of_getElem? ha))
  · exact h

theorem held_of_releaseHandle {s : PoolState T} {handle : ℕ} {a : Address}
    (h : Held (releaseHandle handle s) a) : Held s a := by
  rcases List.mem_or_eq_of_mem_set h with hold | hnone
  · exact hold
  · cases hnone

theorem poolInvariant_releaseHandle {s : PoolState T} (h : PoolInvariant s) (handle : ℕ) :
    PoolInvariant (releaseHandle handle s) :=
  ⟨h.nodup, h.pool_lt, h.leaked_lt, fun a ha => h.held_leaked a (held_of_releaseHandle ha),
    h.count_eq⟩

theorem poolInvariant_step (C : Pooled T Args) (depth : ℕ) (s : PoolState T)
    (call : PoolCall Args) (h : PoolInvariant s) : PoolInvariant (poolStep C depth s call).1 := by
  cases call with
  | reset initialPoolSize aRefillSize args =>
    exact poolInvariant_reset h C initialPoolSize aRefillSize args
  | client call =>
    cases call with
    | copy handle => exact poolInvariant_copyHandle h handle
    | release handle => exact poolInvariant_releaseHandle h handle
    | get args =>
      simp only [poolStep, clientStep]
      cases hget : PoolFactory.get C args depth s with
      | returned a s' =>
        have htaken := get_taken h C args depth hget
        exact poolInvariant_hold htaken.invariant htaken.leaked
      | assertFailed => exact h
      | deeper => exact h

theorem answer_ne_assertFailed (C : Pooled T Args) (depth : ℕ) (s : PoolState T)
    (call : PoolCall Args) (h : PoolInvariant s) :
    (poolStep C depth s call).2 ≠ .assertFailed := by
  cases call with
  | reset initialPoolSize aRefillSize args => nofun
  | client call =>
    cases call with
    | copy handle => nofun
    | release handle => nofun
    | get args =>
      simp only [poolStep, clientStep]
      cases hget : PoolFactory.get C args depth s with
      | returned a s' => nofun
      | assertFailed => exact (get_ne_assertFailed h C args depth hget).elim
      | deeper => nofun

theorem poolInvariant_run (C : Pooled T Args) (depth initialPoolSize aRefillSize : ℕ)
    (args : Args) (calls : List (PoolCall Args)) :
    PoolInvariant ((poolHistory C depth).run
      (PoolFactory.new C initialPoolSize aRefillSize args {}) calls) :=
  Machine.run_invariant _ PoolInvariant (poolInvariant_step C depth) _ calls
    (poolInvariant_new C initialPoolSize aRefillSize args)

/-- **Pool accounting.**  After every history the two accounts agree, no assertion has
failed in it, and as long as a refill adds something the next `get` returns, after at most
one refill, an object of the pool that no client holds. -/
theorem pool_accounting (C : Pooled T Args) (depth initialPoolSize aRefillSize : ℕ)
    (args : Args) (calls : List (PoolCall Args)) :
    Accounted ((poolHistory C (depth + 2)).run
        (PoolFactory.new C initialPoolSize aRefillSize args {}) calls) ∧
      .assertFailed ∉ (poolHistory C (depth + 2)).outputs
        (PoolFactory.new C initialPoolSize aRefillSize args {}) calls ∧
      (1 ≤ ((poolHistory C (depth + 2)).run
          (PoolFactory.new C initialPoolSize aRefillSize args {}) calls).factory.refillSize →
        ∀ args', ReturnsUnheld C args' ((poolHistory C (depth + 2)).run
          (PoolFactory.new C initialPoolSize aRefillSize args {}) calls)) := by
  have hrun := poolInvariant_run C (depth + 2) initialPoolSize aRefillSize args calls
  refine ⟨hrun.accounted, ?_, ?_⟩
  · intro hfailed
    exact Machine.forall_outputs _ PoolInvariant (· ≠ .assertFailed)
      (poolInvariant_step C (depth + 2)) (answer_ne_assertFailed C (depth + 2)) _ calls
      (poolInvariant_new C initialPoolSize aRefillSize args) _ hfailed rfl
  · intro hrefill args'
    exact get_returns hrun hrefill C args'

/-- A pool of one object that is taken, released and asked for another. -/
theorem pool_accounting_one :
    ReturnsUnheld ⟨fun id : ℕ => id, fun id _ => id⟩ 6
      ((poolHistory ⟨fun id : ℕ => id, fun id _ => id⟩ 2).run
        (PoolFactory.new ⟨fun id : ℕ => id, fun id _ => id⟩ 1 1 0 {})
        [.client (.get 5), .client (.release 0)]) :=
  (pool_accounting ⟨fun id : ℕ => id, fun id _ => id⟩ 0 1 1 0
    [.client (.get 5), .client (.release 0)]).2.2 (by decide) 6

end Pensar.Analysis
