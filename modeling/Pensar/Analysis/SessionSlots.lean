import Pensar.Interface.SessionHistory

/-!
# The positions of the pool

The position is leased in the initializer list of the constructor and given back by the
destructor, which does not run for an object whose constructor throws.

Main result: `no_slot_lost_iff`.
-/

set_option autoImplicit false

namespace Pensar.Analysis

open Pensar.Computation
open Pensar.Interface
open Pensar.Model

/-! ## One position of many -/

theorem forall_modify_iff {α : Type} {P : α → Prop} {l : List α} (h : ∀ a ∈ l, P a) (i : ℕ)
    (f : α → α) : (∀ a ∈ l.modify i f, P a) ↔ ∀ a, l[i]? = some a → P (f a) := by
  constructor
  · intro hall a ha
    apply hall
    apply List.mem_of_getElem? (i := i)
    rw [List.getElem?_modify, ha]
    simp
  · intro hf a ha
    obtain ⟨j, hj⟩ := List.getElem?_of_mem ha
    rw [List.getElem?_modify] at hj
    by_cases hij : i = j
    · subst hij
      obtain ⟨b, hb, rfl⟩ : ∃ b, l[i]? = some b ∧ f b = a := by simpa using hj
      exact hf b hb
    · exact h a (List.mem_of_getElem? (i := j) (by simpa [hij] using hj))

/-! ## Leased and alive -/

/-- A live session holds its position. -/
def LeaseHeld (slot : Slot) : Prop := slot.session.isSome = true → slot.leased = true

/-- Only a live session holds the position. -/
def Whole (slot : Slot) : Prop := slot.leased = slot.session.isSome

theorem liveCount_le {pool : List Slot} (h : ∀ slot ∈ pool, LeaseHeld slot) :
    liveCount pool ≤ leasedCount pool := by
  apply List.countP_mono_left
  intro slot hslot
  exact h slot hslot

theorem leased_eq_live_iff {pool : List Slot} (h : ∀ slot ∈ pool, LeaseHeld slot) :
    leasedCount pool = liveCount pool ↔ ∀ slot ∈ pool, Whole slot := by
  induction pool with
  | nil => simp [leasedCount, liveCount]
  | cons slot pool ih =>
    have hslot : LeaseHeld slot := h slot (by simp)
    have hpool : ∀ s ∈ pool, LeaseHeld s := fun s hs => h s (List.mem_cons_of_mem slot hs)
    have hle := liveCount_le hpool
    have ih := ih hpool
    simp only [leasedCount, liveCount] at hle ih
    simp only [leasedCount, liveCount, List.countP_cons, List.forall_mem_cons, ← ih]
    unfold LeaseHeld at hslot
    unfold Whole
    cases hleased : slot.leased <;> cases hsession : slot.session.isSome <;>
      simp_all
    omega

theorem noSlotLost_iff {pool : List Slot} (h : ∀ slot ∈ pool, LeaseHeld slot) :
    NoSlotLost pool ↔ ∀ slot ∈ pool, Whole slot := by
  rw [NoSlotLost, leased_eq_live_iff h]
  constructor
  · intro hlost
    exact hlost.1
  · intro hwhole
    refine ⟨hwhole, ?_⟩
    intro hlive slot hslot
    have hdead : ¬ slot.session.isSome = true := List.countP_eq_zero.mp hlive slot hslot
    rw [hwhole slot hslot]
    simpa using hdead

/-! ## One call -/

/-- The body of the constructor returns exactly when no `SET` throws. -/
theorem opened_ok_iff (c : Connection) (username locale : S) (fault : Option Fault) :
    (ScopedSession.opened c username locale fault).2 = true ↔
      ¬ SetThrows c username locale fault := by
  obtain ⟨vars, transaction⟩ := c
  cases username <;> cases locale <;> rcases fault with _ | _ | _ <;> cases transaction <;>
    simp [ScopedSession.opened, SetThrows]

theorem slotStep_held (act : SessionAct) {slot : Slot} (h : LeaseHeld slot) :
    LeaseHeld (slotStep act slot) := by
  cases act with
  | openSession username locale fault =>
    unfold slotStep
    dsimp only
    split
    · exact h
    · intro _
      rfl
  | execute statement fails =>
    unfold slotStep
    dsimp only
    split <;> exact h
  | closeSession fault =>
    unfold slotStep
    dsimp only
    split
    · intro hsome
      cases hsome
    · exact h

theorem slotStep_whole_iff (act : SessionAct) {slot : Slot} (h : Whole slot) :
    Whole (slotStep act slot) ↔ OpensWhole act slot := by
  cases act with
  | openSession username locale fault =>
    cases hleased : slot.leased with
    | true => simp [slotStep, OpensWhole, hleased, h]
    | false =>
      have hopened := opened_ok_iff slot.connection username locale fault
      simp only [slotStep, OpensWhole, hleased, Bool.false_eq_true, if_false, forall_const,
        ← hopened, Whole, ScopedSession.constructAt]
      cases (ScopedSession.opened slot.connection username locale fault).2 <;> simp
  | execute statement fails =>
    apply iff_of_true _ trivial
    unfold slotStep
    dsimp only
    split <;> exact h
  | closeSession fault =>
    apply iff_of_true _ trivial
    unfold slotStep
    dsimp only
    split
    · rfl
    · exact h

/-- **Main result.**  In a pool of any size, no position is lost after any part of a run
exactly when no session of the run is opened with a `SET` that throws. -/
theorem no_slot_lost_iff (poolSize : ℕ) (calls : List SessionCall) :
    (∀ part, part <+: calls → NoSlotLost (sessionMachine.run (newPool poolSize) part)) ↔
      sessionMachine.Along (AtSlot OpensWhole) (newPool poolSize) calls := by
  have hnew : ∀ slot ∈ newPool poolSize, slot = ⟨.new, false, none⟩ :=
    fun slot hslot => List.eq_of_mem_replicate hslot
  have hheld : ∀ slot ∈ newPool poolSize, LeaseHeld slot := by
    intro slot hslot
    rw [hnew slot hslot]
    intro hsome
    cases hsome
  apply sessionMachine.prefix_invariant_iff (fun pool => ∀ slot ∈ pool, LeaseHeld slot)
  · intro pool call hpool
    apply (forall_modify_iff hpool call.slot _).mpr
    intro slot hslot
    exact slotStep_held call.act (hpool slot (List.mem_of_getElem? hslot))
  · intro pool call hpool hlost
    have hpool' : ∀ slot ∈ (sessionMachine.step pool call).1, LeaseHeld slot := by
      apply (forall_modify_iff hpool call.slot _).mpr
      intro slot hslot
      exact slotStep_held call.act (hpool slot (List.mem_of_getElem? hslot))
    have hwhole := (noSlotLost_iff hpool).mp hlost
    rw [noSlotLost_iff hpool']
    show (∀ slot ∈ pool.modify call.slot (slotStep call.act), Whole slot) ↔ _
    rw [forall_modify_iff hwhole]
    constructor
    · intro h slot hslot
      exact (slotStep_whole_iff call.act (hwhole slot (List.mem_of_getElem? hslot))).mp
        (h slot hslot)
    · intro h slot hslot
      exact (slotStep_whole_iff call.act (hwhole slot (List.mem_of_getElem? hslot))).mpr
        (h slot hslot)
  · exact hheld
  · apply (noSlotLost_iff hheld).mpr
    intro slot hslot
    rw [hnew slot hslot]
    rfl

/-- One `SET` that fails, in a pool of one: nobody is there, and the position is not free. -/
theorem not_no_slot_lost_fault :
    ¬ NoSlotLost (sessionMachine.run (newPool 1)
      [⟨0, .openSession (W "alice") [] (some .first)⟩]) := by
  rintro ⟨hcount, -⟩
  exact absurd hcount (by decide)

end Pensar.Analysis
