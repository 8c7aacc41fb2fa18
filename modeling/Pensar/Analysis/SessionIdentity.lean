import Pensar.Analysis.SessionSlots

/-!
# The identities of the sessions

A position that is free holds a connection without variables and outside a transaction, as
long as every session is closed like that; a session then has the variables that its
constructor sets, and so has a rollback of its transactions.  A session that is closed
otherwise leaves something behind that a later one runs with.

Main result: `no_identity_leaks`.
-/

set_option autoImplicit false

namespace Pensar.Analysis

open Pensar.Computation
open Pensar.Computation.SessionVariables (Steady unset execute_steady)
open Pensar.Interface
open Pensar.Model

/-! ## Connections at the border of sessions -/

/-- No variable is set, and no rollback sets one. -/
def Clean (c : Connection) : Prop :=
  c.vars = unset ∧ ∀ saved, c.transaction ≠ .started saved

theorem given_nil : given ([], []) = unset := by
  funext v
  cases v <;> rfl

/-- The constructor sets the variables of a clean connection. -/
theorem opened_steady {c : Connection} (h : Clean c) (username locale : S) (fault : Option Fault)
    (hok : (ScopedSession.opened c username locale fault).2 = true) :
    Steady (ScopedSession.opened c username locale fault).1 (given (username, locale)) := by
  obtain ⟨vars, transaction⟩ := c
  obtain ⟨rfl, hsaved⟩ := h
  cases transaction with
  | started saved => exact absurd rfl (hsaved saved)
  | idle =>
    cases username <;> cases locale <;> rcases fault with _ | _ | _ <;>
      simp [ScopedSession.opened] at hok ⊢
    all_goals
      refine ⟨?_, by rintro saved ⟨⟩⟩
      funext v
      cases v <;> simp [given, unset]
  | aborted =>
    -- every `SET` is rejected, so that there is none
    cases username <;> cases locale <;> simp [ScopedSession.opened] at hok ⊢
    refine ⟨?_, by rintro saved ⟨⟩⟩
    rw [given_nil]

/-- The destructor leaves a clean connection exactly where `ClosesClean` says. -/
theorem closed_clean_iff {slot : Slot} {x : SessionVariable → Option S}
    (h : Steady slot.connection x) (hlive : slot.session.isSome = true) (fault : Option Fault) :
    Clean (ScopedSession.closed slot.connection fault) ↔
      ClosesClean (.closeSession fault) slot := by
  obtain ⟨⟨vars, transaction⟩, leased, session⟩ := slot
  obtain ⟨rfl, hsaved⟩ := h
  have hunset : ∀ x : SessionVariable → Option S,
      x = unset ↔ x .currentUser = none ∧ x .locale = none := by
    intro x
    constructor
    · rintro rfl
      exact ⟨rfl, rfl⟩
    · rintro ⟨hu, hl⟩
      funext v
      cases v
      · exact hu
      · exact hl
  have hlive : session.isSome = true := hlive
  cases transaction with
  | idle =>
    rcases fault with _ | _ | _ <;> simp [ScopedSession.closed, Clean, ClosesClean, hlive, hunset]
  | started saved =>
    rcases fault with _ | _ | _ <;> simp [ScopedSession.closed, Clean, ClosesClean, hlive]
  | aborted =>
    rcases fault with _ | _ | _ <;> simp [ScopedSession.closed, Clean, ClosesClean, hlive]

/-! ## Steps and runs -/

/-- A live session runs as itself, and a free position is clean. -/
structure Tidy (slot : Slot) : Prop where
  held : LeaseHeld slot
  steady : ∀ session, slot.session = some session → Steady slot.connection (given session)
  clean : slot.leased = false → Clean slot.connection

theorem setsNothing_client (statement : ClientStatement) :
    SessionVariables.SetsNothing statement.statement := by
  cases statement <;> exact trivial

/-- After one call a live session runs as itself. -/
theorem slotStep_steady {act : SessionAct} {slot : Slot} (h : Tidy slot) :
    ∀ session, (slotStep act slot).session = some session →
      Steady (slotStep act slot).connection (given session) := by
  cases act with
  | openSession username locale fault =>
    cases hleased : slot.leased with
    | true => simpa [slotStep, hleased] using h.steady
    | false =>
      have hopened := opened_steady (h.clean hleased) username locale fault
      simp only [slotStep, hleased, Bool.false_eq_true, if_false, ScopedSession.constructAt]
      intro session hsession
      split at hsession
      · next hok =>
        cases hsession
        exact hopened hok
      · cases hsession
  | execute statement fails =>
    unfold slotStep
    dsimp only
    split
    · intro session hsession
      exact execute_steady (h.steady session hsession) (setsNothing_client statement) fails
    · exact h.steady
  | closeSession fault =>
    unfold slotStep
    dsimp only
    split
    · intro session hsession
      cases hsession
    · exact h.steady

/-- After one call a free position is clean. -/
theorem slotStep_clean {act : SessionAct} {slot : Slot} (h : Tidy slot)
    (hclean : ClosesClean act slot) :
    (slotStep act slot).leased = false → Clean (slotStep act slot).connection := by
  cases act with
  | openSession username locale fault =>
    unfold slotStep
    dsimp only
    split
    · exact h.clean
    · intro hfree
      cases hfree
  | execute statement fails =>
    unfold slotStep
    dsimp only
    split
    · next hlive =>
      intro hfree
      have hleased : slot.leased = true := h.held hlive
      rw [hleased] at hfree
      cases hfree
    · exact h.clean
  | closeSession fault =>
    unfold slotStep
    dsimp only
    split
    · next hlive =>
      intro _
      obtain ⟨session, hsession⟩ := Option.isSome_iff_exists.mp hlive
      exact (closed_clean_iff (h.steady session hsession) hlive fault).mpr hclean
    · exact h.clean

/-- **One call.** -/
theorem slotStep_tidy {act : SessionAct} {slot : Slot} (h : Tidy slot)
    (hclean : ClosesClean act slot) : Tidy (slotStep act slot) :=
  ⟨slotStep_held act h.held, slotStep_steady h, slotStep_clean h hclean⟩

theorem runsAsGiven_of_tidy {act : SessionAct} {slot : Slot} (h : Tidy slot) :
    RunsAsGiven act slot := by
  cases act with
  | execute statement fails =>
    intro session hsession _
    exact (h.steady session hsession).1
  | openSession username locale fault => exact trivial
  | closeSession fault => exact trivial

theorem newPool_tidy {poolSize : ℕ} : ∀ slot ∈ newPool poolSize, Tidy slot := by
  intro slot hslot
  rw [List.eq_of_mem_replicate hslot]
  refine ⟨?_, ?_, ?_⟩
  · rintro ⟨⟩
  · rintro session ⟨⟩
  · intro _
    exact ⟨rfl, by rintro saved ⟨⟩⟩

theorem run_tidy {poolSize : ℕ} {calls : List SessionCall}
    (h : sessionMachine.Along (AtSlot ClosesClean) (newPool poolSize) calls) :
    (∀ slot ∈ sessionMachine.run (newPool poolSize) calls, Tidy slot) ∧
      sessionMachine.Along (AtSlot RunsAsGiven) (newPool poolSize) calls := by
  apply sessionMachine.along_of_invariant (fun pool => ∀ slot ∈ pool, Tidy slot)
    (AtSlot ClosesClean)
  · intro pool call hpool hclean
    apply (forall_modify_iff hpool call.slot _).mpr
    intro slot hslot
    exact slotStep_tidy (hpool slot (List.mem_of_getElem? hslot)) (hclean slot hslot)
  · intro pool call hpool slot hslot
    exact runsAsGiven_of_tidy (hpool slot (List.mem_of_getElem? hslot))
  · exact newPool_tidy
  · exact h

/-! ## What a session leaves behind -/

/-- The calls for one position, as a machine of their own. -/
def slotMachine : Machine Slot SessionAct Unit where
  step slot act := (slotStep act slot, ())

theorem along_slot {P : SessionAct → Slot → Prop} {pool : List Slot} {i : ℕ} {slot : Slot}
    (hslot : pool[i]? = some slot) (acts : List SessionAct)
    (h : sessionMachine.Along (AtSlot P) pool (acts.map (SessionCall.mk i))) :
    slotMachine.Along (fun slot act => P act slot) slot acts := by
  induction acts generalizing pool slot with
  | nil => exact trivial
  | cons act acts ih =>
    refine ⟨h.1 slot hslot, ih ?_ h.2⟩
    show (pool.modify i (slotStep act))[i]? = _
    rw [List.getElem?_modify, hslot]
    simp [slotMachine]

/-- **A connection that is given back and is not clean** is found by a later session. -/
theorem exists_leak (slot : Slot) (hfree : slot.leased = false) (hc : ¬ Clean slot.connection) :
    ∃ acts, ¬ slotMachine.Along (fun slot act => RunsAsGiven act slot) slot acts := by
  obtain ⟨⟨vars, transaction⟩, leased, session⟩ := slot
  obtain rfl : leased = false := hfree
  cases transaction with
  | idle =>
    have hvars : vars ≠ unset := fun h => hc ⟨h, by rintro saved ⟨⟩⟩
    refine ⟨[.openSession [] [] none, .execute .work false], ?_⟩
    rintro ⟨-, hwork, -⟩
    exact hvars ((hwork ([], []) rfl (by rintro ⟨⟩)).trans given_nil)
  | aborted =>
    have hvars : vars ≠ unset := fun h => hc ⟨h, by rintro saved ⟨⟩⟩
    refine ⟨[.openSession [] [] none, .execute .rollback false, .execute .work false], ?_⟩
    rintro ⟨-, -, hwork, -⟩
    exact hvars ((hwork ([], []) rfl (by rintro ⟨⟩)).trans given_nil)
  | started saved =>
    by_cases hsaved : saved = unset
    · -- the name of the next session is taken back with the old transaction
      refine ⟨[.openSession (W "x") [] none, .execute .rollback false, .execute .work false], ?_⟩
      rintro ⟨-, -, hwork, -⟩
      have hx : saved = given (W "x", []) := hwork (W "x", []) rfl (by rintro ⟨⟩)
      rw [hsaved] at hx
      exact absurd (congrFun hx .currentUser) (by decide)
    · refine ⟨[.openSession [] [] none, .execute .rollback false, .execute .work false], ?_⟩
      rintro ⟨-, -, hwork, -⟩
      exact hsaved ((hwork ([], []) rfl (by rintro ⟨⟩)).trans given_nil)

/-- A run that has been clean goes wrong in some continuation after a close that is not. -/
theorem exists_leak_of_unclean {poolSize : ℕ} {calls : List SessionCall} {call : SessionCall}
    (hcalls : sessionMachine.Along (AtSlot ClosesClean) (newPool poolSize) calls)
    (hcall : ¬ AtSlot ClosesClean (sessionMachine.run (newPool poolSize) calls) call) :
    ∃ more, ¬ sessionMachine.Along (AtSlot RunsAsGiven) (newPool poolSize)
      (calls ++ call :: more) := by
  set pool := sessionMachine.run (newPool poolSize) calls with hpool
  obtain ⟨slot, hslot, hunclean⟩ : ∃ slot, pool[call.slot]? = some slot ∧
      ¬ ClosesClean call.act slot := by
    unfold AtSlot at hcall
    push Not at hcall
    exact hcall
  have htidy := (run_tidy hcalls).1 slot (List.mem_of_getElem? hslot)
  obtain ⟨i, act⟩ := call
  cases act with
  | openSession username locale fault => exact absurd trivial hunclean
  | execute statement fails => exact absurd trivial hunclean
  | closeSession fault =>
    have hlive : slot.session.isSome = true := by
      by_contra hdead
      exact hunclean fun h => absurd h hdead
    obtain ⟨session, hsession⟩ := Option.isSome_iff_exists.mp hlive
    have hleft := (closed_clean_iff (htidy.steady session hsession) hlive fault).not.mpr hunclean
    obtain ⟨acts, hacts⟩ := exists_leak (ScopedSession.destructAt slot fault) rfl hleft
    refine ⟨acts.map (SessionCall.mk i), ?_⟩
    intro halong
    obtain ⟨-, -, hrest⟩ := (sessionMachine.along_append _ _ _ _).mp halong
    apply hacts
    apply along_slot _ acts hrest
    show (pool.modify i (slotStep (.closeSession fault)))[i]? = _
    rw [List.getElem?_modify, hslot]
    simp [slotStep, hlive]

/-- **Main result.**  In a run whose sessions are all closed clean, every statement that the
server takes runs with the variables of its session; and after the first one that is not, the
run has a continuation where some statement does not. -/
theorem no_identity_leaks (poolSize : ℕ) (calls : List SessionCall)
    (hcalls : sessionMachine.Along (AtSlot ClosesClean) (newPool poolSize) calls) :
    sessionMachine.Along (AtSlot RunsAsGiven) (newPool poolSize) calls ∧
      ∀ call, ¬ AtSlot ClosesClean (sessionMachine.run (newPool poolSize) calls) call →
        ∃ more, ¬ sessionMachine.Along (AtSlot RunsAsGiven) (newPool poolSize)
          (calls ++ call :: more) :=
  ⟨(run_tidy hcalls).2, fun _ hcall => exists_leak_of_unclean hcalls hcall⟩

/-- A transaction that fails, and is rolled back before the session is closed. -/
theorem no_identity_leaks_rollback :
    let calls : List SessionCall := [⟨0, .openSession (W "alice") [] none⟩,
      ⟨0, .execute .begin false⟩, ⟨0, .execute .work true⟩, ⟨0, .execute .rollback false⟩,
      ⟨0, .closeSession none⟩, ⟨0, .openSession [] [] none⟩, ⟨0, .execute .work false⟩]
    sessionMachine.Along (AtSlot RunsAsGiven) (newPool 1) calls ∧
      ∀ call, ¬ AtSlot ClosesClean (sessionMachine.run (newPool 1) calls) call →
        ∃ more, ¬ sessionMachine.Along (AtSlot RunsAsGiven) (newPool 1)
          (calls ++ call :: more) := by
  apply no_identity_leaks
  refine ⟨?_, ?_, ?_, ?_, ?_, ?_, ?_, trivial⟩
  case refine_5 =>
    rintro slot ⟨⟩ _
    exact trivial
  all_goals
    rintro slot ⟨⟩
    exact trivial

/-- The same without the rollback: `RESET` is rejected, and the next client, who gives no name,
works as alice once the transaction is rolled back. -/
theorem not_no_identity_leaks_aborted :
    ¬ sessionMachine.Along (AtSlot RunsAsGiven) (newPool 1)
      [⟨0, .openSession (W "alice") [] none⟩, ⟨0, .execute .begin false⟩,
        ⟨0, .execute .work true⟩, ⟨0, .closeSession none⟩, ⟨0, .openSession [] [] none⟩,
        ⟨0, .execute .rollback false⟩, ⟨0, .execute .work false⟩] := by
  rintro ⟨-, -, -, -, -, -, hwork, -⟩
  have hvars := hwork _ rfl ([], []) rfl (by rintro ⟨⟩)
  exact absurd (congrFun hvars .currentUser) (by decide)

end Pensar.Analysis
