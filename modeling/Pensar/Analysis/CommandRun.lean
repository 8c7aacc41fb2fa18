import Pensar.Interface.CommandTree

/-!
# Running and undoing command trees

`run` of a well built tree runs its leaves in order and stops at the first that throws
(`run_runs`); `undo` of a tree that ran undoes the leaves, in the same order
(`undo_ran`).  So `CompositeCommand::_run` undoes nothing when a child throws, and
`CompositeCommand::_undo` walks forward over what was done forward.

Main results: `rollsBack_iff` says which runs change nothing when they throw,
`roundTrips_iff` which runs `undo` leads back from.
-/

set_option autoImplicit false

namespace Pensar.Analysis

open Pensar.Computation
open Pensar.Model
open Pensar.Interface
open Undoable (runAll undoAll transact)

variable {σ ε : Type}

/-! ## Commands of `command_test.cpp`

They act on `cmd_test_value`, which the tests keep far from the bounds of an `int`. -/

/-- SOURCE: cpp/src/test/command_test.cpp:36-37 -/
def incCmd : Undoable ℤ String := ⟨fun s => .done (s + 1), fun s => .done (s - 1)⟩

def fresh (a : Undoable ℤ String) : Command (Undoable ℤ String) := .leaf ⟨⟨1⟩, .UNKNOWN⟩ a

def group (children : List (Command (Undoable ℤ String))) : Command (Undoable ℤ String) :=
  .composite (ofChildren ⟨⟨2⟩, .UNKNOWN⟩ children)

/-! ## Running -/

/-- What a call of `run` does to a well built command. -/
structure Runs (c : Command (Undoable σ ε)) (s : σ) (r : RunResult (Command (Undoable σ ε)) σ ε) :
    Prop where
  run : c.run s = .value r
  attempt : attempt r = runAll (leaves c) s
  built : WellBuilt r.cmd
  leaves : leaves r.cmd = leaves c
  ran : r.thrown = none → Ran r.cmd

/-- What the loop of `CompositeCommand::_run` does to the children; their number stays. -/
structure RunsChildren (cs : List (Command (Undoable σ ε)))
    (rest : List (Ptr (Command (Undoable σ ε)))) (s : σ)
    (r : RunResult (List (Command (Undoable σ ε))) σ ε) : Prop where
  run : runFrom (cs.map .live ++ rest) cs.length s =
    .value ⟨r.cmd.map .live ++ rest, r.state, r.thrown⟩
  attempt : attempt r = runAll (cs.flatMap Interface.leaves) s
  length : r.cmd.length = cs.length
  built : ∀ c ∈ r.cmd, WellBuilt c
  leaves : r.cmd.flatMap Interface.leaves = cs.flatMap Interface.leaves
  ran : r.thrown = none → ∀ c ∈ r.cmd, Ran c

theorem runFrom_runs (cs : List (Command (Undoable σ ε)))
    (rest : List (Ptr (Command (Undoable σ ε)))) (hbuilt : ∀ c ∈ cs, WellBuilt c)
    (hruns : ∀ c ∈ cs, ∀ s, ∃ r, Runs c s r) (s : σ) :
    ∃ r, RunsChildren cs rest s r := by
  induction cs generalizing s with
  | nil =>
    refine ⟨⟨[], s, none⟩, ?_⟩
    exact
      { run := by simp [runFrom]
        attempt := rfl
        length := rfl
        built := by simp
        leaves := rfl
        ran := by simp }
  | cons c cs ih =>
    obtain ⟨⟨c', t, thrown⟩, hc⟩ := hruns c (by simp) s
    have hattempt := hc.attempt
    cases thrown with
    | some e =>
      -- the loop ends here: the remaining children are as they were
      simp only [Interface.attempt] at hattempt
      refine ⟨⟨c' :: cs, t, some e⟩, ?_⟩
      exact
        { run := by simp [runFrom, hc.run]
          attempt := by simp [Interface.attempt, Undoable.runAll_append, ← hattempt]
          length := rfl
          built := by
            intro d hd
            rcases List.mem_cons.mp hd with rfl | hd
            · exact hc.built
            · exact hbuilt d (by simp [hd])
          leaves := by simp [hc.leaves]
          ran := by simp }
    | none =>
      simp only [Interface.attempt] at hattempt
      obtain ⟨⟨cs', u, thrown⟩, hcs⟩ := ih (fun d hd => hbuilt d (by simp [hd]))
        (fun d hd => hruns d (by simp [hd])) t
      refine ⟨⟨c' :: cs', u, thrown⟩, ?_⟩
      exact
        { run := by simp [runFrom, hc.run, hcs.run]
          attempt := by
            have hrest := hcs.attempt
            simp only [List.flatMap_cons, Undoable.runAll_append, ← hattempt,
              Attempt.done_andThen, ← hrest]
            rfl
          length := by simp [hcs.length]
          built := by
            intro d hd
            rcases List.mem_cons.mp hd with rfl | hd
            · exact hc.built
            · exact hcs.built d hd
          leaves := by simp [hc.leaves, hcs.leaves]
          ran := by
            intro hnone d hd
            rcases List.mem_cons.mp hd with rfl | hd
            · exact hc.ran rfl
            · exact hcs.ran hnone d hd }

theorem runs_afterRun {c : Command (Undoable σ ε)} {s : σ}
    {r : RunResult (Command (Undoable σ ε)) σ ε} (hrun : c.run s = .value (afterRun r))
    (hattempt : attempt r = runAll (leaves c) s) (hbuilt : WellBuilt r.cmd)
    (hleaves : leaves r.cmd = leaves c) (hran : r.thrown = none → Ran r.cmd.setOk) :
    Runs c s (afterRun r) := by
  obtain ⟨cmd, t, thrown⟩ := r
  cases thrown with
  | some e => exact ⟨hrun, hattempt, hbuilt, hleaves, by simp [afterRun]⟩
  | none =>
    exact ⟨hrun, hattempt, wellBuilt_setOk hbuilt, by simpa [afterRun] using hleaves,
      fun _ => hran rfl⟩

/-- **`run` runs the leaves in order**, up to the first that throws. -/
theorem run_runs {c : Command (Undoable σ ε)} (hc : WellBuilt c) (s : σ) : ∃ r, Runs c s r := by
  induction hc generalizing s with
  | leaf base a =>
    refine ⟨afterRun (runLeaf base a s), runs_afterRun (by rw [Command.run]) ?_ ?_ ?_ ?_⟩
    · cases ha : a.run s <;> simp [runLeaf, ha, attempt, leaves]
    · cases ha : a.run s <;> simp only [runLeaf, ha] <;> exact .leaf base a
    · cases ha : a.run s <;> simp only [runLeaf, ha, leaves]
    · cases ha : a.run s <;> simp only [runLeaf, ha] <;> intro _ <;> exact .leaf _ a rfl
  | null base =>
    exact ⟨_, runs_afterRun (r := ⟨.null base, s, none⟩) (by rw [Command.run]) rfl (.null base) rfl
      (fun _ => .null _)⟩
  | composite base children rest hlen hbuilt ih =>
    obtain ⟨⟨children', t, thrown⟩, h⟩ := runFrom_runs children rest hbuilt ih s
    have hlength : children'.length = children.length := h.length
    refine ⟨_, runs_afterRun
      (r := ⟨.composite ⟨base, children'.map .live ++ rest, children'.length⟩, t, thrown⟩)
      ?_ ?_ ?_ ?_ ?_⟩
    · rw [Command.run, h.run, hlength]
      rfl
    · rw [leaves_composite]
      exact h.attempt
    · refine .composite base children' rest ?_ h.built
      simpa [hlength] using hlen
    · rw [leaves_composite, leaves_composite]
      exact h.leaves
    · intro hnone
      exact .composite base.setOk children' rest rfl (h.ran hnone)

/-! ## Undoing -/

theorem undoFrom_ran (cs : List (Command (Undoable σ ε)))
    (rest : List (Ptr (Command (Undoable σ ε))))
    (hundo : ∀ c ∈ cs, ∀ s, c.undo s = .value (undoAll (leaves c) s)) (s : σ) :
    undoFrom (cs.map .live ++ rest) cs.length s = .value (undoAll (cs.flatMap leaves) s) := by
  induction cs generalizing s with
  | nil => simp [undoFrom]
  | cons c cs ih =>
    have hcs := ih fun d hd => hundo d (by simp [hd])
    rw [List.map_cons, List.cons_append, List.length_cons, undoFrom, hundo c (by simp) s,
      List.flatMap_cons, Undoable.undoAll_append]
    cases undoAll (leaves c) s with
    | done t => exact hcs t
    | threw e t => rfl

/-- **`undo` undoes the leaves, in the order in which they ran.** -/
theorem undo_ran {c : Command (Undoable σ ε)} (hc : Ran c) (s : σ) :
    c.undo s = .value (undoAll (leaves c) s) := by
  induction hc generalizing s with
  | leaf base a hok =>
    unfold Command.undo
    rw [leaves, Undoable.undoAll_singleton]
    simp [hok, Bool8.toBool]
  | null base => rfl
  | composite base children rest hok _ ih =>
    unfold Command.undo
    rw [leaves_composite, undoFrom_ran children rest ih s]
    simp [hok, Bool8.toBool]

/-! ## Is a composite a transaction? -/

/-- A composite rolls back where it does what a transaction of its leaves does. -/
theorem rollsBack_iff_transact {c : Command (Undoable σ ε)} (hc : WellBuilt c)
    (hinv : ∀ a ∈ leaves c, a.Inverts) (hatom : ∀ a ∈ leaves c, a.Atomic) (s : σ) :
    RollsBack c s ↔ ∃ r, c.run s = .value r ∧ attempt r = transact (leaves c) s := by
  obtain ⟨r, hr⟩ := run_runs hc s
  have hattempt := hr.attempt
  constructor
  · rintro ⟨r', hr', hback⟩
    obtain rfl : r = r' := by simpa [hr.run] using hr'
    refine ⟨r, hr.run, ?_⟩
    cases hthrown : r.thrown with
    | none =>
      simp only [attempt, hthrown] at hattempt ⊢
      exact ((Undoable.transact_done_iff _ _ _).mpr hattempt.symm).symm
    | some e =>
      simp only [attempt, hthrown] at hattempt ⊢
      rw [Undoable.transact_threw _ hinv hatom hattempt.symm, hback (by simp [hthrown])]
  · rintro ⟨r', hr', htransact⟩
    refine ⟨r', hr', ?_⟩
    intro hsome
    obtain ⟨e, he⟩ := Option.isSome_iff_exists.mp hsome
    simp only [attempt, he] at htransact
    exact Undoable.transact_atomic _ hinv hatom htransact.symm

theorem roundTrips_iff_undoAll {c : Command (Undoable σ ε)} (hc : WellBuilt c) {s t : σ}
    (ht : runAll (leaves c) s = .done t) :
    RoundTrips c s ↔ undoAll (leaves c) t = .done s := by
  obtain ⟨⟨c', t', thrown⟩, hr⟩ := run_runs hc s
  have hattempt := hr.attempt
  rw [ht] at hattempt
  cases thrown with
  | some e => simp [attempt] at hattempt
  | none =>
    obtain rfl : t' = t := by simpa [attempt] using hattempt
    have hundo : c'.undo t' = .value (undoAll (leaves c) t') := by
      rw [undo_ran (hr.ran rfl), hr.leaves]
    constructor
    · rintro ⟨r, hrun, -, hback⟩
      obtain rfl : ⟨c', t', none⟩ = r := by simpa [hr.run] using hrun
      simpa [hundo] using hback
    · intro hback
      exact ⟨_, hr.run, rfl, by rw [hundo, hback]⟩

/-- Undos that commute lead back. -/
theorem roundTrips_of_commute {c : Command (Undoable σ ε)} (hc : WellBuilt c)
    (hleaves : ∀ a ∈ leaves c, a.Inverts ∧ a.Total)
    (hcommute : ∀ a ∈ leaves c, ∀ b ∈ leaves c, Undoable.UndosCommute a b) (s : σ) :
    RoundTrips c s := by
  obtain ⟨t, ht⟩ := Undoable.runAll_total (leaves c) (fun a ha => (hleaves a ha).2) s
  rw [roundTrips_iff_undoAll hc ht,
    Undoable.undoAll_perm (List.reverse_perm (leaves c)).symm hcommute t]
  exact Undoable.undoAll_reverse (leaves c) (fun a ha => (hleaves a ha).1) ht

end Pensar.Analysis
