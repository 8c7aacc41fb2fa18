import Pensar.Analysis.CommandRun

/-!
# When does `undo` undo?

`undo` looks at the run flag, which a run that ends normally sets and which nothing takes
back: not `undo`, and not a later run that throws.  So along any sequence of calls the flag
says whether some run so far ended normally (`history_invoked_iff`).

What a caller expects is that `undo` takes back the run before it, if that is `Due`.

Main result: `protocol_iff` says which sequences of calls keep to that.
-/

set_option autoImplicit false

namespace Pensar.Analysis.RunUndo

open Pensar.Computation
open Pensar.Model
open Pensar.Interface

variable {σ ε : Type}

/-! ## The calls -/

/-- `_undo` of the class.
SOURCE: cpp/src/command.hpp:162,212,350-356 -/
def undoBody : Command (Undoable σ ε) → σ → Outcome (Attempt σ ε)
  | .leaf _ a, s => .value (a.undo s)
  | .null _, s => .value (.done s)
  | .composite ⟨_, mcommands, mindex⟩, s => undoFrom mcommands mindex s

/-- `undo` is `_undo` behind a look at the flag. -/
theorem undo_eq_undoBody (c : Command (Undoable σ ε)) (s : σ) :
    c.undo s = if c.base.mok.toBool then undoBody c s else .value (.done s) := by
  cases c with
  | leaf base a =>
    rw [Command.undo, Command.base, undoBody]
    split <;> rfl
  | null base => simp [Command.undo, undoBody]
  | composite cc =>
    obtain ⟨base, mcommands, mindex⟩ := cc
    rw [Command.undo, Command.base, undoBody]

inductive Call where
  | run
  | undo

/-- What became of a call: whether `run` ended normally, whether `undo` called `_undo`. -/
inductive Event where
  | run (ok : Bool)
  | undo (invoked : Bool)
  deriving DecidableEq

/-- The command and the state after the call, and what became of it. -/
def call (c : Command (Undoable σ ε)) (s : σ) :
    Call → Outcome (Command (Undoable σ ε) × σ × Event)
  | .run => do
    let r ← c.run s
    pure (r.cmd, r.state, .run r.thrown.isNone)
  | .undo =>
    if c.base.mok.toBool then do
      let x ← undoBody c s
      pure (c, x.state, .undo true)
    else
      pure (c, s, .undo false)

/-- One call after another; an exception ends the call, not the sequence. -/
def history : Command (Undoable σ ε) → σ → List Call → Outcome (List Event)
  | _, _, [] => .value []
  | c, s, i :: calls => do
    let (c, s, e) ← call c s i
    let events ← history c s calls
    pure (e :: events)

/-! ## What a caller expects -/

/-- The most recent run ended normally, and nothing was called since. -/
def Due (past : List Event) : Prop := ∃ before, past = before ++ [.run true]

/-- Every `undo` calls `_undo` if and only if that is due. -/
def Protocol (events : List Event) : Prop :=
  ∀ past invoked rest, events = past ++ .undo invoked :: rest → (invoked = true ↔ Due past)

/-- Every `undo` comes directly after a run that ended normally, or on a command whose flag was
not set at the start, before any run ended normally. -/
def Orderly (c : Command (Undoable σ ε)) (events : List Event) : Prop :=
  ∀ past invoked rest, events = past ++ .undo invoked :: rest →
    Due past ∨ (c.base.mok ≠ .T ∧ .run true ∉ past)

/-! ## Calls on well built commands -/

theorem undoFrom_value (cs : List (Command (Undoable σ ε)))
    (rest : List (Ptr (Command (Undoable σ ε))))
    (hundo : ∀ c ∈ cs, ∀ s, ∃ x, c.undo s = .value x) (s : σ) :
    ∃ x, undoFrom (cs.map .live ++ rest) cs.length s = .value x := by
  induction cs generalizing s with
  | nil => exact ⟨.done s, by simp [undoFrom]⟩
  | cons c cs ih =>
    obtain ⟨x, hx⟩ := hundo c (by simp) s
    cases x with
    | done t =>
      obtain ⟨y, hy⟩ := ih (fun d hd => hundo d (by simp [hd])) t
      exact ⟨y, by simp [undoFrom, hx, hy]⟩
    | threw e t => exact ⟨.threw e t, by simp [undoFrom, hx]⟩

theorem undoBody_value {c : Command (Undoable σ ε)} (hc : WellBuilt c) (s : σ) :
    ∃ x, undoBody c s = .value x := by
  induction hc generalizing s with
  | leaf base a => exact ⟨a.undo s, rfl⟩
  | null base => exact ⟨.done s, rfl⟩
  | composite base children rest hlen hchildren ih =>
    refine undoFrom_value children rest ?_ s
    intro c hc t
    rw [undo_eq_undoBody]
    split
    · exact ih c hc t
    · exact ⟨_, rfl⟩

/-- A run that ends normally sets the flag; one that throws leaves it. -/
theorem run_flag {c : Command (Undoable σ ε)} {s : σ}
    {r : RunResult (Command (Undoable σ ε)) σ ε} (h : c.run s = .value r) :
    r.cmd.base.mok = if r.thrown.isNone then .T else c.base.mok := by
  have hafter : ∀ x : RunResult (Command (Undoable σ ε)) σ ε, x.cmd.base = c.base →
      (afterRun x).cmd.base.mok = if (afterRun x).thrown.isNone then .T else c.base.mok := by
    rintro ⟨cmd, t, thrown⟩ hbase
    cases thrown with
    | some e => simpa [afterRun] using congrArg CommandBase.mok hbase
    | none => cases cmd <;> simp [afterRun, Command.setOk, Command.base, CommandBase.setOk,
        CommandBase.mok]
  cases c with
  | leaf base a =>
    rw [Command.run] at h
    cases h
    apply hafter
    unfold runLeaf
    split <;> rfl
  | null base =>
    rw [Command.run] at h
    cases h
    exact hafter _ rfl
  | composite cc =>
    obtain ⟨base, mcommands, mindex⟩ := cc
    rw [Command.run] at h
    obtain ⟨x, -, hx⟩ := (Outcome.bind_eq_value_iff _ _ _).mp h
    cases hx
    exact hafter _ rfl

/-- What a call does: it ends, with a well built command. -/
structure Answers (c : Command (Undoable σ ε)) (c' : Command (Undoable σ ε)) (e : Event) :
    Prop where
  built : WellBuilt c'
  flag : c'.base.mok = .T ↔ c.base.mok = .T ∨ e = .run true
  invoked : ∀ invoked, e = .undo invoked → (invoked = true ↔ c.base.mok = .T)

/-- One call. -/
theorem call_answers {c : Command (Undoable σ ε)} (hc : WellBuilt c) (s : σ) (i : Call) :
    ∃ c' s' e, call c s i = .value (c', s', e) ∧ Answers c c' e := by
  cases i with
  | run =>
    obtain ⟨r, hr⟩ := run_runs hc s
    refine ⟨r.cmd, r.state, .run r.thrown.isNone, by simp [call, hr.run], hr.built, ?_, by simp⟩
    rw [run_flag hr.run]
    cases hthrown : r.thrown <;> simp
  | undo =>
    by_cases hok : c.base.mok = .T
    · obtain ⟨x, hx⟩ := undoBody_value hc s
      refine ⟨c, x.state, .undo true, by simp [call, hok, Bool8.toBool, hx], hc, ?_, ?_⟩
      · simp
      · rintro invoked ⟨⟩
        simp [hok]
    · refine ⟨c, s, .undo false, by simp [call, hok, Bool8.toBool], hc, ?_, ?_⟩
      · simp
      · rintro invoked ⟨⟩
        simp [hok]

/-! ## Sequences of calls -/

/-- **`undo` calls `_undo` if and only if the flag was set at the start or some run so far ended
normally.** -/
theorem history_invoked_iff {c : Command (Undoable σ ε)} (hc : WellBuilt c) (s : σ)
    (calls : List Call) :
    ∃ events, history c s calls = .value events ∧
      ∀ past invoked rest, events = past ++ .undo invoked :: rest →
        (invoked = true ↔ c.base.mok = .T ∨ .run true ∈ past) := by
  induction calls generalizing c s with
  | nil => exact ⟨[], rfl, by simp⟩
  | cons i calls ih =>
    obtain ⟨c', s', e, hcall, h⟩ := call_answers hc s i
    obtain ⟨events, hevents, hinvoked⟩ := ih h.built s'
    refine ⟨e :: events, by simp [history, hcall, hevents], ?_⟩
    intro past invoked rest hsplit
    cases past with
    | nil =>
      obtain ⟨rfl, -⟩ := List.cons.inj hsplit
      simpa using h.invoked invoked rfl
    | cons e' past =>
      obtain ⟨rfl, hrest⟩ := List.cons.inj hsplit
      rw [hinvoked past invoked rest hrest, h.flag, List.mem_cons, or_assoc, eq_comm (a := e)]

/-- **The calls keep to the protocol exactly when they are orderly.** -/
theorem protocol_iff {c : Command (Undoable σ ε)} (hc : WellBuilt c) (s : σ)
    (calls : List Call) :
    ∃ events, history c s calls = .value events ∧ (Protocol events ↔ Orderly c events) := by
  obtain ⟨events, hevents, hinvoked⟩ := history_invoked_iff hc s calls
  refine ⟨events, hevents, ?_⟩
  have hdue : ∀ past : List Event, Due past → .run true ∈ past := by
    rintro past ⟨before, rfl⟩
    simp
  constructor
  · intro h past invoked rest hsplit
    have hiff := (h past invoked rest hsplit).symm.trans (hinvoked past invoked rest hsplit)
    by_cases hnow : Due past
    · exact Or.inl hnow
    · have hnot := mt hiff.mpr hnow
      push Not at hnot
      exact Or.inr hnot
  · intro h past invoked rest hsplit
    rw [hinvoked past invoked rest hsplit]
    rcases h past invoked rest hsplit with hnow | ⟨hflag, hnone⟩
    · simp [hnow, hdue past hnow]
    · have hnot : ¬ Due past := fun hnow => hnone (hdue past hnow)
      simp [hflag, hnone, hnot]

/-- An undo of a new command, a run, an undo. -/
theorem protocol_inc :
    ∃ events, history (fresh incCmd) 0 [.undo, .run, .undo] = .value events ∧
      (Protocol events ↔ Orderly (fresh incCmd) events) :=
  protocol_iff (.leaf _ _) 0 [.undo, .run, .undo]

/-- The second `undo` goes below the start. -/
theorem not_protocol_undo_twice :
    ¬ ∀ c : Command (Undoable ℤ String), WellBuilt c → c.base.mok = .UNKNOWN →
      ∀ s calls events, history c s calls = .value events → Protocol events := by
  intro h
  have hprotocol := h (fresh incCmd) (.leaf _ _) rfl 0 [.run, .undo, .undo]
    [.run true, .undo true, .undo true] rfl
  obtain ⟨before, hbefore⟩ := (hprotocol [.run true, .undo true] true [] rfl).mp rfl
  have hlast := congrArg List.getLast? hbefore
  simp at hlast

end Pensar.Analysis.RunUndo
