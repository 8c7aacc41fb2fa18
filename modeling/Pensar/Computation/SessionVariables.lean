import Mathlib.Tactic

/-!
# Session variables and transactions

A connection to a database server keeps the values of session variables.  A value set outside
a transaction persists; one set inside is taken back when the transaction is rolled back or
fails.  While a transaction is aborted, the server takes only the end of it.

`execute_steady`: statements that set nothing leave the variables what they were, and what a
rollback would make of them.
-/

set_option autoImplicit false

namespace Pensar.Computation.SessionVariables

section

variable (ν α : Type)

/-- The transaction of a connection; `saved` is what a rollback makes of the variables. -/
inductive Transaction where
  | idle
  | started (saved : ν → Option α)
  | aborted

structure Connection where
  vars : ν → Option α
  transaction : Transaction ν α

inductive Statement where
  | begin
  | commit
  | rollback
  | set (v : ν) (a : α)
  | reset (v : ν)
  | work

end

variable {ν α : Type} [DecidableEq ν]

def unset : ν → Option α := fun _ => none

/-- A new connection. -/
def Connection.new : Connection ν α := ⟨unset, .idle⟩

def Connection.assign (c : Connection ν α) (v : ν) (a : Option α) : Connection ν α :=
  { c with vars := Function.update c.vars v a }

/-- One statement, which fails by itself if `fails`; the answer says whether it was
executed. -/
def execute (c : Connection ν α) (statement : Statement ν α) (fails : Bool) :
    Connection ν α × Bool :=
  match c.transaction with
  | .idle =>
    if fails then
      (c, false)
    else
      match statement with
      | .begin => ({ c with transaction := .started c.vars }, true)
      | .set v a => (c.assign v (some a), true)
      | .reset v => (c.assign v none, true)
      | _ => (c, true)
  | .started saved =>
    match statement with
    | .rollback => (⟨saved, .idle⟩, true)
    | .commit => if fails then (⟨saved, .idle⟩, false) else ({ c with transaction := .idle }, true)
    | statement =>
      if fails then
        (⟨saved, .aborted⟩, false)
      else
        match statement with
        | .set v a => (c.assign v (some a), true)
        | .reset v => (c.assign v none, true)
        | _ => (c, true)
  | .aborted =>
    match statement with
    | .rollback => ({ c with transaction := .idle }, true)
    | .commit => ({ c with transaction := .idle }, true)
    | _ => (c, false)

/-- The statements that set no variable. -/
def SetsNothing : Statement ν α → Prop
  | .set _ _ => False
  | .reset _ => False
  | _ => True

/-- The variables are `x`, and a rollback leaves them so. -/
def Steady (c : Connection ν α) (x : ν → Option α) : Prop :=
  c.vars = x ∧ ∀ saved, c.transaction = .started saved → saved = x

theorem execute_steady {c : Connection ν α} {x : ν → Option α} (h : Steady c x)
    {statement : Statement ν α} (hs : SetsNothing statement) (fails : Bool) :
    Steady (execute c statement fails).1 x := by
  obtain ⟨vars, transaction⟩ := c
  obtain ⟨rfl, hsaved⟩ := h
  cases transaction with
  | idle =>
    cases statement <;> cases fails <;>
      simp_all [execute, SetsNothing, Steady]
  | started saved =>
    obtain rfl : saved = vars := hsaved saved rfl
    cases statement <;> cases fails <;>
      simp_all [execute, SetsNothing, Steady]
  | aborted =>
    cases statement <;> simp_all [execute, SetsNothing, Steady]

@[simp] theorem execute_idle_set (x : ν → Option α) (v : ν) (a : α) :
    execute ⟨x, .idle⟩ (.set v a) false = (⟨Function.update x v (some a), .idle⟩, true) := rfl

@[simp] theorem execute_idle_reset (x : ν → Option α) (v : ν) :
    execute ⟨x, .idle⟩ (.reset v) false = (⟨Function.update x v none, .idle⟩, true) := rfl

@[simp] theorem execute_idle_fails (x : ν → Option α) (statement : Statement ν α) :
    execute ⟨x, .idle⟩ statement true = (⟨x, .idle⟩, false) := rfl

@[simp] theorem execute_started_set (x saved : ν → Option α) (v : ν) (a : α) :
    execute ⟨x, .started saved⟩ (.set v a) false =
      (⟨Function.update x v (some a), .started saved⟩, true) := rfl

@[simp] theorem execute_started_reset (x saved : ν → Option α) (v : ν) :
    execute ⟨x, .started saved⟩ (.reset v) false =
      (⟨Function.update x v none, .started saved⟩, true) := rfl

@[simp] theorem execute_started_set_fails (x saved : ν → Option α) (v : ν) (a : α) :
    execute ⟨x, .started saved⟩ (.set v a) true = (⟨saved, .aborted⟩, false) := rfl

@[simp] theorem execute_started_reset_fails (x saved : ν → Option α) (v : ν) :
    execute ⟨x, .started saved⟩ (.reset v) true = (⟨saved, .aborted⟩, false) := rfl

@[simp] theorem execute_aborted_set (x : ν → Option α) (v : ν) (a : α) (fails : Bool) :
    execute ⟨x, .aborted⟩ (.set v a) fails = (⟨x, .aborted⟩, false) := rfl

@[simp] theorem execute_aborted_reset (x : ν → Option α) (v : ν) (fails : Bool) :
    execute ⟨x, .aborted⟩ (.reset v) fails = (⟨x, .aborted⟩, false) := rfl

end Pensar.Computation.SessionVariables
