import Pensar.Computation.Machine

/-!
# First-in first-out queues

A queue holds a list, oldest element first.  `put` appends, `take n` removes the `n`
oldest elements or fails and changes nothing, `refill` throws everything away and
starts again from a given list.

`Queue.conservation` is the queue law: as long as nothing is thrown away, what was
taken followed by what is left is what was there followed by what was put, so no
element is lost, duplicated or reordered.  `Queue.content` is the second thing one
can ask of such a history: everything put since the last refill, taken or not.
-/

set_option autoImplicit false

namespace Pensar.Computation.Queue

variable {α : Type}

inductive Op (α : Type) where
  | put (xs : List α)
  | take (n : ℕ)
  | refill (xs : List α)

inductive Reply (α : Type) where
  | done
  | taken (xs : List α)
  | failed
  deriving DecidableEq, Repr

def machine (α : Type) : Machine (List α) (Op α) (Reply α) where
  step q
    | .put xs => (q ++ xs, .done)
    | .take n => if n ≤ q.length then (q.drop n, .taken (q.take n)) else (q, .failed)
    | .refill xs => (xs, .done)

@[simp] theorem step_put (q xs : List α) : (machine α).step q (.put xs) = (q ++ xs, .done) := rfl

@[simp] theorem step_refill (q xs : List α) : (machine α).step q (.refill xs) = (xs, .done) := rfl

theorem step_take_of_le {q : List α} {n : ℕ} (h : n ≤ q.length) :
    (machine α).step q (.take n) = (q.drop n, .taken (q.take n)) := if_pos h

theorem step_take_of_lt {q : List α} {n : ℕ} (h : q.length < n) :
    (machine α).step q (.take n) = (q, .failed) := if_neg (by omega)

def Op.input : Op α → List α
  | .put xs => xs
  | _ => []

def Reply.output : Reply α → List α
  | .taken xs => xs
  | _ => []

/-- Nothing is thrown away by this operation. -/
def Op.Keeps : Op α → Prop
  | .refill _ => False
  | _ => True

theorem step_conservation (q : List α) (op : Op α) (h : op.Keeps) :
    q ++ op.input = ((machine α).step q op).2.output ++ ((machine α).step q op).1 := by
  cases op with
  | put xs => simp [Op.input, Reply.output]
  | take n =>
    by_cases hn : n ≤ q.length
    · simp [step_take_of_le hn, Op.input, Reply.output]
    · simp [step_take_of_lt (by omega : q.length < n), Op.input, Reply.output]
  | refill xs => exact h.elim

/-- **The queue law.** -/
theorem conservation (q : List α) (ops : List (Op α)) (h : ∀ op ∈ ops, op.Keeps) :
    q ++ ops.flatMap Op.input =
      ((machine α).outputs q ops).flatMap Reply.output ++ (machine α).run q ops := by
  induction ops generalizing q with
  | nil => simp
  | cons op ops ih =>
    have hop := step_conservation q op (h op (by simp))
    have hrest := ih ((machine α).step q op).1 (fun o ho => h o (by simp [ho]))
    calc q ++ (op :: ops).flatMap Op.input
        = ((machine α).step q op).2.output ++
            (((machine α).step q op).1 ++ ops.flatMap Op.input) := by
          rw [List.flatMap_cons, ← List.append_assoc, hop, List.append_assoc]
      _ = _ := by
          rw [hrest]
          simp [List.flatMap_cons, List.append_assoc]

/-- What `take`s hand out is, in order, the front of the queue. -/
theorem takes_prefix (q : List α) (ns : List ℕ) :
    ((machine α).outputs q (ns.map .take)).flatMap Reply.output <+: q := by
  have hkeeps : ∀ op ∈ ns.map (Op.take (α := α)), op.Keeps := by
    simp [Op.Keeps]
  have hinput : (ns.map (Op.take (α := α))).flatMap Op.input = [] := by
    simp [Op.input]
  have hlaw := conservation q (ns.map .take) hkeeps
  rw [hinput, List.append_nil] at hlaw
  exact ⟨_, hlaw.symm⟩

/-! ## The content of a history -/

/-- Everything put since the last refill, whether or not it was taken again. -/
def contentMachine (α : Type) : Machine (List α) (Op α) Unit where
  step c
    | .put xs => (c ++ xs, ())
    | .take _ => (c, ())
    | .refill xs => (xs, ())

def content (ops : List (Op α)) : List α := (contentMachine α).run [] ops

end Pensar.Computation.Queue
