import Pensar.Model.Command

/-!
# Command trees

`WellBuilt` is what the rest of the code takes for granted of a command object and
everything below it: a composite's array begins with its children, `mindex` counts them,
and they are well built themselves.  A new composite is well built, and `add` of a well
built command keeps it so (`wellBuilt_new`, `wellBuilt_add`).  `Represented` is the part
of it that concerns one array alone (`represented_of_wellBuilt`).

To its callers a command tree is the list of its leaves, the commands of classes that do
something, in the order in which a walk over the tree meets them (`leaves`).  What they
may expect of it is said in these terms: a run that throws has changed nothing
(`RollsBack`), and undoing a run that completed leads back (`RoundTrips`).
-/

set_option autoImplicit false

namespace Pensar.Interface

open Pensar.Computation
open Pensar.Model
open Pensar.Model.CompositeCommand (MAX_COMMANDS)

variable {L : Type}

/-- The first `mindex` pointers point to commands, down to the leaves. -/
inductive WellBuilt : Command L → Prop where
  | leaf (base : CommandBase) (cmd : L) : WellBuilt (.leaf base cmd)
  | null (base : CommandBase) : WellBuilt (.null base)
  | composite (base : CommandBase) (children : List (Command L)) (rest : List (Ptr (Command L)))
      (hlen : (children.map Ptr.live ++ rest).length = MAX_COMMANDS)
      (hchildren : ∀ c ∈ children, WellBuilt c) :
      WellBuilt (.composite ⟨base, children.map .live ++ rest, children.length⟩)

/-- What every member function of a composite relies on: the array is the one of the type,
`mindex` is a count of it, and the pointers it counts are not null. -/
structure Represented (cc : CompositeCommand (Command L)) : Prop where
  length : cc.mcommands.length = MAX_COMMANDS
  room : cc.mindex ≤ MAX_COMMANDS
  nonnull : ∀ p ∈ cc.mcommands.take cc.mindex, p ≠ .null

/-- A well built command whose run flags are set, all the way down. -/
inductive Ran : Command L → Prop where
  | leaf (base : CommandBase) (cmd : L) (hok : base.mok = .T) : Ran (.leaf base cmd)
  | null (base : CommandBase) : Ran (.null base)
  | composite (base : CommandBase) (children : List (Command L)) (rest : List (Ptr (Command L)))
      (hok : base.mok = .T) (hchildren : ∀ c ∈ children, Ran c) :
      Ran (.composite ⟨base, children.map .live ++ rest, children.length⟩)

/-- The commands hold the same: ids, run flags and children, at every level.  What stands
in an array behind the children does not count. -/
inductive Same : Command L → Command L → Prop where
  | leaf (base : CommandBase) (cmd : L) : Same (.leaf base cmd) (.leaf base cmd)
  | null (base : CommandBase) : Same (.null base) (.null base)
  | composite (base : CommandBase) (children children' : List (Command L))
      (rest rest' : List (Ptr (Command L))) (hlen : children.length = children'.length)
      (hsame : ∀ i (h : i < children.length) (h' : i < children'.length),
        Same children[i] children'[i]) :
      Same (.composite ⟨base, children.map .live ++ rest, children.length⟩)
        (.composite ⟨base, children'.map .live ++ rest', children'.length⟩)

mutual

/-- The leaves of a command, left to right. -/
def leaves : Command L → List L
  | .leaf _ cmd => [cmd]
  | .null _ => []
  | .composite ⟨_, mcommands, mindex⟩ => leavesFrom mcommands mindex

def leavesFrom : List (Ptr (Command L)) → ℕ → List L
  | _, 0 => []
  | .live c :: ps, n + 1 => leaves c ++ leavesFrom ps n
  | _, _ + 1 => []

end

theorem leavesFrom_children (children : List (Command L)) (rest : List (Ptr (Command L))) :
    leavesFrom (children.map .live ++ rest) children.length = children.flatMap leaves := by
  induction children with
  | nil => simp [leavesFrom]
  | cons c cs ih => simp [leavesFrom, ih]

@[simp] theorem leaves_composite (base : CommandBase) (children : List (Command L))
    (rest : List (Ptr (Command L))) :
    leaves (.composite ⟨base, children.map .live ++ rest, children.length⟩) =
      children.flatMap leaves := by
  rw [leaves, leavesFrom_children]

@[simp] theorem leaves_setOk (c : Command L) : leaves c.setOk = leaves c := by
  cases c <;> simp [Command.setOk, leaves]

theorem wellBuilt_setOk {c : Command L} (h : WellBuilt c) : WellBuilt c.setOk := by
  cases h with
  | leaf base cmd => exact .leaf _ cmd
  | null base => exact .null _
  | composite base children rest hlen hchildren => exact .composite _ children rest hlen hchildren

theorem represented_new (g : Generator) (aid : Id) :
    Represented (CompositeCommand.new g aid).1 (L := L) where
  length := List.length_replicate
  room := Nat.zero_le _
  nonnull := by simp [CompositeCommand.new]

theorem represented_of_wellBuilt {cc : CompositeCommand (Command L)}
    (hcc : WellBuilt (.composite cc)) : Represented cc := by
  generalize hcmd : Command.composite cc = cmd at hcc
  cases hcc with
  | leaf base cmd => cases hcmd
  | null base => cases hcmd
  | composite base children rest hlen hchildren =>
    cases hcmd
    have hcount : (children.map Ptr.live ++ rest).take children.length = children.map .live :=
      List.take_left' (List.length_map _)
    refine ⟨hlen, ?_, ?_⟩
    · rw [List.length_append, List.length_map] at hlen
      show children.length ≤ MAX_COMMANDS
      omega
    · intro p hp
      rw [hcount] at hp
      obtain ⟨c, -, rfl⟩ := List.mem_map.mp hp
      simp

theorem wellBuilt_new (g : Generator) (aid : Id) :
    WellBuilt (.composite (CompositeCommand.new g aid).1 : Command L) := by
  have h := WellBuilt.composite (L := L) (CommandBase.new g aid).1 []
    (List.replicate MAX_COMMANDS .null) (by simp) (by simp)
  exact h

theorem wellBuilt_add {cc cc' : CompositeCommand (Command L)} {c : Command L}
    (hcc : WellBuilt (.composite cc)) (hc : WellBuilt c) (hadd : cc.add (.live c) = .ok cc') :
    WellBuilt (.composite cc') := by
  generalize hcmd : Command.composite cc = cmd at hcc
  cases hcc with
  | leaf base cmd => cases hcmd
  | null base => cases hcmd
  | composite base children rest hlen hchildren =>
    cases hcmd
    unfold CompositeCommand.add at hadd
    split at hadd
    · cases hadd
    · rename_i hroom
      cases hadd
      simp only [ge_iff_le, not_le] at hroom
      obtain ⟨p, ps, rfl⟩ : ∃ p ps, rest = p :: ps := by
        cases rest with
        | nil => simp at hlen; omega
        | cons p ps => exact ⟨p, ps, rfl⟩
      have hset : (children.map Ptr.live ++ p :: ps).set children.length (.live c) =
          (children ++ [c]).map Ptr.live ++ ps := by
        simp
      have hlen' : ((children ++ [c]).map Ptr.live ++ ps).length = MAX_COMMANDS := by
        simpa [Nat.add_comm, Nat.add_left_comm] using hlen
      have hbuilt := WellBuilt.composite base (children ++ [c]) ps hlen' (by
        intro d hd
        rcases List.mem_append.mp hd with hd | hd
        · exact hchildren d hd
        · rw [List.mem_singleton.mp hd]
          exact hc)
      simpa [hset] using hbuilt

/-- The composite that a sequence of `add` makes of new commands: at most ten of them. -/
def ofChildren (base : CommandBase) (children : List (Command L)) : CompositeCommand (Command L) :=
  ⟨base, children.map .live ++ List.replicate (MAX_COMMANDS - children.length) .null,
    children.length⟩

theorem wellBuilt_ofChildren (base : CommandBase) {children : List (Command L)}
    (hlen : children.length ≤ MAX_COMMANDS) (hchildren : ∀ c ∈ children, WellBuilt c) :
    WellBuilt (.composite (ofChildren base children)) := by
  refine .composite base children _ ?_ hchildren
  rw [List.length_append, List.length_map, List.length_replicate]
  omega

/-! ## What the callers expect -/

section Contract

variable {σ ε : Type}

/-- How the call ended. -/
def attempt {K : Type} (r : RunResult K σ ε) : Attempt σ ε :=
  match r.thrown with
  | none => .done r.state
  | some e => .threw e r.state

/-- `run` ends, and if with an exception then in the state it was called in. -/
def RollsBack (c : Command (Undoable σ ε)) (s : σ) : Prop :=
  ∃ r, c.run s = .value r ∧ (r.thrown.isSome → r.state = s)

/-- `run` completes, and `undo` then leads back. -/
def RoundTrips (c : Command (Undoable σ ε)) (s : σ) : Prop :=
  ∃ r, c.run s = .value r ∧ r.thrown = none ∧ r.cmd.undo r.state = .value (.done s)

end Contract

end Pensar.Interface
