import Pensar.Analysis.CommandEquality

/-!
# Is a clone a copy?

`NullCommand::clone` makes a new command, with an id of its own.  `CompositeCommand::clone`
first takes over `mindex` and then calls `add` for every child, which counts them again and
puts the pointers behind the slots that are counted already (`cloneFrom_mindex`).  Neither
looks at the run flag.

Main result: `clonesFaithfully_iff` says which commands have a clone that is a copy; a
composite with a child never has one.
-/

set_option autoImplicit false

namespace Pensar.Analysis

open Pensar.Computation
open Pensar.Model
open Pensar.Interface

variable {L : Type} (pointerBytes : Ptr (Command L) → List Byte)

/-! ## What a caller expects -/

/-- Child by child, the clone of a composite has a command in the same slot that is equal. -/
structure FaithfulChildren (cc copy : CompositeCommand (Command L)) : Prop where
  mindex : copy.mindex = cc.mindex
  slot : ∀ i < cc.mindex, ∃ c d, cc.mcommands[i]? = some (.live c) ∧
    copy.mcommands[i]? = some (.live d) ∧ (d.equals pointerBytes c).Holds

/-- The clone has the id, the flag and the children of the command, and each of the two takes
the other for its equal. -/
structure FaithfulClone (c copy : Command L) : Prop where
  id : copy.base.id = c.base.id
  mok : copy.base.mok = c.base.mok
  children : ∀ cc, c = .composite cc →
    ∃ cc', copy = .composite cc' ∧ FaithfulChildren pointerBytes cc cc'
  equals : (copy.equals pointerBytes c).Holds
  equals_symm : (c.equals pointerBytes copy).Holds

/-- `clone` returns, and a faithful clone; `g` is the static generator at the call. -/
def ClonesFaithfully (c : Command L) (g : Generator) : Prop :=
  ∃ copy g', c.clone g = .value (copy, g') ∧ FaithfulClone pointerBytes c copy

/-- The flag is the one of a new command.  A `NullCommand` has the id that the generator hands
out next; any other has an id, or the generator hands out `NULL_ID` for it; and a composite
has no children. -/
def Clonable (c : Command L) (g : Generator) : Prop :=
  c.base.mok = .UNKNOWN ∧
    match c with
    | .leaf base _ => base.id ≠ NULL_ID ∨ g.next = NULL_ID
    | .null base => g.next = base.id
    | .composite cc => cc.mindex = 0 ∧ (cc.base.id ≠ NULL_ID ∨ g.next = NULL_ID)

/-! ## What `clone` makes -/

theorem new_mok (g : Generator) (aid : Id) : (CommandBase.new g aid).1.mok = .UNKNOWN := by
  unfold CommandBase.new
  split <;> rfl

/-- The id of a new command. -/
theorem new_id (g : Generator) (aid : Id) :
    (CommandBase.new g aid).1.id = if aid = NULL_ID then g.next else aid := by
  unfold CommandBase.new
  split <;> rfl

theorem new_id_eq_iff (g : Generator) (aid : Id) :
    (CommandBase.new g aid).1.id = aid ↔ aid ≠ NULL_ID ∨ g.next = NULL_ID := by
  rw [new_id]
  by_cases haid : aid = NULL_ID
  · simp [haid]
  · simp [haid]

/-- What `clone` calls `add` for is counted twice. -/
theorem cloneFrom_mindex (ps : List (Ptr (Command L))) (todo : ℕ)
    (cc cc' : CompositeCommand (Command L)) (g g' : Generator)
    (h : cloneFrom ps todo cc g = .value (cc', g')) : cc'.mindex = cc.mindex + todo := by
  induction todo generalizing ps cc g with
  | zero =>
    rw [cloneFrom] at h
    cases h
    rfl
  | succ todo ih =>
    cases ps with
    | nil => simp [cloneFrom] at h
    | cons p ps =>
      cases p with
      | null => simp [cloneFrom] at h
      | dangling => simp [cloneFrom] at h
      | live c =>
        rw [cloneFrom] at h
        obtain ⟨⟨child, g₁⟩, -, h⟩ := (Outcome.bind_eq_value_iff _ _ _).mp h
        cases hadd : cc.add .dangling with
        | error e => simp [hadd] at h
        | ok cc₁ =>
          simp only [hadd] at h
          obtain ⟨_, -, h⟩ := (Outcome.bind_eq_value_iff _ _ _).mp h
          have hcount : cc₁.mindex = cc.mindex + 1 := by
            unfold CompositeCommand.add at hadd
            split at hadd
            · cases hadd
            · cases hadd
              rfl
          rw [ih ps cc₁ g₁ h, hcount]
          omega

/-! ## Which clones are copies -/

/-- A clone of the same kind, with the same flag and id, of a command that is no composite. -/
theorem faithfulClone_plain {c copy : Command L} (hc : c.dataLayout = .command)
    (hcopy : copy.dataLayout = .command) :
    FaithfulClone pointerBytes c copy ↔
      copy.base.id = c.base.id ∧ copy.base.mok = c.base.mok := by
  constructor
  · intro h
    exact ⟨h.id, h.mok⟩
  · rintro ⟨hid, hok⟩
    refine ⟨hid, hok, ?_, ?_, ?_⟩
    · rintro cc rfl
      cases hc
    · rw [equals_plain pointerBytes hcopy]
      exact (equalsCommand_holds pointerBytes hcopy hc).mpr ⟨hid, hok⟩
    · rw [equals_plain pointerBytes hc]
      exact (equalsCommand_holds pointerBytes hc hcopy).mpr ⟨hid.symm, hok.symm⟩

theorem clonesFaithfully_of_clone {c copy : Command L} {g g' : Generator}
    (hclone : c.clone g = .value (copy, g')) :
    ClonesFaithfully pointerBytes c g ↔ FaithfulClone pointerBytes c copy := by
  constructor
  · rintro ⟨copy', g'', hclone', h⟩
    rw [hclone] at hclone'
    cases hclone'
    exact h
  · intro h
    exact ⟨copy, g', hclone, h⟩

theorem clonesFaithfully_leaf (base : CommandBase) (cmd : L) (g : Generator) :
    ClonesFaithfully pointerBytes (.leaf base cmd) g ↔ Clonable (.leaf base cmd) g := by
  have hclone : Command.clone (.leaf base cmd) g =
      .value (.leaf (CommandBase.new g base.id).1 cmd, (CommandBase.new g base.id).2) := by
    rw [Command.clone]
  rw [clonesFaithfully_of_clone pointerBytes hclone, faithfulClone_plain pointerBytes rfl rfl]
  simp only [Command.base, new_id_eq_iff, new_mok, Clonable]
  rw [and_comm, eq_comm]

theorem clonesFaithfully_null (base : CommandBase) (g : Generator) :
    ClonesFaithfully pointerBytes (.null base : Command L) g ↔
      Clonable (.null base : Command L) g := by
  have hclone : Command.clone (.null base : Command L) g =
      .value (.null (CommandBase.new g NULL_ID).1, (CommandBase.new g NULL_ID).2) := by
    rw [Command.clone]
    rfl
  rw [clonesFaithfully_of_clone pointerBytes hclone, faithfulClone_plain pointerBytes rfl rfl]
  simp only [Command.base, new_id, new_mok, Clonable, if_true]
  rw [and_comm, eq_comm]

/-- A composite without children, and its clone. -/
theorem clonesFaithfully_childless (base : CommandBase) (rest : List (Ptr (Command L)))
    (g : Generator) :
    ClonesFaithfully pointerBytes (.composite ⟨base, rest, 0⟩) g ↔
      Clonable (.composite ⟨base, rest, 0⟩) g := by
  have hclone : Command.clone (.composite ⟨base, rest, 0⟩) g =
      .value (.composite (CompositeCommand.new g base.id).1, (CommandBase.new g base.id).2) := by
    rw [CompositeCommand.clone_composite, CompositeCommand.clone]
    simp [cloneFrom, CompositeCommand.new]
  rw [clonesFaithfully_of_clone pointerBytes hclone]
  simp only [Clonable, Command.base, true_and]
  rw [← new_id_eq_iff, ← new_mok g base.id]
  constructor
  · intro h
    exact ⟨h.mok.symm, h.id⟩
  · rintro ⟨hok, hid⟩
    refine ⟨hid, hok.symm, ?_, ?_, ?_⟩
    · rintro cc hcc
      cases hcc
      exact ⟨_, rfl, rfl, by simp⟩
    · have hequals : Command.equals pointerBytes
          (.composite (CompositeCommand.new g base.id).1) (.composite ⟨base, rest, 0⟩) =
            .answer true := by
        simp [CompositeCommand.new, Command.equals, hid, equalsFrom]
      simp [hequals]
    · simp [CompositeCommand.new, Command.equals, hid, equalsFrom]

/-- The clone of a composite with children, if there is one, counts too many. -/
theorem not_clonesFaithfully_children (cc : CompositeCommand (Command L)) (hcc : cc.mindex ≠ 0)
    (g : Generator) : ¬ ClonesFaithfully pointerBytes (.composite cc) g := by
  rintro ⟨copy, g', hclone, h⟩
  rw [CompositeCommand.clone_composite] at hclone
  obtain ⟨⟨cc', g''⟩, hcc', hpair⟩ := (Outcome.bind_eq_value_iff _ _ _).mp hclone
  cases hpair
  obtain ⟨cc'', hsame, hchildren⟩ := h.children cc rfl
  cases hsame
  unfold CompositeCommand.clone at hcc'
  have hdouble : cc'.mindex = cc.mindex + cc.mindex := by
    simpa using cloneFrom_mindex _ _ _ _ _ _ hcc'
  have hcount : cc'.mindex = cc.mindex := hchildren.mindex
  omega

/-- **A clone is a copy exactly of the commands that are `Clonable`.** -/
theorem clonesFaithfully_iff (c : Command L) (g : Generator) :
    ClonesFaithfully pointerBytes c g ↔ Clonable c g := by
  cases c with
  | leaf base cmd => exact clonesFaithfully_leaf pointerBytes base cmd g
  | null base => exact clonesFaithfully_null pointerBytes base g
  | composite cc =>
    obtain ⟨base, mcommands, mindex⟩ := cc
    by_cases hmindex : mindex = 0
    · subst hmindex
      exact clonesFaithfully_childless pointerBytes base mcommands g
    · have hnot := not_clonesFaithfully_children pointerBytes ⟨base, mcommands, mindex⟩ hmindex g
      simp [hnot, Clonable, hmindex]

/-- The clone of a composite with one `NullCommand`. -/
theorem not_clonesFaithfully_one_child :
    ¬ ∀ (pointerBytes : Ptr (Command Empty) → List Byte) (c : Command Empty) (g : Generator),
      WellBuilt c → ClonesFaithfully pointerBytes c g := by
  intro h
  have hbuilt : WellBuilt
      (.composite (ofChildren ⟨⟨1⟩, .UNKNOWN⟩ [.null ⟨⟨2⟩, .UNKNOWN⟩]) : Command Empty) :=
    wellBuilt_ofChildren _ (by decide) (by simp [WellBuilt.null])
  exact not_clonesFaithfully_children _ _ (by decide)
    _ (h (fun _ => List.replicate 8 0) _ (Generator.new 1 2) hbuilt)

end Pensar.Analysis
