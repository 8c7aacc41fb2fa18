import Pensar.Analysis.CommandReads
import Pensar.Interface.CommandTree

/-!
# Which calls keep a composite well formed

`add` writes the slot that it counts, so it keeps `Represented` unless it is given a null
pointer.  `clone` counts the slots of the clone before it fills them, and fills others:
only the clone of an empty composite is `Represented` (`clone_represented_iff`).  `read`
takes the count from the stream and fills what it can: the count has to fit the array,
and the slots that the stream has no command for must have been filled before
(`read_represented_iff`).

Main result: `represented_along_iff`.
-/

set_option autoImplicit false

namespace Pensar.Analysis

open Pensar.Computation
open Pensar.Model
open Pensar.Model.CompositeCommand (MAX_COMMANDS readFrom)
open Pensar.Interface
open Pensar.Analysis.BinaryBuffer

variable {L : Type}

/-! ## `add` -/

theorem add_represented_iff {cc : CompositeCommand (Command L)} (hcc : Represented cc)
    (cmd : Ptr (Command L)) :
    (∃ cc', CompositeCommand.step cc (.add cmd) = .value cc' ∧ Represented cc') ↔
      (cc.mindex < MAX_COMMANDS → cmd ≠ .null) := by
  by_cases hfull : cc.mindex ≥ MAX_COMMANDS
  · have hstep : CompositeCommand.step cc (.add cmd) = .value cc := by
      simp [CompositeCommand.step, CompositeCommand.add, hfull]
    exact ⟨fun _ hroom => absurd hroom (by omega), fun _ => ⟨cc, hstep, hcc⟩⟩
  · have hstep : CompositeCommand.step cc (.add cmd) =
        .value { cc with
          mcommands := cc.mcommands.set cc.mindex cmd
          mindex := cc.mindex + 1 } := by
      simp [CompositeCommand.step, CompositeCommand.add, hfull]
    have hlen := hcc.length
    have hslots := take_succ_set (l := cc.mcommands) (i := cc.mindex) (by omega) cmd
    constructor
    · rintro ⟨cc', hcc', hrep⟩ _
      rw [hstep] at hcc'
      cases hcc'
      exact hrep.nonnull cmd (by rw [hslots]; simp)
    · intro hcmd
      refine ⟨_, hstep, by simpa using hlen, by simp; omega, ?_⟩
      intro p hp
      rw [hslots] at hp
      rcases List.mem_append.mp hp with hp | hp
      · exact hcc.nonnull p hp
      · rw [List.mem_singleton.mp hp]
        exact hcmd (by omega)

/-! ## `clone` -/

/-- The loop of `clone` never fills the first slot of a clone that counts it already. -/
theorem cloneFrom_head (todo : ℕ) {ps : List (Ptr (Command L))}
    {cc cc' : CompositeCommand (Command L)} {g g' : Generator}
    (h : cloneFrom ps todo cc g = .value (cc', g')) (hpos : 0 < cc.mindex)
    (hhead : cc.mcommands.head? = some .null) :
    0 < cc'.mindex ∧ cc'.mcommands.head? = some .null := by
  induction todo generalizing ps cc g with
  | zero =>
    rw [cloneFrom] at h
    cases h
    exact ⟨hpos, hhead⟩
  | succ todo ih =>
    cases ps with
    | nil => simp [cloneFrom] at h
    | cons p ps =>
      cases p with
      | null => simp [cloneFrom] at h
      | dangling => simp [cloneFrom] at h
      | live c =>
        rw [cloneFrom] at h
        obtain ⟨⟨child, g₁⟩, -, h⟩ := (Outcome.bind_eq_value_iff _ _ _).mp h
        by_cases hfull : cc.mindex ≥ MAX_COMMANDS
        · simp [CompositeCommand.add, hfull] at h
        · simp only [CompositeCommand.add, if_neg hfull] at h
          obtain ⟨-, -, h⟩ := (Outcome.bind_eq_value_iff _ _ _).mp h
          refine ih h (Nat.succ_pos _) ?_
          obtain ⟨n, hn⟩ : ∃ n, cc.mindex = n + 1 := ⟨cc.mindex - 1, by omega⟩
          cases hslots : cc.mcommands with
          | nil => simp [hslots] at hhead
          | cons q qs => simpa [hslots, hn] using hhead

theorem clone_represented_iff {cc : CompositeCommand (Command L)} (g : Generator) :
    (∃ cc', CompositeCommand.step cc (.clone g) = .value cc' ∧ Represented cc') ↔
      cc.mindex = 0 := by
  constructor
  · rintro ⟨cc', hstep, hrep⟩
    obtain ⟨⟨copy, g'⟩, hclone, hcopy⟩ := (Outcome.bind_eq_value_iff _ _ _).mp hstep
    cases hcopy
    by_contra hpos
    obtain ⟨hpos', hhead⟩ := cloneFrom_head cc.mindex hclone (Nat.pos_of_ne_zero hpos) rfl
    obtain ⟨n, hn⟩ : ∃ n, cc'.mindex = n + 1 := ⟨cc'.mindex - 1, by omega⟩
    cases hslots : cc'.mcommands with
    | nil => simp [hslots] at hhead
    | cons p ps =>
      refine hrep.nonnull .null ?_ rfl
      have hp : p = .null := by simpa [hslots] using hhead
      simp [hslots, hn, hp]
  · intro hempty
    refine ⟨(CompositeCommand.new g cc.base.id).1, ?_, represented_new g _⟩
    simp only [CompositeCommand.step, CompositeCommand.clone, hempty, cloneFrom,
      Outcome.value_bind, Outcome.pure_eq]
    rfl

/-! ## `read` -/

/-- The count that is read: the old one stays when there are too few bytes. -/
def announced (mindex : ℕ) (bytes : List Byte) : ℕ :=
  if 8 ≤ bytes.length then (SizeT.layout.decode (bytes.take 8)).toNat else mindex

def afterCount (bytes : List Byte) : List Byte :=
  if 8 ≤ bytes.length then bytes.drop 8 else bytes

theorem read_eq {cc : CompositeCommand (Command L)} (hroom : cc.mindex ≤ MAX_COMMANDS)
    (bb : BinaryBuffer) (g : Generator) :
    ∃ base bb₁ log, readable bb₁ = afterCount (afterCommand (readable bb)) ∧
      cc.read bb g =
        readFrom 0 (announced cc.mindex (afterCommand (readable bb))) cc.mcommands bb₁ g >>=
          fun r => pure ⟨⟨base, r.cmd, announced cc.mindex (afterCommand (readable bb))⟩,
            r.bb, r.g, log ++ r.log⟩ := by
  obtain ⟨base, bb₁, log, hbase, hbytes⟩ := read_command cc.base bb
  by_cases h : 8 ≤ (readable bb₁).length
  · have hcount := readPod_of_le (L := SizeT.layout) (.ofNat 64 cc.mindex) (by simp) h
    refine ⟨base, advance bb₁ 8, log, by simp [← hbytes, afterCount, h], ?_⟩
    simp [CompositeCommand.read, hbase, hcount, ← hbytes, announced, h]
  · have hcount := readPod_of_short (L := SizeT.layout) (.ofNat 64 cc.mindex)
      (by simpa using h : (readable bb₁).length < SizeT.layout.width)
    have hmindex : (BitVec.ofNat 64 cc.mindex).toNat = cc.mindex := by
      simp only [MAX_COMMANDS] at hroom
      simp only [BitVec.toNat_ofNat]
      omega
    refine ⟨base, bb₁, log ++ [BinaryBuffer.underflow], by simp [← hbytes, afterCount, h], ?_⟩
    simp [CompositeCommand.read, hbase, hcount, ← hbytes, announced, h, hmindex]

theorem take_fill {mcommands : List (Ptr (Command L))} {bases : List CommandBase} {n : ℕ}
    (h : bases.length ≤ n) :
    (fill mcommands 0 bases).take n =
      bases.map (fun base => .live (.null base)) ++ (mcommands.take n).drop bases.length := by
  have hle : (bases.map fun base => Ptr.live (Command.null (L := L) base)).length ≤ n := by
    simpa using h
  simp [fill, List.take_append, List.take_of_length_le hle, List.drop_take]

/-- The stream does not announce more commands than the array holds, no name in it is
without end, and every slot that is counted but for which it has no command was filled. -/
def Filled (cc : CompositeCommand (Command L)) (bytes : List Byte) : Prop :=
  ∃ k, created (announced cc.mindex bytes) (afterCount bytes) = some k ∧
    announced cc.mindex bytes ≤ MAX_COMMANDS ∧
    ∀ p ∈ (cc.mcommands.take (announced cc.mindex bytes)).drop k, p ≠ .null

theorem read_represented_iff {cc : CompositeCommand (Command L)} (hcc : Represented cc)
    (bb : BinaryBuffer) (g : Generator) :
    (∃ cc', CompositeCommand.step cc (.read bb g) = .value cc' ∧ Represented cc') ↔
      Filled cc (afterCommand (readable bb)) := by
  obtain ⟨base, bb₁, log, hbytes, hread⟩ := read_eq hcc.room bb g
  generalize hn : announced cc.mindex (afterCommand (readable bb)) = n at hread
  constructor
  · rintro ⟨cc', hstep, hrep⟩
    simp only [CompositeCommand.step, hread] at hstep
    by_cases hk : ∃ k, created n (readable bb₁) = some k ∧ k ≤ MAX_COMMANDS
    · obtain ⟨k, hk, hkmax⟩ := hk
      have hkn := created_le hk
      obtain ⟨bases, r, rfl, hloop, hr⟩ := readFrom_value n (i := 0) g hk (by omega) hcc.length
      simp only [hloop, Outcome.value_bind, Outcome.pure_eq, Outcome.value.injEq] at hstep
      subst hstep
      rw [hbytes] at hk
      refine ⟨bases.length, by rw [hn, hk], by rw [hn]; exact hrep.room, ?_⟩
      intro p hp
      refine hrep.nonnull p ?_
      rw [hn] at hp
      simp only [hr, take_fill hkn]
      exact List.mem_append_right _ hp
    · have hlong : ∀ k, created n (readable bb₁) = some k → MAX_COMMANDS < 0 + k := by
        intro k hk'
        have : ¬ k ≤ MAX_COMMANDS := fun hle => hk ⟨k, hk', hle⟩
        omega
      have hloop := readFrom_undefined n cc.mcommands g (Nat.zero_le _) hlong
      simp [hloop] at hstep
  · rintro ⟨k, hk, hcount, hslots⟩
    rw [hn] at hk hcount hslots
    have hkn := created_le hk
    rw [← hbytes] at hk
    obtain ⟨bases, r, rfl, hloop, hr⟩ := readFrom_value n (i := 0) g hk (by omega) hcc.length
    refine ⟨⟨base, r.cmd, n⟩, ?_, ?_, hcount, ?_⟩
    · simp [CompositeCommand.step, hread, hloop]
    · rw [hr]
      exact (fill_length (by rw [hcc.length]; omega)).trans hcc.length
    · intro p hp
      simp only [hr, take_fill hkn] at hp
      rcases List.mem_append.mp hp with hp | hp
      · obtain ⟨base, -, rfl⟩ := List.mem_map.mp hp
        simp
      · exact hslots p hp

/-! ## Runs -/

def Harmless (cc : CompositeCommand (Command L)) : CompositeCommand.Op L → Prop
  | .add cmd => cc.mindex < MAX_COMMANDS → cmd ≠ .null
  | .clone _ => cc.mindex = 0
  | .read bb _ => Filled cc (afterCommand (readable bb))

theorem step_represented_iff (cc : CompositeCommand (Command L)) (op : CompositeCommand.Op L)
    (hcc : Represented cc) :
    (∃ cc', CompositeCommand.step cc op = .value cc' ∧ Represented cc') ↔ Harmless cc op := by
  cases op with
  | add cmd => exact add_represented_iff hcc cmd
  | clone g => exact clone_represented_iff g
  | read bb g => exact read_represented_iff hcc bb g

/-- **Every composite of a run is well formed exactly when every call of it is harmless
where it is made.** -/
theorem represented_along_iff (g : Generator) (aid : Id) (ops : List (CompositeCommand.Op L)) :
    ValidAlong CompositeCommand.step Represented (CompositeCommand.new g aid).1 ops ↔
      MeetsAlong CompositeCommand.step Harmless (CompositeCommand.new g aid).1 ops :=
  valid_along_iff CompositeCommand.step Represented Harmless
    (fun cc op hcc => step_represented_iff cc op hcc) _ ops (represented_new g aid)

/-- The clone of a composite with one command counts two and begins with a null pointer;
eight bytes make a new composite count eleven. -/
theorem not_represented_clone_read :
    ¬ ValidAlong CompositeCommand.step Represented
        (CompositeCommand.new (K := Command Empty) (.new 1) NULL_ID).1
        [.add (.live (.null ⟨⟨1⟩, .UNKNOWN⟩)), .clone (.new 1)] ∧
      ¬ ValidAlong CompositeCommand.step Represented
        (CompositeCommand.new (K := Command Empty) (.new 1) NULL_ID).1
        [.read ⟨[11, 0, 0, 0, 0, 0, 0, 0], 8, 0⟩ (.new 1)] := by
  constructor
  · rintro ⟨-, cc₁, hadd, -, cc₂, hclone, hrep⟩
    cases hadd
    have hempty := (clone_represented_iff _).mp ⟨cc₂, hclone, hrep⟩
    exact absurd hempty (by decide)
  · rintro ⟨hnew, cc₁, hread, hrep⟩
    obtain ⟨k, -, hcount, -⟩ := (read_represented_iff hnew _ _).mp ⟨cc₁, hread, hrep⟩
    exact absurd hcount (by decide)

end Pensar.Analysis
