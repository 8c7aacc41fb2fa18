import Pensar.Analysis.RecordReads
import Pensar.Model.CommandStream

/-!
# The rounds of `CompositeCommand::read`

A round of the loop reads a `ClassInfo`, asks the registry, and reads the new object.
What happens is decided by the full name of that `ClassInfo`: it is `NullCommand`'s and a
command goes into the array (`readFrom_created`), it is another one and the loop is left
(`readFrom_unknown`), or it has no end (`readFrom_endless`).

So the bytes alone decide how many commands a loop creates (`created`), and with that what
the loop does to the array (`readFrom_value`) or that it runs past its end
(`readFrom_undefined`).
-/

set_option autoImplicit false

namespace Pensar.Analysis

open Pensar.Computation
open Pensar.Model
open Pensar.Model.CompositeCommand (MAX_COMMANDS readFrom unknownType)
open Pensar.Analysis.BinaryBuffer

variable {L : Type}

/-! ## The registry -/

def nullCommandName : S := CPPLIB_NAMESPACE ++ W "::" ++ W "NullCommand"

theorem fullClassName_nullCommand : NullCommand.INFO.fullClassName = some nullCommandName :=
  ClassInfo.fullClassName_make _ _ _ _ _ _ _ (by decide) (by decide)

theorem fullClassName_compositeCommand :
    CompositeCommand.INFO.fullClassName =
      some (CPPLIB_NAMESPACE ++ W "::" ++ W "CompositeCommand") :=
  ClassInfo.fullClassName_make _ _ _ _ _ _ _ (by decide) (by decide)

theorem fullClassName_object :
    Object.INFO.fullClassName = some (CPPLIB_NAMESPACE ++ W "::" ++ W "Object") :=
  ClassInfo.fullClassName_make _ _ _ _ _ _ _ (by decide) (by decide)

theorem create_of_name {info : ClassInfo} {name : S} (h : info.fullClassName = some name) :
    CommandRegistry.create info =
      .value (if name = nullCommandName then some NullCommand.new else none) := by
  by_cases hname : name = nullCommandName
  · simp [CommandRegistry.create, h, hname, CommandRegistry.registry, fullClassName_nullCommand]
  · simp [CommandRegistry.create, h, hname, CommandRegistry.registry, fullClassName_nullCommand,
      Ne.symm hname]

/-! ## One round -/

section Round

variable {i todo : ℕ} {mcommands : List (Ptr (Command L))} {bb bb₁ : BinaryBuffer}
  {g : Generator} {info : ClassInfo} {log : Log}

theorem readFrom_endless (hinfo : bb.readPod ClassInfo.layout .null = (info, bb₁, log))
    (hname : info.fullClassName = none) :
    readFrom i (todo + 1) mcommands bb g = .undefined := by
  simp [readFrom, hinfo, CommandRegistry.create, hname]

theorem readFrom_unknown (hinfo : bb.readPod ClassInfo.layout .null = (info, bb₁, log))
    {name : S} (hname : info.fullClassName = some name) (hother : name ≠ nullCommandName) :
    readFrom i (todo + 1) mcommands bb g =
      .value ⟨mcommands, bb₁, g, log ++ [unknownType name]⟩ := by
  simp [readFrom, hinfo, create_of_name hname, hother, hname]

theorem readFrom_created (hinfo : bb.readPod ClassInfo.layout .null = (info, bb₁, log))
    (hname : info.fullClassName = some nullCommandName) {base : CommandBase}
    {bb₂ : BinaryBuffer} {log' : Log}
    (hread : (NullCommand.new g).1.read bb₁ = (base, bb₂, log')) :
    readFrom i (todo + 1) mcommands bb g =
      if i ≥ MAX_COMMANDS then .undefined
      else readFrom (i + 1) todo (mcommands.set i (.live (.null base))) bb₂
          (NullCommand.new g).2 >>=
        fun r => pure { r with log := log ++ log' ++ r.log } := by
  simp [readFrom, hinfo, create_of_name hname, hread]

end Round

/-! ## The array after some rounds -/

/-- The array with new `NullCommand`s in it from `i` on. -/
def fill (mcommands : List (Ptr (Command L))) (i : ℕ) (bases : List CommandBase) :
    List (Ptr (Command L)) :=
  mcommands.take i ++ bases.map (fun base => .live (.null base)) ++
    mcommands.drop (i + bases.length)

@[simp] theorem fill_nil (mcommands : List (Ptr (Command L))) (i : ℕ) :
    fill mcommands i [] = mcommands := by
  simp [fill]

theorem take_succ_set {α : Type} {l : List α} {i : ℕ} (h : i < l.length) (x : α) :
    (l.set i x).take (i + 1) = l.take i ++ [x] := by
  rw [List.take_succ_eq_append_getElem (by simpa using h), List.getElem_set_self,
    List.take_set_of_le (Nat.le_refl i)]

theorem fill_set {mcommands : List (Ptr (Command L))} {i : ℕ} (h : i < mcommands.length)
    (base : CommandBase) (bases : List CommandBase) :
    fill (mcommands.set i (.live (.null base))) (i + 1) bases =
      fill mcommands i (base :: bases) := by
  have htake := take_succ_set h (Ptr.live (Command.null (L := L) base))
  have hdrop : (mcommands.set i (.live (.null base))).drop (i + 1 + bases.length) =
      mcommands.drop (i + (base :: bases).length) := by
    rw [List.drop_set_of_lt (by omega)]
    congr 1
    simp only [List.length_cons]
    omega
  simp [fill, htake, hdrop]

theorem fill_length {mcommands : List (Ptr (Command L))} {i : ℕ} {bases : List CommandBase}
    (h : i + bases.length ≤ mcommands.length) :
    (fill mcommands i bases).length = mcommands.length := by
  simp only [fill, List.length_append, List.length_take, List.length_map, List.length_drop]
  omega

/-! ## The whole loop -/

/-- The `ClassInfo` that is read: the default one stays when there are too few bytes. -/
def header (bytes : List Byte) : ClassInfo :=
  if 206 ≤ bytes.length then ClassInfo.layout.decode (bytes.take 206) else .null

def afterHeader (bytes : List Byte) : List Byte :=
  if 206 ≤ bytes.length then bytes.drop 206 else bytes

def afterCommand (bytes : List Byte) : List Byte :=
  bytes.drop (RecordType.consumedDerived CommandBase.record bytes)

/-- The number of commands that a loop of `todo` rounds creates, as far as the array goes;
`none` when it comes upon a name without end. -/
def created : ℕ → List Byte → Option ℕ
  | 0, _ => some 0
  | todo + 1, bytes =>
    match (header bytes).fullClassName with
    | none => none
    | some name =>
      if name = nullCommandName then
        (created todo (afterCommand (afterHeader bytes))).map (· + 1)
      else
        some 0

theorem readPod_header (bb : BinaryBuffer) :
    ∃ bb₁ log, bb.readPod ClassInfo.layout .null = (header (readable bb), bb₁, log) ∧
      readable bb₁ = afterHeader (readable bb) := by
  by_cases h : 206 ≤ (readable bb).length
  · have hread := readPod_of_le (L := ClassInfo.layout) ClassInfo.null (by simp) h
    exact ⟨advance bb 206, [], by simp [hread, header, h], by simp [afterHeader, h]⟩
  · have hread := readPod_of_short (L := ClassInfo.layout) ClassInfo.null
      (by simpa using h : (readable bb).length < ClassInfo.layout.width)
    exact ⟨bb, [BinaryBuffer.underflow], by simp [hread, header, h], by simp [afterHeader, h]⟩

theorem read_command (base : CommandBase) (bb : BinaryBuffer) :
    ∃ base' bb₁ log, base.read bb = (base', bb₁, log) ∧
      readable bb₁ = afterCommand (readable bb) := by
  obtain ⟨log, hread, -⟩ := RecordType.derived_read CommandBase.record base bb
  exact ⟨_, _, _, hread, by rw [readable_advance, afterCommand]⟩

theorem created_le {todo : ℕ} {bytes : List Byte} {k : ℕ} (h : created todo bytes = some k) :
    k ≤ todo := by
  induction todo generalizing bytes k with
  | zero => simp only [created, Option.some.injEq] at h; omega
  | succ todo ih =>
    unfold created at h
    split at h
    · cases h
    · split at h
      · obtain ⟨j, hj, rfl⟩ := Option.map_eq_some_iff.mp h
        have := ih hj
        omega
      · cases h
        omega

theorem readFrom_value (todo : ℕ) {i : ℕ} {mcommands : List (Ptr (Command L))}
    {bb : BinaryBuffer} (g : Generator) {k : ℕ} (hk : created todo (readable bb) = some k)
    (hroom : i + k ≤ MAX_COMMANDS) (hlen : mcommands.length = MAX_COMMANDS) :
    ∃ bases r, bases.length = k ∧ readFrom i todo mcommands bb g = .value r ∧
      r.cmd = fill mcommands i bases := by
  induction todo generalizing i mcommands bb g k with
  | zero =>
    obtain rfl : 0 = k := by simpa [created] using hk
    exact ⟨[], _, rfl, by rw [readFrom], by simp⟩
  | succ todo ih =>
    obtain ⟨bb₁, log, hinfo, hbytes⟩ := readPod_header bb
    unfold created at hk
    split at hk
    · cases hk
    · rename_i name hname
      split at hk
      · rename_i hnull
        subst hnull
        obtain ⟨base, bb₂, log', hread, hbytes'⟩ := read_command (NullCommand.new g).1 bb₁
        obtain ⟨j, hj, rfl⟩ := Option.map_eq_some_iff.mp hk
        rw [← hbytes, ← hbytes'] at hj
        have hroom' : i + 1 + j ≤ MAX_COMMANDS := by omega
        have hlen' : (mcommands.set i (.live (.null base))).length = MAX_COMMANDS := by
          simpa using hlen
        obtain ⟨bases, r, hbases, hloop, hr⟩ := ih (NullCommand.new g).2 hj hroom' hlen'
        refine ⟨base :: bases, { r with log := log ++ log' ++ r.log }, by simp [hbases], ?_, ?_⟩
        · rw [readFrom_created hinfo hname hread, if_neg (by omega), hloop]
          rfl
        · rw [hr, fill_set (by omega)]
      · rename_i hother
        cases hk
        exact ⟨[], _, rfl, readFrom_unknown hinfo hname hother, by simp⟩

theorem readFrom_undefined (todo : ℕ) {i : ℕ} (mcommands : List (Ptr (Command L)))
    {bb : BinaryBuffer} (g : Generator) (hi : i ≤ MAX_COMMANDS)
    (h : ∀ k, created todo (readable bb) = some k → MAX_COMMANDS < i + k) :
    readFrom i todo mcommands bb g = .undefined := by
  induction todo generalizing i mcommands bb g with
  | zero =>
    have := h 0 rfl
    omega
  | succ todo ih =>
    obtain ⟨bb₁, log, hinfo, hbytes⟩ := readPod_header bb
    unfold created at h
    cases hname : (header (readable bb)).fullClassName with
    | none => exact readFrom_endless hinfo hname
    | some name =>
      simp only [hname] at h
      split at h
      · rename_i hnull
        subst hnull
        obtain ⟨base, bb₂, log', hread, hbytes'⟩ := read_command (NullCommand.new g).1 bb₁
        rw [← hbytes, ← hbytes'] at h
        rw [readFrom_created hinfo hname hread]
        split
        · rfl
        · rw [ih (i := i + 1) _ _ (by omega) (by
            intro k hk
            have := h (k + 1) (by rw [hk]; rfl)
            omega)]
          rfl
      · have := h 0 rfl
        omega

end Pensar.Analysis
