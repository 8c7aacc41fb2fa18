import Pensar.Interface.CommandTree
import Pensar.Model.SerializedSize

/-!
# Is `size ()` the number of bytes that `write` appends?

`Object` and `Person` count what they write.  A `Generator` counts the part of `Object` only.
A `NullCommand` does not count the `ClassInfo` that it writes in front, and neither does a
`CompositeCommand`, which leaves out the part of `Command` as well and counts its children
for what they count themselves: it always announces less than it writes
(`measured_wellBuilt`).

Main result: `sizeIsWritten_iff` says for which objects the two agree.
-/

set_option autoImplicit false

namespace Pensar.Analysis

open Pensar.Computation
open Pensar.Model
open Pensar.Interface

variable {L : Type}

/-- `size` returns the number of bytes by which `write` advances the buffer. -/
def SizeIsWritten (x : Streamed L) (bb : BinaryBuffer) : Prop :=
  ∃ n bb', x.size = .value n ∧ x.write bb = .value bb' ∧ bb'.size = bb.size + n

/-- A command is well built; the other objects have nothing below them. -/
def BuiltUp : Streamed L → Prop
  | .command c => WellBuilt c
  | _ => True

/-- An `Object`, a `Person`, or a command of a class that leaves `size` and `write` as
`Command` has them. -/
def CountsAll : Streamed L → Prop
  | .object _ => True
  | .generator _ => False
  | .person _ => True
  | .command (.leaf _ _) => True
  | .command _ => False

/-! ## What is written -/

@[simp] theorem size_write (bb : BinaryBuffer) (src : List Byte) :
    (bb.write src).size = bb.size + src.length := rfl

@[simp] theorem size_recordWrite {α : Type} (R : RecordType α) (bb : BinaryBuffer) (x : α) :
    (R.write bb x).size = bb.size + (206 + R.layout.width) := by
  simp [RecordType.write, Nat.add_assoc]

@[simp] theorem size_objectWrite (o : Object) (bb : BinaryBuffer) :
    (o.write bb).size = bb.size + 214 := by
  rw [Object.write, size_recordWrite]
  rfl

@[simp] theorem size_derivedWrite {δ : Type} (R : RecordType δ) (o : Derived δ)
    (bb : BinaryBuffer) : (Derived.write R o bb).size = bb.size + (420 + R.layout.width) := by
  rw [Derived.write, size_recordWrite, size_objectWrite]
  omega

theorem size_commandWrite (base : CommandBase) (bb : BinaryBuffer) :
    (base.write bb).size = bb.size + 421 := by
  rw [CommandBase.write, size_derivedWrite]
  rfl

theorem size_generatorWrite (g : Generator) (bb : BinaryBuffer) :
    (g.write bb).size = bb.size + 444 := by
  rw [Generator.write, size_derivedWrite]
  rfl

theorem size_personWrite (p : Person) (bb : BinaryBuffer) :
    (p.write bb).size = bb.size + p.size := by
  rw [Person.write, size_derivedWrite]
  rfl

/-- A generator announces 214 bytes and writes 444. -/
theorem not_sizeIsWritten_ofGenerator (g : Generator) (bb : BinaryBuffer) :
    ¬ SizeIsWritten (.generator g : Streamed L) bb := by
  rintro ⟨n, bb', hsize, hwrite, hbytes⟩
  have hannounced : g.size = 214 := rfl
  rw [Streamed.size, Outcome.value.injEq, hannounced] at hsize
  rw [Streamed.write, Outcome.value.injEq] at hwrite
  rw [← hwrite, size_generatorWrite] at hbytes
  omega

/-! ## Commands -/

/-- `size` returns `n`, and `write` appends `m` bytes to any buffer. -/
structure Measured (c : Command L) (n m : ℕ) : Prop where
  size : c.size = .value n
  write : ∀ bb, ∃ bb', c.write bb = .value bb' ∧ bb'.size = bb.size + m

/-- The loops of `CompositeCommand::size` and `CompositeCommand::write`: what is announced for
the children is at most what they write. -/
theorem measured_children (cs : List (Command L)) (rest : List (Ptr (Command L)))
    (h : ∀ c ∈ cs, ∃ n m, Measured c n m ∧ n ≤ m) (size : ℕ) :
    ∃ n m, sizeFrom (cs.map .live ++ rest) cs.length size = .value (size + n) ∧
      (∀ bb, ∃ bb', writeFrom (cs.map .live ++ rest) cs.length bb = .value bb' ∧
        bb'.size = bb.size + m) ∧ n ≤ m := by
  induction cs generalizing size with
  | nil => exact ⟨0, 0, by simp [sizeFrom], fun bb => ⟨bb, by simp [writeFrom], rfl⟩, le_rfl⟩
  | cons c cs ih =>
    obtain ⟨n, m, hc, hle⟩ := h c (by simp)
    obtain ⟨n', m', hsize, hwrite, hle'⟩ := ih (fun d hd => h d (by simp [hd])) (size + n)
    refine ⟨n + n', m + m', ?_, ?_, by omega⟩
    · simp [sizeFrom, hc.size, hsize, Nat.add_assoc]
    · intro bb
      obtain ⟨bb₁, hbb₁, hsize₁⟩ := hc.write bb
      obtain ⟨bb₂, hbb₂, hsize₂⟩ := hwrite bb₁
      refine ⟨bb₂, by simp [writeFrom, hbb₁, hbb₂], ?_⟩
      omega

/-- **A composite announces less than it writes**, and so does a `NullCommand`. -/
theorem measured_wellBuilt {c : Command L} (hc : WellBuilt c) :
    ∃ n m, Measured c n m ∧ n ≤ m ∧ (n = m ↔ CountsAll (.command c)) := by
  induction hc with
  | leaf base cmd =>
    refine ⟨421, 421, ⟨rfl, fun bb => ⟨_, by rw [Command.write], size_commandWrite base bb⟩⟩,
      le_rfl, ?_⟩
    simp [CountsAll]
  | null base =>
    refine ⟨421, 627, ⟨rfl, fun bb => ⟨_, by rw [Command.write], ?_⟩⟩, by omega, ?_⟩
    · rw [size_commandWrite, size_write, ClassInfo.bytes_length]
    · simp [CountsAll]
  | composite base children rest hlen hchildren ih =>
    have hmeasured : ∀ c ∈ children, ∃ n m, Measured c n m ∧ n ≤ m := by
      intro c hc
      obtain ⟨n, m, h, hle, -⟩ := ih c hc
      exact ⟨n, m, h, hle⟩
    obtain ⟨n, m, hsize, hwrite, hle⟩ := measured_children children rest hmeasured 214
    refine ⟨214 + n, 635 + m, ⟨by rw [Command.size]; exact hsize, ?_⟩, by omega, ?_⟩
    · intro bb
      obtain ⟨bb', hbb', hbytes⟩ := hwrite
        ((base.write (bb.write CompositeCommand.INFO.bytes)).writePod SizeT.layout
          (.ofNat 64 children.length))
      refine ⟨bb', by rw [Command.write]; exact hbb', ?_⟩
      rw [hbytes, BinaryBuffer.writePod, size_write, size_commandWrite, size_write,
        ClassInfo.bytes_length, Layout.encode_length, SizeT.layout_width]
      omega
    · simp only [CountsAll, iff_false]
      omega

/-! ## All classes -/

/-- **`size` is the number of bytes written exactly of the objects with `CountsAll`.** -/
theorem sizeIsWritten_iff (x : Streamed L) (hx : BuiltUp x) (bb : BinaryBuffer) :
    SizeIsWritten x bb ↔ CountsAll x := by
  unfold SizeIsWritten
  cases x with
  | object o =>
    refine iff_of_true ⟨214, o.write bb, rfl, rfl, size_objectWrite o bb⟩ trivial
  | generator g =>
    exact iff_of_false (not_sizeIsWritten_ofGenerator g bb) id
  | person p =>
    exact iff_of_true ⟨p.size, p.write bb, rfl, rfl, size_personWrite p bb⟩ trivial
  | command c =>
    obtain ⟨n, m, h, -, heq⟩ := measured_wellBuilt hx
    obtain ⟨bb', hwrite, hbytes⟩ := h.write bb
    rw [← heq]
    constructor
    · rintro ⟨n', bb'', hsize', hwrite', hbytes'⟩
      obtain rfl : n = n' := by simpa [Streamed.size, h.size] using hsize'
      obtain rfl : bb' = bb'' := by simpa [Streamed.write, hwrite] using hwrite'
      omega
    · rintro rfl
      exact ⟨n, bb', h.size, hwrite, hbytes⟩

/-- A composite with a `NullCommand` announces 635 bytes and writes 1262. -/
theorem not_sizeIsWritten_group :
    ¬ SizeIsWritten (.command (.composite (ofChildren ⟨⟨1⟩, .T⟩ [.null ⟨⟨2⟩, .T⟩])) :
      Streamed Empty) BinaryBuffer.new :=
  mt (sizeIsWritten_iff (.command (.composite (ofChildren ⟨⟨1⟩, .T⟩ [.null ⟨⟨2⟩, .T⟩])))
    (wellBuilt_ofChildren _ (by decide) (by simp [WellBuilt.null])) BinaryBuffer.new).mp id

theorem not_sizeIsWritten_newGenerator :
    ¬ ∀ (x : Streamed Empty), BuiltUp x → ∀ bb, SizeIsWritten x bb := by
  intro h
  exact not_sizeIsWritten_ofGenerator (Generator.new 1) BinaryBuffer.new
    (h (.generator (Generator.new 1)) trivial BinaryBuffer.new)

end Pensar.Analysis
