import Pensar.Analysis.CommandReads
import Pensar.Model.Person

/-!
# Failed reads of derived objects

Each of the two records of a derived object is read all or nothing.  But `Object::read`
has no way to say that it failed, so the second record is read whatever became of the
first, and the first has replaced the id before the second is looked at.  A failed read
therefore leaves the object alone only where the one record that was good says what the
object held already (`keepsOnFailure_iff`).
-/

set_option autoImplicit false

namespace Pensar.Analysis

open Pensar.Computation
open Pensar.Model
open Pensar.Analysis.BinaryBuffer
open Pensar.Analysis.RecordType

/-- If the read reports anything, the object is what it was. -/
def KeepsOnFailure {α : Type} (read : α → BinaryBuffer → α × BinaryBuffer × Log) (x : α)
    (bb : BinaryBuffer) : Prop :=
  (read x bb).2.2 ≠ [] → (read x bb).1 = x

/-- Where exactly one of the two records is good, it is the object's own. -/
def OnlyOwnRecord {δ : Type} (R : RecordType δ) (o : Derived δ) (bytes : List Byte) : Prop :=
  match parse Object.record bytes, parseDerived R bytes with
  | some mid, none => mid = o.object.mid
  | none, some mdata => mdata = o.mdata
  | some _, some _ => True
  | none, none => True

theorem keepsOnFailure_iff {δ : Type} (R : RecordType δ) (o : Derived δ) (bb : BinaryBuffer) :
    KeepsOnFailure (Derived.read R) o bb ↔ OnlyOwnRecord R o (readable bb) := by
  obtain ⟨log, hread, hlog⟩ := derived_read R o bb
  rw [KeepsOnFailure, hread, OnlyOwnRecord, Ne, hlog]
  cases parse Object.record (readable bb) with
  | none =>
    cases parseDerived R (readable bb) with
    | none => simp
    | some mdata => simp [Derived.ext_iff]
  | some mid =>
    cases parseDerived R (readable bb) with
    | none => simp [Derived.ext_iff, Object.ext_iff]
    | some mdata => simp

/-- A `CompositeCommand` begins with the same read and does not touch the id or the run
flag after it. -/
theorem compositeCommand_read_base {L : Type} {cc : CompositeCommand (Command L)}
    {bb : BinaryBuffer} {g : Generator} {r : ReadResult (CompositeCommand (Command L))}
    (h : cc.read bb g = .value r) : r.cmd.base = (cc.base.read bb).1 := by
  obtain ⟨base, bb₁, log, hbase, -⟩ := read_command cc.base bb
  simp only [CompositeCommand.read, hbase] at h
  obtain ⟨r', -, hr⟩ := (Outcome.bind_eq_value_iff _ _ _).mp h
  simp only [Outcome.pure_eq, Outcome.value.injEq] at hr
  rw [← hr, hbase]

/-- **A failed read leaves an object alone exactly where no good record but its own was in
the stream.** -/
theorem failed_reads_keep_iff (g : Generator) (p : Person) (c : CommandBase)
    (bb : BinaryBuffer) :
    (KeepsOnFailure Generator.read g bb ↔ OnlyOwnRecord Generator.record g (readable bb)) ∧
    (KeepsOnFailure Person.read p bb ↔ OnlyOwnRecord Person.record p (readable bb)) ∧
    (KeepsOnFailure CommandBase.read c bb ↔
      OnlyOwnRecord CommandBase.record c (readable bb)) :=
  ⟨keepsOnFailure_iff Generator.record g bb, keepsOnFailure_iff Person.record p bb,
    keepsOnFailure_iff CommandBase.record c bb⟩

/-- A generator with the id 1 reads a stream that ends after the record of an `Object` with
the id 5. -/
theorem failed_read_changes_id :
    ¬ ∀ (g : Generator) (bb : BinaryBuffer), KeepsOnFailure Generator.read g bb := by
  intro h
  have hbytes : readable (Object.write ⟨5⟩ .new) = encode Object.record 5 := by
    simp [Object.write, write_eq, readable, write_buffer, BinaryBuffer.new, resize]
  have hobject : parse Object.record (encode Object.record 5) = some 5 := by
    simpa using parse_encode Object.record 5 []
  have hdata : parseDerived Generator.record (encode Object.record 5) = none := by
    have hrest : (encode Object.record 5).drop (206 + Object.record.layout.width) = [] :=
      List.drop_eq_nil_of_le (by rw [encode_length])
    rw [parseDerived, consumed_of_parse Object.record hobject, hrest, parse,
      if_neg (by simp)]
  have hiff (g : Generator) (bb : BinaryBuffer) :
      KeepsOnFailure Generator.read g bb ↔ OnlyOwnRecord Generator.record g (readable bb) :=
    keepsOnFailure_iff Generator.record g bb
  have honly := h (Generator.new 1) (Object.write ⟨5⟩ .new)
  rw [hiff] at honly
  simp only [OnlyOwnRecord, hbytes, hobject, hdata] at honly
  revert honly
  decide

end Pensar.Analysis
