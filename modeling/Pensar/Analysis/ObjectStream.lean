import Pensar.Analysis.RecordReads
import Pensar.Model.Generator
import Pensar.Model.Person

/-!
# Streams of objects

Values of the three classes written one after another come back in order.  The framing
argument is `Unread`: a write puts the bytes of a value behind the queue
(`value_write_unread`), and a read that finds them in front takes exactly them
(`value_read_unread`), so the two inductions over the sequence only pass the queue along.
-/

set_option autoImplicit false

namespace Pensar.Analysis

open Pensar.Computation
open Pensar.Model
open Pensar.Analysis.BinaryBuffer

/-! ## Framing -/

theorem unread_readable {bb : BinaryBuffer} {q : List Byte} (h : Unread bb q) :
    ∃ stale, readable bb = q ++ stale := by
  refine ⟨bb.buffer.drop bb.writePos, ?_⟩
  have hord := h.ordered
  rw [h.content, List.drop_take, readable]
  conv_lhs => rw [← List.take_append_drop (bb.writePos - bb.readPos) (bb.buffer.drop bb.readPos)]
  rw [List.drop_drop, Nat.add_sub_cancel' hord]

namespace RecordType

variable {α : Type} (R : RecordType α)

theorem record_write_unread {bb : BinaryBuffer} {q : List Byte} (h : Unread bb q) (x : α) :
    Unread (R.write bb x) (q ++ encode R x) := by
  rw [write_eq]
  exact unread_write h _

theorem record_read_unread {bb : BinaryBuffer} {q : List Byte} {y : α}
    (h : Unread bb (encode R y ++ q)) (x : α) :
    ∃ n, R.read bb x = (y, advance bb n, []) ∧ Unread (advance bb n) q := by
  obtain ⟨stale, hstale⟩ := unread_readable h
  rw [List.append_assoc] at hstale
  refine ⟨(encode R y).length, record_read_encode R bb x y hstale, ?_⟩
  have hadv := unread_advance h (n := (encode R y).length) (by simp)
  rwa [List.drop_left] at hadv

end RecordType

open RecordType

def derivedBytes {δ : Type} (R : RecordType δ) (o : Derived δ) : List Byte :=
  encode Object.record o.object.mid ++ encode R o.mdata

theorem derived_write_unread {δ : Type} (R : RecordType δ) {bb : BinaryBuffer} {q : List Byte}
    (h : Unread bb q) (o : Derived δ) :
    Unread (Derived.write R o bb) (q ++ derivedBytes R o) := by
  have hobject := record_write_unread Object.record h o.object.mid
  have hdata := record_write_unread R hobject o.mdata
  rwa [List.append_assoc] at hdata

theorem derived_read_unread {δ : Type} (R : RecordType δ) {bb : BinaryBuffer} {q : List Byte}
    {o : Derived δ} (h : Unread bb (derivedBytes R o ++ q)) (target : Derived δ) :
    ∃ n, Derived.read R target bb = (o, advance bb n, []) ∧ Unread (advance bb n) q := by
  unfold derivedBytes at h
  rw [List.append_assoc] at h
  obtain ⟨m, hobject, h₁⟩ := record_read_unread Object.record h target.object.mid
  obtain ⟨n, hdata, h₂⟩ := record_read_unread R h₁ target.mdata
  rw [advance_advance] at hdata h₂
  refine ⟨m + n, ?_, h₂⟩
  simp [Derived.read, Object.read, hobject, hdata]

/-! ## Sequences of values -/

/-- A value of one of the three classes. -/
inductive Value where
  | object (o : Object)
  | generator (g : Generator)
  | person (p : Person)
  deriving DecidableEq

namespace Value

def write : Value → BinaryBuffer → BinaryBuffer
  | object o, bb => o.write bb
  | generator g, bb => g.write bb
  | person p, bb => p.write bb

/-- The virtual `read`, over the object itself. -/
def read : Value → BinaryBuffer → Value × BinaryBuffer × Log
  | object o, bb => let (o, bb, log) := o.read bb; (object o, bb, log)
  | generator g, bb => let (g, bb, log) := g.read bb; (generator g, bb, log)
  | person p, bb => let (p, bb, log) := p.read bb; (person p, bb, log)

def SameClass : Value → Value → Prop
  | object _, object _ => True
  | generator _, generator _ => True
  | person _, person _ => True
  | _, _ => False

def writeAll (vs : List Value) (bb : BinaryBuffer) : BinaryBuffer :=
  vs.foldl (fun bb v => v.write bb) bb

/-- Read over one object after another. -/
def readAll : List Value → BinaryBuffer → List Value × BinaryBuffer × Log
  | [], bb => ([], bb, [])
  | v :: vs, bb =>
    let (v, bb, log) := v.read bb
    let (vs, bb, log') := readAll vs bb
    (v :: vs, bb, log ++ log')

def bytes : Value → List Byte
  | object o => encode Object.record o.mid
  | generator g => derivedBytes Generator.record g
  | person p => derivedBytes Person.record p

end Value

theorem value_write_unread {bb : BinaryBuffer} {q : List Byte} (h : Unread bb q) (v : Value) :
    Unread (v.write bb) (q ++ v.bytes) := by
  cases v with
  | object o => exact record_write_unread Object.record h o.mid
  | generator g => exact derived_write_unread Generator.record h g
  | person p => exact derived_write_unread Person.record h p

theorem value_read_unread {bb : BinaryBuffer} {q : List Byte} {v : Value}
    (h : Unread bb (v.bytes ++ q)) (target : Value) (hclass : target.SameClass v) :
    ∃ n, target.read bb = (v, advance bb n, []) ∧ Unread (advance bb n) q := by
  cases v with
  | object o =>
    cases target with
    | object t =>
      obtain ⟨n, hread, h'⟩ := record_read_unread Object.record h t.mid
      exact ⟨n, by simp [Value.read, Object.read, hread], h'⟩
    | generator _ => exact hclass.elim
    | person _ => exact hclass.elim
  | generator g =>
    cases target with
    | generator t =>
      obtain ⟨n, hread, h'⟩ := derived_read_unread Generator.record h t
      exact ⟨n, by simp [Value.read, Generator.read, hread], h'⟩
    | object _ => exact hclass.elim
    | person _ => exact hclass.elim
  | person p =>
    cases target with
    | person t =>
      obtain ⟨n, hread, h'⟩ := derived_read_unread Person.record h t
      exact ⟨n, by simp [Value.read, Person.read, hread], h'⟩
    | object _ => exact hclass.elim
    | generator _ => exact hclass.elim

theorem writeAll_unread {bb : BinaryBuffer} {q : List Byte} (h : Unread bb q) (vs : List Value) :
    Unread (Value.writeAll vs bb) (q ++ vs.flatMap Value.bytes) := by
  induction vs generalizing bb q with
  | nil => simpa [Value.writeAll] using h
  | cons v vs ih =>
    have hrest := ih (value_write_unread h v)
    rwa [List.append_assoc, ← List.flatMap_cons] at hrest

theorem readAll_unread {bb : BinaryBuffer} (targets vs : List Value)
    (hclass : List.Forall₂ Value.SameClass targets vs) (h : Unread bb (vs.flatMap Value.bytes)) :
    ∃ n, Value.readAll targets bb = (vs, advance bb n, []) ∧ Unread (advance bb n) [] := by
  induction hclass generalizing bb with
  | nil => exact ⟨0, rfl, h⟩
  | @cons target v targets vs hv _ ih =>
    rw [List.flatMap_cons] at h
    obtain ⟨m, hread, h₁⟩ := value_read_unread h target hv
    obtain ⟨n, hrest, h₂⟩ := ih h₁
    rw [advance_advance] at hrest h₂
    exact ⟨m + n, by simp [Value.readAll, hread, hrest], h₂⟩

/-- **Stream round trip.**  Whatever is written to an empty buffer, new or cleared, is
what reading the same classes over any objects gives back, without a report, and the
last read ends where the last write did. -/
theorem readAll_writeAll (vs targets : List Value)
    (hclass : List.Forall₂ Value.SameClass targets vs) (bb : BinaryBuffer)
    (hwrite : bb.writePos = 0) (hread : bb.readPos = 0) :
    ∃ bb', Value.readAll targets (Value.writeAll vs bb) = (vs, bb', []) ∧
      bb'.readPos = (Value.writeAll vs bb).writePos := by
  have hempty : Unread bb [] := ⟨by omega, by omega, by simp [hwrite]⟩
  have hwritten := writeAll_unread hempty vs
  rw [List.nil_append] at hwritten
  obtain ⟨n, hall, hend⟩ := readAll_unread targets vs hclass hwritten
  refine ⟨advance (Value.writeAll vs bb) n, hall, ?_⟩
  have hnone : 0 = (Value.writeAll vs bb).writePos - (advance (Value.writeAll vs bb) n).readPos :=
    hend.length_eq
  have hord : (advance (Value.writeAll vs bb) n).readPos ≤ (Value.writeAll vs bb).writePos :=
    hend.ordered
  omega

/-- A generator and an object, read over others of their classes. -/
theorem readAll_writeAll_two :
    ∃ bb', Value.readAll [.generator (.new 9 9 9), .object ⟨0⟩]
        (Value.writeAll [.generator (.new 1 1 2), .object ⟨42⟩] BinaryBuffer.new) =
      ([.generator (.new 1 1 2), .object ⟨42⟩], bb', []) := by
  obtain ⟨bb', hall, -⟩ := readAll_writeAll [.generator (.new 1 1 2), .object ⟨42⟩]
    [.generator (.new 9 9 9), .object ⟨0⟩] (.cons trivial (.cons trivial .nil))
    BinaryBuffer.new rfl rfl
  exact ⟨bb', hall⟩

end Pensar.Analysis
