import Pensar.Analysis.BinaryBufferQueue
import Pensar.Model.Object

/-!
# Reading and writing records

What a record read does is decided by the bytes in front of it: `parse` is the record
that stands there, if a good one does, and `consumed` the number of bytes the read moves
over, which for a bad record is the `ClassInfo` or nothing.  `record_read` says that a
read is these two functions, and that it reports something exactly when there is no good
record.  `parse_encode` is the other half of the round trip.
-/

set_option autoImplicit false

namespace Pensar.Analysis

open Pensar.Computation
open Pensar.Model
open Pensar.Analysis.BinaryBuffer

namespace RecordType

variable {α : Type} (R : RecordType α)

def encode (x : α) : List Byte := R.info.bytes ++ R.layout.encode x

@[simp] theorem encode_length (x : α) : (encode R x).length = 206 + R.layout.width := by
  simp [encode]

theorem write_eq (bb : BinaryBuffer) (x : α) : R.write bb x = bb.write (encode R x) :=
  write_write bb _ _

/-- The record in front of the bytes, if they begin with the right `ClassInfo` and go on
long enough. -/
def parse (bytes : List Byte) : Option α :=
  if bytes.take 206 = R.info.bytes ∧ 206 + R.layout.width ≤ bytes.length then
    some (R.layout.decode ((bytes.drop 206).take R.layout.width))
  else none

def consumed (bytes : List Byte) : ℕ :=
  if bytes.length < 206 then 0
  else if bytes.take 206 = R.info.bytes ∧ 206 + R.layout.width ≤ bytes.length then
    206 + R.layout.width
  else 206

theorem parse_encode (x : α) (rest : List Byte) : parse R (encode R x ++ rest) = some x := by
  have hinfo : (encode R x ++ rest).take 206 = R.info.bytes := by
    unfold encode
    rw [List.append_assoc]
    exact List.take_left' (by simp)
  have hdata : ((encode R x ++ rest).drop 206).take R.layout.width = R.layout.encode x := by
    unfold encode
    rw [List.append_assoc, List.drop_left' (by simp)]
    exact List.take_left' (by simp)
  have hlen : 206 + R.layout.width ≤ (encode R x ++ rest).length := by simp
  unfold parse
  rw [if_pos ⟨hinfo, hlen⟩, hdata, R.layout.decode_encode]

theorem consumed_of_parse {bytes : List Byte} {x : α} (h : parse R bytes = some x) :
    consumed R bytes = 206 + R.layout.width := by
  by_cases hgood : bytes.take 206 = R.info.bytes ∧ 206 + R.layout.width ≤ bytes.length
  · rw [consumed, if_neg (by omega), if_pos hgood]
  · simp [parse, hgood] at h

/-- **A record read is `parse` and `consumed`**, and reports something exactly when there
is no good record. -/
theorem record_read (bb : BinaryBuffer) (x : α) :
    ∃ log, R.read bb x =
        ((parse R (readable bb)).getD x, advance bb (consumed R (readable bb)), log) ∧
      (log = [] ↔ (parse R (readable bb)).isSome) := by
  have hpos := R.width_pos
  by_cases hshort : (readable bb).length < 206
  · -- not even a `ClassInfo`: the default one stays and does not match
    have hinfo := readPod_of_short (L := ClassInfo.layout) ClassInfo.null hshort
    have hparse : parse R (readable bb) = none := if_neg (by omega)
    refine ⟨[BinaryBuffer.underflow, R.mismatch], ?_, by simp [hparse]⟩
    simp [RecordType.read, hinfo, hparse, consumed, hshort, R.info_ne_null.symm]
  · have hinfo := readPod_of_le (L := ClassInfo.layout) ClassInfo.null (by simp)
      (by simpa using hshort : ClassInfo.layout.width ≤ (readable bb).length)
    have hmatch : ClassInfo.layout.decode ((readable bb).take 206) = R.info ↔
        (readable bb).take 206 = R.info.bytes :=
      ClassInfo.layout.decode_eq_iff (by simp; omega) _
    by_cases heq : (readable bb).take 206 = R.info.bytes
    · by_cases hdata : 206 + R.layout.width ≤ (readable bb).length
      · have hlong : R.layout.width ≤ (readable (advance bb 206)).length := by
          simp; omega
        have hread := readPod_of_le x hpos hlong
        have hparse : parse R (readable bb) =
            some (R.layout.decode (((readable bb).drop 206).take R.layout.width)) :=
          if_pos ⟨heq, hdata⟩
        refine ⟨[], ?_, by simp [hparse]⟩
        simp only [readable_advance] at hread
        simp [RecordType.read, hinfo, heq, hread, hparse, consumed, hshort, hdata]
      · have hshort' : (readable (advance bb 206)).length < R.layout.width := by
          simp; omega
        have hread := readPod_of_short x hshort'
        have hparse : parse R (readable bb) = none := if_neg (by omega)
        refine ⟨[BinaryBuffer.underflow], ?_, by simp [hparse]⟩
        simp [RecordType.read, hinfo, heq, hread, hparse, consumed, hshort, hdata]
    · have hparse : parse R (readable bb) = none := if_neg (by simp [heq])
      refine ⟨[R.mismatch], ?_, by simp [hparse]⟩
      have hne : ClassInfo.layout.decode ((readable bb).take 206) ≠ R.info :=
        fun h => heq (hmatch.mp h)
      simp [RecordType.read, hinfo, hne, hparse, consumed, hshort, heq]

/-- A read that finds the bytes of a record gets it, without a report. -/
theorem record_read_encode (bb : BinaryBuffer) (x y : α) {rest : List Byte}
    (h : readable bb = encode R y ++ rest) :
    R.read bb x = (y, advance bb (encode R y).length, []) := by
  obtain ⟨log, hread, hlog⟩ := record_read R bb x
  have hparse : parse R (readable bb) = some y := by rw [h, parse_encode]
  have hnil : log = [] := hlog.mpr (by simp [hparse])
  rw [hread, hparse, consumed_of_parse R hparse, hnil, encode_length]
  rfl

/-! ## Derived objects -/

variable {δ : Type} (R : RecordType δ)

/-- The record of the derived class, if `Object`'s read leaves it in front. -/
def parseDerived (bytes : List Byte) : Option δ :=
  parse R (bytes.drop (consumed Object.record bytes))

def consumedDerived (bytes : List Byte) : ℕ :=
  consumed Object.record bytes + consumed R (bytes.drop (consumed Object.record bytes))

/-- Reading a derived object reads two records, the second whatever the first came to. -/
theorem derived_read (o : Derived δ) (bb : BinaryBuffer) :
    ∃ log, Derived.read R o bb =
        (⟨⟨(parse Object.record (readable bb)).getD o.object.mid⟩,
            (parseDerived R (readable bb)).getD o.mdata⟩,
          advance bb (consumedDerived R (readable bb)), log) ∧
      (log = [] ↔
        (parse Object.record (readable bb)).isSome ∧ (parseDerived R (readable bb)).isSome) := by
  obtain ⟨log, hobject, hlog⟩ := record_read Object.record bb o.object.mid
  obtain ⟨log', hdata, hlog'⟩ :=
    record_read R (advance bb (consumed Object.record (readable bb))) o.mdata
  rw [readable_advance] at hdata hlog'
  refine ⟨log ++ log', ?_, ?_⟩
  · simp [Derived.read, Object.read, hobject, hdata, parseDerived, consumedDerived]
  · rw [List.append_eq_nil_iff, hlog, hlog', parseDerived]

end RecordType

end Pensar.Analysis
