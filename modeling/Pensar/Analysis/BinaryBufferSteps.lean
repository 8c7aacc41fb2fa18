import Pensar.Model.BinaryBuffer

/-!
# What one call on a `BinaryBuffer` does

`write_buffer` puts the vector after a write in normal form, whether or not the write
had to grow it, and `write_write` says that two writes are one write of both spans.
A read sees the buffer only through `readable`, the bytes from `read_pos` to the end of
the vector: `read_of_readable` and `read_of_short` are its two outcomes.
-/

set_option autoImplicit false

namespace Pensar.Analysis

open Pensar.Computation
open Pensar.Model

/-! ## `resize` and `memcpyAt` -/

@[simp] theorem resize_length (buffer : List Byte) (n : ℕ) : (resize buffer n).length = n := by
  simp only [resize, List.length_append, List.length_take, List.length_replicate]
  omega

theorem resize_of_le {buffer : List Byte} {n : ℕ} (h : n ≤ buffer.length) :
    resize buffer n = buffer.take n := by
  simp [resize, Nat.sub_eq_zero_of_le h]

theorem take_resize {buffer : List Byte} {m n : ℕ} (h : m ≤ n) :
    (resize buffer n).take m = resize buffer m := by
  have hmin : min (m - min n buffer.length) (n - buffer.length) = m - buffer.length := by omega
  simp [resize, List.take_append, List.take_take, Nat.min_eq_left h, hmin]

theorem memcpyAt_zero {buffer src : List Byte} (h : buffer.length ≤ src.length) :
    memcpyAt buffer 0 src = src := by
  simp [memcpyAt, List.drop_eq_nil_of_le h]

namespace BinaryBuffer

open Pensar.Model.BinaryBuffer

/-! ## Writing -/

/-- The vector after a write: the bytes before `write_pos`, with zeros up to it if it
lay past the end, then the span, then whatever the vector held after it. -/
theorem write_buffer (bb : BinaryBuffer) (src : List Byte) :
    (bb.write src).buffer =
      resize bb.buffer bb.writePos ++ src ++ bb.buffer.drop (bb.writePos + src.length) := by
  by_cases h : bb.writePos + src.length > bb.buffer.length
  · have hdrop : (resize bb.buffer (bb.writePos + src.length)).drop
        (bb.writePos + src.length) = [] := List.drop_eq_nil_of_le (by simp)
    have hdrop' : bb.buffer.drop (bb.writePos + src.length) = [] :=
      List.drop_eq_nil_of_le (by omega)
    simp only [write, if_pos h, memcpyAt, hdrop, hdrop', List.append_nil,
      take_resize (Nat.le_add_right _ _)]
  · simp only [write, if_neg h, memcpyAt, resize_of_le (by omega : bb.writePos ≤ bb.buffer.length)]

@[simp] theorem write_writePos (bb : BinaryBuffer) (src : List Byte) :
    (bb.write src).writePos = bb.writePos + src.length := rfl

@[simp] theorem write_readPos (bb : BinaryBuffer) (src : List Byte) :
    (bb.write src).readPos = bb.readPos := rfl

/-- A write leaves `write_pos` inside the vector, wherever it was before. -/
theorem write_inBounds (bb : BinaryBuffer) (src : List Byte) :
    (bb.write src).writePos ≤ (bb.write src).buffer.length := by
  simp [write_buffer]

theorem write_written (bb : BinaryBuffer) (src : List Byte) :
    (bb.write src).buffer.take (bb.writePos + src.length) =
      resize bb.buffer bb.writePos ++ src := by
  rw [write_buffer]
  exact List.take_left' (by simp)

theorem write_nil {bb : BinaryBuffer} (h : bb.writePos ≤ bb.buffer.length) : bb.write [] = bb := by
  have hbuffer : (bb.write []).buffer = bb.buffer := by
    simp [write_buffer, resize_of_le h]
  exact BinaryBuffer.ext hbuffer rfl rfl

/-- **Two writes are one.** -/
theorem write_write (bb : BinaryBuffer) (xs ys : List Byte) :
    (bb.write xs).write ys = bb.write (xs ++ ys) := by
  have hresize : resize (bb.write xs).buffer (bb.write xs).writePos =
      resize bb.buffer bb.writePos ++ xs := by
    rw [resize_of_le (write_inBounds bb xs), write_writePos, write_written]
  have hdrop : (bb.write xs).buffer.drop ((bb.write xs).writePos + ys.length) =
      bb.buffer.drop (bb.writePos + (xs ++ ys).length) := by
    have hlen : (resize bb.buffer bb.writePos ++ xs).length = bb.writePos + xs.length := by simp
    rw [write_buffer, write_writePos, ← hlen, ← List.drop_drop, List.drop_left,
      List.drop_drop, hlen,
      List.length_append, add_assoc]
  have hbuffer : ((bb.write xs).write ys).buffer = (bb.write (xs ++ ys)).buffer := by
    rw [write_buffer, hresize, hdrop, write_buffer, List.append_assoc _ xs ys]
  have hpos : ((bb.write xs).write ys).writePos = (bb.write (xs ++ ys)).writePos := by
    simp [add_assoc]
  exact BinaryBuffer.ext hbuffer hpos rfl

/-! ## Reading -/

/-- The bytes a read can still reach: to the end of the vector, whatever `write_pos` is. -/
def readable (bb : BinaryBuffer) : List Byte := bb.buffer.drop bb.readPos

def advance (bb : BinaryBuffer) (n : ℕ) : BinaryBuffer := { bb with readPos := bb.readPos + n }

@[simp] theorem readable_advance (bb : BinaryBuffer) (n : ℕ) :
    readable (advance bb n) = (readable bb).drop n := by
  simp [readable, advance]

@[simp] theorem advance_advance (bb : BinaryBuffer) (m n : ℕ) :
    advance (advance bb m) n = advance bb (m + n) := by
  simp [advance, add_assoc]

@[simp] theorem advance_writePos (bb : BinaryBuffer) (n : ℕ) :
    (advance bb n).writePos = bb.writePos := rfl

@[simp] theorem advance_zero (bb : BinaryBuffer) : advance bb 0 = bb := rfl

theorem read_of_le {bb : BinaryBuffer} {dest : List Byte} (h0 : 0 < dest.length)
    (h : dest.length ≤ (readable bb).length) :
    bb.read dest = ((readable bb).take dest.length, advance bb dest.length, []) := by
  simp only [readable, List.length_drop] at h
  unfold BinaryBuffer.read
  rw [if_neg (by omega)]
  rfl

theorem read_of_short {bb : BinaryBuffer} {dest : List Byte}
    (h : (readable bb).length < dest.length) :
    bb.read dest = (dest, bb, [underflow]) := by
  simp only [readable, List.length_drop] at h
  unfold BinaryBuffer.read
  rw [if_pos (by omega)]

theorem readPod_of_le {α : Type} {bb : BinaryBuffer} {L : Layout α} (pod : α) (h0 : 0 < L.width)
    (h : L.width ≤ (readable bb).length) :
    bb.readPod L pod = (L.decode ((readable bb).take L.width), advance bb L.width, []) := by
  have hlen : (L.encode pod).length = L.width := L.encode_length pod
  unfold readPod
  rw [read_of_le (by omega) (by omega), hlen]

theorem readPod_of_short {α : Type} {bb : BinaryBuffer} {L : Layout α} (pod : α)
    (h : (readable bb).length < L.width) :
    bb.readPod L pod = (pod, bb, [underflow]) := by
  have hread : bb.read (L.encode pod) = (L.encode pod, bb, [underflow]) :=
    read_of_short (by simpa using h)
  simp only [readPod, hread, L.decode_encode]

end BinaryBuffer

end Pensar.Analysis
