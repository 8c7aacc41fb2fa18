import Pensar.Interface.BufferHistory
import Pensar.Analysis.BinaryBufferSteps

/-!
# A `BinaryBuffer` as a queue of bytes

`Unread bb q` is the simulation relation: both positions lie inside the vector in order,
and `q` is what lies between them.  Every call keeps it, a read as long as it is not met
by stale bytes (`unread_step`), and a read answers as the queue does exactly then
(`unread_answer`).  So a whole history answers as the queue does exactly when none of its
reads is met by stale bytes (`outputs_eq_queue_iff`).

What `write_pos` covers does not depend on the reads at all: `data()` is the content of
the history (`data_eq_content`).
-/

set_option autoImplicit false

namespace Pensar.Analysis.BinaryBuffer

open Pensar.Computation
open Pensar.Model
open Pensar.Model.BinaryBuffer
open Pensar.Interface

/-! ## Single calls as steps -/

theorem step_read (bb : BinaryBuffer) (dest : List Byte) :
    machine.step bb (.read dest) =
      if bb.readPos + dest.length > bb.buffer.length then (bb, .failed)
      else (advance bb dest.length, .taken ((readable bb).take dest.length)) := by
  by_cases h : bb.readPos + dest.length > bb.buffer.length
  · simp [machine, BinaryBuffer.read, h]
  · simp [machine, BinaryBuffer.read, h, advance, readable]

theorem loadFromFile_of_loaded {file : FileRead} {bytes : List Byte}
    (h : loaded file = some bytes) (bb : BinaryBuffer) :
    bb.loadFromFile file = (.ok (), ⟨bytes, bytes.length, 0⟩) := by
  cases file with
  | openFailed => simp [loaded] at h
  | sizeUnknown => simp [loaded] at h
  | content fileSize available =>
    simp only [loaded, Option.ite_none_right_eq_some, Option.some.injEq] at h
    obtain ⟨hle, rfl⟩ := h
    have hlen : (available.take fileSize).length = fileSize := by simp [hle]
    simp [loadFromFile, hlen, memcpyAt_zero]

theorem step_loadFromFile {file : FileRead} {bytes : List Byte} (h : loaded file = some bytes)
    (bb : BinaryBuffer) :
    machine.step bb (.loadFromFile file) = (⟨bytes, bytes.length, 0⟩, .done) := by
  simp [machine, loadFromFile_of_loaded h]

/-! ## The queue between the two positions -/

/-- `q` is what has been written and not been read. -/
structure Unread (bb : BinaryBuffer) (q : List Byte) : Prop where
  inBounds : bb.writePos ≤ bb.buffer.length
  ordered : bb.readPos ≤ bb.writePos
  content : q = (bb.buffer.take bb.writePos).drop bb.readPos

theorem Unread.length_eq {bb : BinaryBuffer} {q : List Byte} (h : Unread bb q) :
    q.length = bb.writePos - bb.readPos := by
  have := h.inBounds
  simp [h.content, Nat.min_eq_left h.inBounds]

theorem Unread.take_readable {bb : BinaryBuffer} {q : List Byte} (h : Unread bb q) {n : ℕ}
    (hn : n ≤ q.length) : (readable bb).take n = q.take n := by
  have hlen := h.length_eq
  have hord := h.ordered
  rw [h.content, List.drop_take, List.take_take, readable, Nat.min_eq_left (by omega)]

theorem unread_new : Unread BinaryBuffer.new [] := ⟨le_rfl, le_rfl, rfl⟩

theorem unread_write {bb : BinaryBuffer} {q : List Byte} (h : Unread bb q) (src : List Byte) :
    Unread (bb.write src) (q ++ src) where
  inBounds := write_inBounds bb src
  ordered := h.ordered.trans (Nat.le_add_right _ _)
  content := by
    have hlen : bb.readPos ≤ (bb.buffer.take bb.writePos).length := by
      have := h.inBounds
      have := h.ordered
      simp; omega
    rw [write_writePos, write_readPos, write_written, resize_of_le h.inBounds,
      List.drop_append_of_le_length hlen, ← h.content]

theorem unread_advance {bb : BinaryBuffer} {q : List Byte} (h : Unread bb q) {n : ℕ}
    (hn : n ≤ q.length) : Unread (advance bb n) (q.drop n) where
  inBounds := h.inBounds
  ordered := by
    have := h.length_eq
    have := h.ordered
    simp only [advance]
    omega
  content := by
    rw [h.content, List.drop_drop]
    rfl

theorem unread_clear (bb : BinaryBuffer) : Unread bb.clear [] :=
  ⟨Nat.zero_le _, le_rfl, rfl⟩

theorem unread_loaded (bytes : List Byte) : Unread ⟨bytes, bytes.length, 0⟩ bytes :=
  ⟨le_rfl, Nat.zero_le _, by simp⟩

/-- Every call keeps the relation, a read unless stale bytes meet it. -/
theorem unread_step (bb : BinaryBuffer) (q : List Byte) (op : Op) (hop : LoadSucceeds op)
    (h : Unread bb q) (hfresh : NotStale bb op) :
    Unread (machine.step bb op).1 ((Queue.machine Byte).step q (toQueue op)).1 := by
  cases op with
  | write src => exact unread_write h src
  | clear => exact unread_clear bb
  | loadFromFile file =>
    obtain ⟨bytes, hbytes⟩ := Option.isSome_iff_exists.mp hop
    rw [step_loadFromFile hbytes]
    simpa [toQueue, hbytes] using unread_loaded bytes
  | read dest =>
    have hlen := h.length_eq
    have hord := h.ordered
    have hin := h.inBounds
    rw [step_read]
    by_cases hn : dest.length ≤ q.length
    · rw [if_neg (by omega), toQueue, Queue.step_take_of_le hn]
      exact unread_advance h hn
    · have hpast : bb.buffer.length < bb.readPos + dest.length := hfresh (by omega)
      rw [if_pos (by omega), toQueue, Queue.step_take_of_lt (by omega)]
      exact h

/-- A call answers as the queue does, a read exactly when no stale bytes meet it: there
the buffer hands out bytes and the queue has none left. -/
theorem unread_answer (bb : BinaryBuffer) (q : List Byte) (op : Op) (hop : LoadSucceeds op)
    (h : Unread bb q) :
    (machine.step bb op).2 = ((Queue.machine Byte).step q (toQueue op)).2 ↔ NotStale bb op := by
  cases op with
  | write src => exact iff_of_true rfl trivial
  | clear => exact iff_of_true rfl trivial
  | loadFromFile file =>
    obtain ⟨bytes, hbytes⟩ := Option.isSome_iff_exists.mp hop
    rw [step_loadFromFile hbytes]
    exact iff_of_true rfl trivial
  | read dest =>
    have hlen := h.length_eq
    have hord := h.ordered
    have hin := h.inBounds
    rw [step_read, NotStale, toQueue]
    by_cases hn : dest.length ≤ q.length
    · rw [if_neg (by omega), Queue.step_take_of_le hn, h.take_readable hn]
      exact iff_of_true rfl (by omega)
    · rw [Queue.step_take_of_lt (by omega)]
      by_cases hpast : bb.readPos + dest.length > bb.buffer.length
      · rw [if_pos hpast]
        exact iff_of_true rfl (fun _ => hpast)
      · rw [if_neg hpast]
        simp only [reduceCtorEq, false_iff, not_forall]
        exact ⟨by omega, by omega⟩

/-- **A history answers as a queue of bytes exactly when none of its reads is met by
stale bytes**: bytes beyond `write_pos` that a `clear` left in the vector. -/
theorem outputs_eq_queue_iff (ops : List Op) (hload : ∀ op ∈ ops, LoadSucceeds op) :
    machine.outputs BinaryBuffer.new ops = (Queue.machine Byte).outputs [] (ops.map toQueue) ↔
      machine.Along NotStale BinaryBuffer.new ops :=
  Machine.outputs_eq_iff machine toQueue Unread LoadSucceeds (Queue.machine Byte) NotStale
    unread_answer unread_step BinaryBuffer.new [] ops hload unread_new

/-- A cleared vector still holds its bytes, and a read of no more than was written since
does not meet them. -/
theorem outputs_eq_queue_iff_after_clear :
    machine.outputs BinaryBuffer.new [.write [1, 2, 3, 4], .clear, .write [5, 6], .read [0, 0]] =
      (Queue.machine Byte).outputs [] [.put [1, 2, 3, 4], .refill [], .put [5, 6], .take 2] :=
  (outputs_eq_queue_iff [.write [1, 2, 3, 4], .clear, .write [5, 6], .read [0, 0]]
    (by simp [LoadSucceeds])).mpr
    ⟨trivial, trivial, trivial, by intro h; exact absurd h (by decide), trivial⟩

/-- Four bytes are written and cleared, then two are written: a read of four bytes gets
the last two of the first four along with them. -/
theorem outputs_ne_queue_stale :
    ¬ ∀ ops : List Op, (∀ op ∈ ops, LoadSucceeds op) →
      machine.outputs BinaryBuffer.new ops =
        (Queue.machine Byte).outputs [] (ops.map toQueue) := by
  intro h
  have hrun := h [.write [1, 2, 3, 4], .clear, .write [5, 6], .read [0, 0, 0, 0]]
    (by simp [LoadSucceeds])
  revert hrun
  decide

/-! ## The content below `write_pos` -/

/-- `c` is what `write_pos` covers. -/
structure Covers (bb : BinaryBuffer) (c : List Byte) : Prop where
  inBounds : bb.writePos ≤ bb.buffer.length
  content : c = bb.buffer.take bb.writePos

theorem Covers.data_eq {bb : BinaryBuffer} {c : List Byte} (h : Covers bb c) :
    bb.data = some c := by
  unfold data
  rw [if_pos h.inBounds, h.content]

theorem Covers.size_eq {bb : BinaryBuffer} {c : List Byte} (h : Covers bb c) :
    bb.size = c.length := by
  simp [size, h.content, Nat.min_eq_left h.inBounds]

theorem covers_step (bb : BinaryBuffer) (c : List Byte) (op : Op) (hop : LoadSucceeds op)
    (h : Covers bb c) :
    Covers (machine.step bb op).1 ((Queue.contentMachine Byte).step c (toQueue op)).1 := by
  cases op with
  | write src =>
    refine ⟨write_inBounds bb src, ?_⟩
    show c ++ src = (bb.write src).buffer.take (bb.write src).writePos
    rw [write_writePos, write_written, resize_of_le h.inBounds, ← h.content]
  | clear => exact ⟨Nat.zero_le _, rfl⟩
  | loadFromFile file =>
    obtain ⟨bytes, hbytes⟩ := Option.isSome_iff_exists.mp hop
    rw [step_loadFromFile hbytes]
    exact ⟨le_rfl, by simp [toQueue, hbytes, Queue.contentMachine]⟩
  | read dest =>
    rw [step_read]
    split
    · exact h
    · exact ⟨h.inBounds, h.content⟩

theorem covers_run (ops : List Op) (hload : ∀ op ∈ ops, LoadSucceeds op) :
    Covers (machine.run BinaryBuffer.new ops) (Queue.content (ops.map toQueue)) := by
  unfold Queue.content
  exact Machine.run_relation machine toQueue Covers LoadSucceeds (Queue.contentMachine Byte)
    covers_step BinaryBuffer.new [] ops hload ⟨le_rfl, rfl⟩

/-- A read that reports an underflow leaves the destination and the buffer alone. -/
theorem read_underflow {bb bb' : BinaryBuffer} {dest dest' : List Byte} {log : Log}
    (hread : bb.read dest = (dest', bb', log)) (hlog : underflow ∈ log) :
    dest' = dest ∧ bb' = bb := by
  unfold BinaryBuffer.read at hread
  split at hread
  · simp only [Prod.mk.injEq] at hread
    exact ⟨hread.1.symm, hread.2.1.symm⟩
  · simp only [Prod.mk.injEq] at hread
    simp [← hread.2.2] at hlog

/-- **`data()` is the content of the history and `size()` its length**, and a read that
reports an underflow changes nothing a caller can see. -/
theorem data_eq_content (ops : List Op) (hload : ∀ op ∈ ops, LoadSucceeds op) :
    let bb := machine.run BinaryBuffer.new ops
    bb.data = some (Queue.content (ops.map toQueue)) ∧
      bb.size = (Queue.content (ops.map toQueue)).length ∧
      ∀ dest dest' bb' log, bb.read dest = (dest', bb', log) → underflow ∈ log →
        dest' = dest ∧ bb'.data = bb.data ∧ bb'.size = bb.size ∧ bb'.readPos = bb.readPos := by
  intro bb
  have hcovers : Covers bb (Queue.content (ops.map toQueue)) := covers_run ops hload
  refine ⟨hcovers.data_eq, hcovers.size_eq, ?_⟩
  intro dest dest' bb' log hread hlog
  obtain ⟨hdest, hbb⟩ := read_underflow hread hlog
  subst hbb
  exact ⟨hdest, rfl, rfl, rfl⟩

/-- A shorter content over a longer stale one, with a read in between. -/
theorem data_eq_content_after_clear :
    (machine.run BinaryBuffer.new
      [.write [1, 2, 3], .read [0], .clear, .write [4], .loadFromFile (.content 1 [9]),
        .write [5]]).data = some [9, 5] :=
  (data_eq_content [.write [1, 2, 3], .read [0], .clear, .write [4],
    .loadFromFile (.content 1 [9]), .write [5]] (by simp [LoadSucceeds, loaded])).1

end Pensar.Analysis.BinaryBuffer
