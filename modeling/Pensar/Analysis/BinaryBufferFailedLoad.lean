import Pensar.Analysis.BinaryBufferQueue

/-!
# A load that fails

`load_from_file` resizes the vector to the announced size and reads into it before it knows
how many bytes it gets.  When there are fewer, it leaves both positions, over a vector that
may be shorter than they say, or longer, with zeros, and that starts with what was read.

What a later read can get is `ahead`: reads after two states are answered alike exactly when
these agree (`reads_eq_iff`).

Main result: `failedLoad_keeps_iff`.
-/

set_option autoImplicit false

namespace Pensar.Analysis.BinaryBuffer

open Pensar.Computation
open Pensar.Model
open Pensar.Model.BinaryBuffer
open Pensar.Interface

/-! ## What reads can get -/

/-- The bytes from `read_pos` on; none when it is past the end, where not even a read of no
bytes succeeds. -/
def ahead (bb : BinaryBuffer) : Option (List Byte) :=
  if bb.readPos ≤ bb.buffer.length then some (readable bb) else none

/-- A read of `n` bytes. -/
def takeAhead : Option (List Byte) → ℕ → Option (List Byte) × Queue.Reply Byte
  | none, _ => (none, .failed)
  | some bytes, n =>
    if n ≤ bytes.length then (some (bytes.drop n), .taken (bytes.take n))
    else (some bytes, .failed)

theorem step_read_ahead (bb : BinaryBuffer) (dest : List Byte) :
    ahead (machine.step bb (.read dest)).1 = (takeAhead (ahead bb) dest.length).1 ∧
      (machine.step bb (.read dest)).2 = (takeAhead (ahead bb) dest.length).2 := by
  have hlen : (readable bb).length = bb.buffer.length - bb.readPos := List.length_drop
  rw [step_read]
  by_cases hin : bb.readPos ≤ bb.buffer.length
  · have hahead : ahead bb = some (readable bb) := if_pos hin
    by_cases hmore : bb.readPos + dest.length > bb.buffer.length
    · rw [if_pos hmore, hahead, takeAhead, if_neg (by omega)]
      exact ⟨rfl, rfl⟩
    · have hnext : (advance bb dest.length).readPos ≤ (advance bb dest.length).buffer.length := by
        simp only [advance]
        omega
      rw [if_neg hmore, hahead, takeAhead, if_pos (by omega), ahead, if_pos hnext,
        readable_advance]
      exact ⟨rfl, rfl⟩
  · have hahead : ahead bb = none := if_neg hin
    rw [if_pos (by omega), hahead]
    exact ⟨rfl, rfl⟩

theorem outputs_reads_eq {bb bb' : BinaryBuffer} (h : ahead bb' = ahead bb)
    (dests : List (List Byte)) :
    machine.outputs bb' (dests.map .read) = machine.outputs bb (dests.map .read) := by
  induction dests generalizing bb bb' with
  | nil => rfl
  | cons dest dests ih =>
    obtain ⟨hnext, hreply⟩ := step_read_ahead bb dest
    obtain ⟨hnext', hreply'⟩ := step_read_ahead bb' dest
    rw [List.map_cons, Machine.outputs_cons, Machine.outputs_cons, hreply, hreply', h]
    congr 1
    apply ih
    rw [hnext, hnext', h]

theorem take_of_takeAhead {u v : List Byte}
    (h : (takeAhead (some v) u.length).2 = (takeAhead (some u) u.length).2) :
    u.length ≤ v.length ∧ v.take u.length = u := by
  unfold takeAhead at h
  simp only [le_refl, if_true, List.take_length] at h
  split at h
  case isTrue hle =>
    injection h with h
    exact ⟨hle, h⟩
  case isFalse => cases h

/-- The replies tell what is ahead. -/
theorem takeAhead_injective {a b : Option (List Byte)}
    (h : ∀ n, (takeAhead a n).2 = (takeAhead b n).2) : a = b := by
  cases a with
  | none =>
    cases b with
    | none => rfl
    | some v => exact absurd (h 0) (by simp [takeAhead])
  | some u =>
    cases b with
    | none => exact absurd (h 0) (by simp [takeAhead])
    | some v =>
      obtain ⟨hle, htake⟩ := take_of_takeAhead (h u.length).symm
      obtain ⟨hle', -⟩ := take_of_takeAhead (h v.length)
      have hlen : u.length = v.length := Nat.le_antisymm hle hle'
      rw [hlen, List.take_length] at htake
      rw [htake]

/-- **Reads cannot tell two states apart** exactly when the same is ahead in both. -/
theorem reads_eq_iff (bb bb' : BinaryBuffer) :
    (∀ dests : List (List Byte),
      machine.outputs bb' (dests.map .read) = machine.outputs bb (dests.map .read)) ↔
    ahead bb' = ahead bb := by
  constructor
  · intro h
    apply takeAhead_injective
    intro n
    have hone := h [List.replicate n 0]
    have hreply := (step_read_ahead bb (List.replicate n 0)).2
    have hreply' := (step_read_ahead bb' (List.replicate n 0)).2
    rw [List.length_replicate] at hreply hreply'
    rw [← hreply, ← hreply']
    exact (List.cons.inj hone).1
  · exact outputs_reads_eq

/-! ## The vector after a short read -/

/-- The vector when `delivered` has come out of a file that announced `n` bytes. -/
def overwritten (buffer : List Byte) (n : ℕ) (delivered : List Byte) : List Byte :=
  memcpyAt (resize buffer n) 0 delivered

/-- Where both reach, the positions from `lo` on and before `hi` hold the same. -/
def Agrees (delivered buffer : List Byte) (lo hi : ℕ) : Prop :=
  ∀ i, lo ≤ i → i < hi → i < delivered.length → delivered[i]? = buffer[i]?

section Overwritten

variable {buffer delivered : List Byte} {n : ℕ}

theorem length_overwritten (h : delivered.length ≤ n) :
    (overwritten buffer n delivered).length = n := by
  rw [overwritten, memcpyAt_length (by rw [resize_length]; omega), resize_length]

theorem getElem?_overwritten_of_lt {i : ℕ} (hi : i < delivered.length) :
    (overwritten buffer n delivered)[i]? = delivered[i]? := by
  unfold overwritten memcpyAt
  rw [List.take_zero, List.nil_append, List.getElem?_append_left hi]

/-- What the vector held stays where nothing was delivered. -/
theorem getElem?_overwritten_of_ge {i : ℕ} (hi : delivered.length ≤ i) (hn : i < n)
    (hlen : i < buffer.length) : (overwritten buffer n delivered)[i]? = buffer[i]? := by
  have htake : i < (buffer.take n).length := by
    rw [List.length_take]
    omega
  unfold overwritten memcpyAt resize
  rw [List.take_zero, List.nil_append, List.getElem?_append_right hi, List.getElem?_drop,
    Nat.zero_add, Nat.add_sub_cancel' hi, List.getElem?_append_left htake,
    List.getElem?_take_of_lt hn]

/-- The vectors hold the same over positions that both have. -/
theorem overwritten_agrees_iff {lo hi : ℕ} (hn : hi ≤ n) (hlen : hi ≤ buffer.length) :
    (∀ i, lo ≤ i → i < hi → (overwritten buffer n delivered)[i]? = buffer[i]?) ↔
      Agrees delivered buffer lo hi := by
  constructor
  · intro h i hlo hhi hdel
    rw [← getElem?_overwritten_of_lt hdel]
    exact h i hlo hhi
  · intro h i hlo hhi
    by_cases hdel : i < delivered.length
    · rw [getElem?_overwritten_of_lt hdel]
      exact h i hlo hhi hdel
    · exact getElem?_overwritten_of_ge (by omega) (by omega) (by omega)

theorem take_overwritten_iff {k : ℕ} (hn : k ≤ n) (hlen : k ≤ buffer.length) :
    (overwritten buffer n delivered).take k = buffer.take k ↔ Agrees delivered buffer 0 k := by
  rw [← overwritten_agrees_iff hn hlen]
  constructor
  · intro h i _ hi
    rw [← List.getElem?_take_of_lt hi, h, List.getElem?_take_of_lt hi]
  · intro h
    apply List.ext_getElem?
    intro i
    by_cases hi : i < k
    · rw [List.getElem?_take_of_lt hi, List.getElem?_take_of_lt hi, h i (Nat.zero_le i) hi]
    · rw [List.getElem?_take_eq_none (by omega), List.getElem?_take_eq_none (by omega)]

theorem drop_overwritten_iff (hdel : delivered.length ≤ n) {k : ℕ} (hn : k ≤ n)
    (hlen : k ≤ buffer.length) :
    (overwritten buffer n delivered).drop k = buffer.drop k ↔
      n = buffer.length ∧ Agrees delivered buffer k n := by
  constructor
  · intro h
    have hlength := congrArg List.length h
    rw [List.length_drop, List.length_drop, length_overwritten hdel] at hlength
    obtain rfl : n = buffer.length := by omega
    refine ⟨rfl, (overwritten_agrees_iff (Nat.le_refl _) (Nat.le_refl _)).mp ?_⟩
    intro i hi _
    have hget := congrArg (fun l : List Byte => l[i - k]?) h
    simp only [List.getElem?_drop, Nat.add_sub_cancel' hi] at hget
    exact hget
  · rintro ⟨rfl, hagrees⟩
    have hsame := (overwritten_agrees_iff (Nat.le_refl _) (Nat.le_refl _)).mpr hagrees
    apply List.ext_getElem?
    intro i
    rw [List.getElem?_drop, List.getElem?_drop]
    by_cases hi : k + i < buffer.length
    · exact hsame (k + i) (Nat.le_add_right k i) hi
    · rw [List.getElem?_eq_none (by rw [length_overwritten hdel]; omega),
        List.getElem?_eq_none (Nat.not_lt.mp hi)]

end Overwritten

/-! ## What a failed load keeps -/

/-- The two states cannot be told apart by `data ()`, `size ()` and the calls `later`. -/
structure SameTo (later : List Op → Prop) (bb bb' : BinaryBuffer) : Prop where
  data : bb'.data = bb.data
  size : bb'.size = bb.size
  answers : ∀ ops, later ops → machine.outputs bb' ops = machine.outputs bb ops

/-- Nothing but reads. -/
def ReadsOnly (ops : List Op) : Prop := ∃ dests : List (List Byte), ops = dests.map .read

/-- If the load returns an error, everything is as if it had not been called. -/
def KeptByFailedLoad (later : List Op → Prop) (bb : BinaryBuffer) (file : FileRead) : Prop :=
  ∀ message bb', bb.loadFromFile file = (.error message, bb') → SameTo later bb bb'

/-- Where fewer bytes are delivered than announced: `write_pos` and `read_pos` are past the
end of the vector afterwards if they were before, the bytes in front of `write_pos` are those
that were there, and so are the bytes from `read_pos` on, up to the old end of the vector. -/
def ReadsKept (bb : BinaryBuffer) : FileRead → Prop
  | .content fileSize available => available.length < fileSize →
    (bb.writePos ≤ bb.buffer.length ↔ bb.writePos ≤ fileSize) ∧
    (bb.writePos ≤ bb.buffer.length → Agrees available bb.buffer 0 bb.writePos) ∧
    (bb.readPos ≤ bb.buffer.length ↔ bb.readPos ≤ fileSize) ∧
    (bb.readPos ≤ bb.buffer.length →
      fileSize = bb.buffer.length ∧ Agrees available bb.buffer bb.readPos fileSize)
  | _ => True

/-- Where fewer bytes are delivered than announced, as many were announced as the vector has,
and the delivered ones are its first bytes. -/
def VectorKept (bb : BinaryBuffer) : FileRead → Prop
  | .content fileSize available => available.length < fileSize →
    fileSize = bb.buffer.length ∧ Agrees available bb.buffer 0 fileSize
  | _ => True

theorem loadFromFile_short {fileSize : ℕ} {available : List Byte}
    (h : available.length < fileSize) (bb : BinaryBuffer) :
    bb.loadFromFile (.content fileSize available) =
      (.error "Read mismatch: read less bytes than expected",
        { bb with buffer := overwritten bb.buffer fileSize available }) := by
  have htake : available.take fileSize = available := List.take_of_length_le h.le
  unfold loadFromFile
  simp only [htake]
  rw [if_pos (by omega)]
  rfl

/-- Only a short read counts. -/
theorem keptByFailedLoad_iff (later : List Op → Prop) (bb : BinaryBuffer) (file : FileRead) :
    KeptByFailedLoad later bb file ↔
      match file with
      | .content fileSize available => available.length < fileSize →
        SameTo later bb { bb with buffer := overwritten bb.buffer fileSize available }
      | _ => True := by
  cases file with
  | openFailed =>
    refine iff_of_true ?_ trivial
    rintro message bb' ⟨⟩
    exact ⟨rfl, rfl, fun _ _ => rfl⟩
  | sizeUnknown =>
    refine iff_of_true ?_ trivial
    rintro message bb' ⟨⟩
    exact ⟨rfl, rfl, fun _ _ => rfl⟩
  | content fileSize available =>
    constructor
    · intro h hshort
      exact h _ _ (loadFromFile_short hshort bb)
    · intro h message bb' hload
      by_cases hshort : available.length < fileSize
      · rw [loadFromFile_short hshort] at hload
        cases hload
        exact h hshort
      · have hloaded : loaded (.content fileSize available) = some (available.take fileSize) :=
          if_pos (Nat.not_lt.mp hshort)
        rw [loadFromFile_of_loaded hloaded] at hload
        cases hload

/-- Two views that are there when `k` is within a length: they agree when both are there, and
the same, or neither is. -/
theorem view_eq_iff {k m n : ℕ} {x y : List Byte} {same : Prop}
    (h : k ≤ m → k ≤ n → (x = y ↔ same)) :
    ((if k ≤ n then some x else none) = if k ≤ m then some y else none) ↔
      (k ≤ m ↔ k ≤ n) ∧ (k ≤ m → same) := by
  by_cases hm : k ≤ m
  · by_cases hn : k ≤ n
    · rw [if_pos hm, if_pos hn, Option.some.injEq, h hm hn]
      exact ⟨fun hsame => ⟨iff_of_true hm hn, fun _ => hsame⟩, fun hboth => hboth.2 hm⟩
    · rw [if_pos hm, if_neg hn]
      exact iff_of_false (fun heq => by cases heq) fun hboth => hn (hboth.1.mp hm)
  · by_cases hn : k ≤ n
    · rw [if_neg hm, if_pos hn]
      exact iff_of_false (fun heq => by cases heq) fun hboth => hm (hboth.1.mpr hn)
    · rw [if_neg hm, if_neg hn]
      exact iff_of_true rfl ⟨iff_of_false hm hn, fun h => absurd h hm⟩

section ShortRead

variable (bb : BinaryBuffer) {n : ℕ} {delivered : List Byte} (h : delivered.length ≤ n)
include h

theorem data_overwritten_iff :
    ({ bb with buffer := overwritten bb.buffer n delivered } : BinaryBuffer).data = bb.data ↔
      (bb.writePos ≤ bb.buffer.length ↔ bb.writePos ≤ n) ∧
        (bb.writePos ≤ bb.buffer.length → Agrees delivered bb.buffer 0 bb.writePos) := by
  unfold data
  simp only [length_overwritten h]
  exact view_eq_iff fun hlen hn => take_overwritten_iff hn hlen

theorem ahead_overwritten_iff :
    ahead { bb with buffer := overwritten bb.buffer n delivered } = ahead bb ↔
      (bb.readPos ≤ bb.buffer.length ↔ bb.readPos ≤ n) ∧
        (bb.readPos ≤ bb.buffer.length →
          n = bb.buffer.length ∧ Agrees delivered bb.buffer bb.readPos n) := by
  unfold ahead readable
  simp only [length_overwritten h]
  exact view_eq_iff fun hlen hn => drop_overwritten_iff h hn hlen

theorem sameTo_reads_iff :
    SameTo ReadsOnly bb { bb with buffer := overwritten bb.buffer n delivered } ↔
      ((bb.writePos ≤ bb.buffer.length ↔ bb.writePos ≤ n) ∧
        (bb.writePos ≤ bb.buffer.length → Agrees delivered bb.buffer 0 bb.writePos)) ∧
      (bb.readPos ≤ bb.buffer.length ↔ bb.readPos ≤ n) ∧
        (bb.readPos ≤ bb.buffer.length →
          n = bb.buffer.length ∧ Agrees delivered bb.buffer bb.readPos n) := by
  rw [← data_overwritten_iff bb h, ← ahead_overwritten_iff bb h, ← reads_eq_iff]
  constructor
  · intro hsame
    exact ⟨hsame.data, fun dests => hsame.answers _ ⟨dests, rfl⟩⟩
  · rintro ⟨hdata, hreads⟩
    refine ⟨hdata, rfl, ?_⟩
    rintro ops ⟨dests, rfl⟩
    exact hreads dests

/-- After `clear`, reads get to see the whole vector. -/
theorem sameTo_all_iff :
    SameTo (fun _ => True) bb { bb with buffer := overwritten bb.buffer n delivered } ↔
      n = bb.buffer.length ∧ Agrees delivered bb.buffer 0 n := by
  rw [← drop_overwritten_iff h (Nat.zero_le n) (Nat.zero_le _), List.drop_zero, List.drop_zero]
  constructor
  · intro hsame
    have hreads := (reads_eq_iff bb.clear
      ({ bb with buffer := overwritten bb.buffer n delivered } : BinaryBuffer).clear).mp
      (fun dests => (List.cons.inj (hsame.answers (.clear :: dests.map .read) trivial)).2)
    unfold ahead readable clear at hreads
    simpa using hreads
  · intro hbuffer
    have hstate : ({ bb with buffer := overwritten bb.buffer n delivered } : BinaryBuffer) = bb :=
      BinaryBuffer.ext hbuffer rfl rfl
    rw [hstate]
    exact ⟨rfl, rfl, fun _ _ => rfl⟩

end ShortRead

/-- **What a failed load keeps**, as far as reads that follow it can tell, and as far as any
calls that follow it can tell. -/
theorem failedLoad_keeps_iff (bb : BinaryBuffer) (file : FileRead) :
    (KeptByFailedLoad ReadsOnly bb file ↔ ReadsKept bb file) ∧
      (KeptByFailedLoad (fun _ => True) bb file ↔ VectorKept bb file) := by
  rw [keptByFailedLoad_iff, keptByFailedLoad_iff]
  cases file with
  | openFailed => exact ⟨Iff.rfl, Iff.rfl⟩
  | sizeUnknown => exact ⟨Iff.rfl, Iff.rfl⟩
  | content fileSize available =>
    constructor
    · apply forall_congr'
      intro hshort
      rw [sameTo_reads_iff bb hshort.le, and_assoc]
    · apply forall_congr'
      intro hshort
      exact sameTo_all_iff bb hshort.le

/-- Four bytes were written, two are announced and one is delivered. -/
theorem shortRead_not_kept :
    ¬ KeptByFailedLoad ReadsOnly (machine.run new [.write [1, 2, 3, 4]]) (.content 2 [9]) := by
  intro h
  have hdata := (h _ _ (loadFromFile_short (by decide) _)).data
  exact absurd hdata (by decide)

end Pensar.Analysis.BinaryBuffer
