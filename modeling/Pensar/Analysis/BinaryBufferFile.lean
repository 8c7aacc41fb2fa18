import Pensar.Analysis.BinaryBufferQueue

/-!
# Saving a `BinaryBuffer` and loading it again

A save that succeeds has put exactly `data()` into the file (`saveToFile_ok`).  A load
that succeeds makes the vector the file and nothing but the file, so no stale bytes are
left behind `write_pos` and reads from then on are those of a queue
(`outputs_reads_of_tight`).
-/

set_option autoImplicit false

namespace Pensar.Analysis.BinaryBuffer

open Pensar.Computation
open Pensar.Model
open Pensar.Model.BinaryBuffer
open Pensar.Interface

theorem saveToFile_ok {bb : BinaryBuffer} {w : FileWrite} {fs fs' : FileSystem}
    {filename : String} (h : bb.saveToFile w fs filename = some (.ok (), fs')) :
    ∃ bytes, bb.data = some bytes ∧ fs' = Function.update fs filename (some bytes) := by
  by_cases hopen : w.opened
  · cases hdata : bb.data with
    | none => simp [saveToFile, hopen, hdata] at h
    | some bytes =>
      have hlen : bytes.length = bb.writePos := by
        simp only [data, Option.ite_none_right_eq_some, Option.some.injEq] at hdata
        obtain ⟨hle, rfl⟩ := hdata
        simp [hle]
      simp only [saveToFile, hopen, hdata, Bool.not_true, Bool.false_eq_true, if_false,
        Option.bind_eq_bind, Option.bind_some] at h
      split at h
      · simp at h
      · rename_i hall
        have htake : bytes.take w.accepted = bytes := by
          apply List.take_of_length_le
          simp only [List.length_take, not_not] at hall
          omega
        rw [htake] at h
        simp only [Option.some.injEq, Prod.mk.injEq, true_and] at h
        exact ⟨bytes, rfl, h.symm⟩
  · simp [saveToFile, hopen] at h

/-- The bytes a file delivers when it is read: its length, and a front part of it. -/
def Delivers (fs : FileSystem) (filename : String) : FileRead → Prop
  | .content fileSize available =>
    ∃ bytes, fs filename = some bytes ∧ fileSize = bytes.length ∧ available <+: bytes
  | _ => True

theorem loadFromFile_ok {bb bb' : BinaryBuffer} {fs : FileSystem} {filename : String}
    {file : FileRead} (hdel : Delivers fs filename file)
    (h : bb.loadFromFile file = (.ok (), bb')) :
    ∃ bytes, fs filename = some bytes ∧ bb' = ⟨bytes, bytes.length, 0⟩ := by
  cases file with
  | openFailed => simp [loadFromFile] at h
  | sizeUnknown => simp [loadFromFile] at h
  | content fileSize available =>
    obtain ⟨bytes, hbytes, rfl, rest, hrest⟩ := hdel
    refine ⟨bytes, hbytes, ?_⟩
    have hle : bytes.length ≤ available.length := by
      by_contra hshort
      have hlt : available.length < bytes.length := by omega
      simp [loadFromFile, hlt] at h
    have hall : available = bytes := by
      have hnil : rest = [] := by
        have := congrArg List.length hrest
        simp only [List.length_append] at this
        exact List.eq_nil_of_length_eq_zero (by omega)
      simpa [hnil] using hrest
    subst hall
    have hloaded : loaded (.content available.length available) = some available := by
      simp [loaded]
    rw [loadFromFile_of_loaded hloaded] at h
    exact (congrArg Prod.snd h).symm

/-- Reads from a vector that ends at `write_pos` are those of a queue. -/
theorem outputs_reads_of_tight {bb : BinaryBuffer} {q : List Byte} (h : Unread bb q)
    (htight : bb.buffer.length = bb.writePos) (dests : List (List Byte)) :
    machine.outputs bb (dests.map .read) =
      (Queue.machine Byte).outputs q (dests.map fun dest => .take dest.length) := by
  have hfresh : ∀ (bb : BinaryBuffer) (dest : List Byte), bb.buffer.length = bb.writePos →
      NotStale bb (.read dest) := by
    intro bb dest htight hmore
    omega
  have hmap : (dests.map fun dest => Queue.Op.take dest.length) =
      (dests.map Op.read).map toQueue := by
    simp [toQueue]
  rw [hmap]
  refine (Machine.outputs_eq_iff machine toQueue
    (fun bb q => Unread bb q ∧ bb.buffer.length = bb.writePos) (fun op => ∃ dest, op = .read dest)
    (Queue.machine Byte) (fun _ _ => True) ?_ ?_ bb q _ (by simp) ⟨h, htight⟩).mpr ?_
  · rintro bb q _ ⟨dest, rfl⟩ ⟨h, htight⟩
    have hsame := (unread_answer bb q (.read dest) trivial h).mpr (hfresh bb dest htight)
    exact iff_of_true hsame trivial
  · rintro bb q _ ⟨dest, rfl⟩ ⟨h, htight⟩ -
    refine ⟨unread_step bb q (.read dest) trivial h (hfresh bb dest htight), ?_⟩
    rw [step_read]
    split <;> exact htight
  · exact Machine.along_of_forall machine (fun _ _ => True) (fun _ _ => trivial) bb _

/-- **File round trip.**  Whatever the two buffers held before, after a save and a load
that succeed the second holds what the first did, and reads from it hand out exactly
these bytes, oldest first, and fail when they ask for more than is left. -/
theorem save_load_data (a b b' : BinaryBuffer) (w : FileWrite) (fs fs' : FileSystem)
    (filename : String) (file : FileRead)
    (hsave : a.saveToFile w fs filename = some (.ok (), fs'))
    (hfile : Delivers fs' filename file)
    (hload : b.loadFromFile file = (.ok (), b')) :
    ∃ bytes, a.data = some bytes ∧ b'.data = some bytes ∧
      ∀ dests : List (List Byte),
        machine.outputs b' (dests.map .read) =
          (Queue.machine Byte).outputs bytes (dests.map fun dest => .take dest.length) ∧
        (machine.outputs b' (dests.map .read)).flatMap Queue.Reply.output <+: bytes := by
  obtain ⟨bytes, hdata, rfl⟩ := saveToFile_ok hsave
  obtain ⟨bytes', hbytes', rfl⟩ := loadFromFile_ok hfile hload
  have hsame : bytes = bytes' := by simpa using hbytes'
  subst hsame
  refine ⟨bytes, hdata, by simp [data], fun dests => ?_⟩
  have hreads := outputs_reads_of_tight (unread_loaded bytes) rfl dests
  refine ⟨hreads, ?_⟩
  rw [hreads]
  have hprefix := Queue.takes_prefix bytes (dests.map List.length)
  rwa [List.map_map] at hprefix

/-- A saved buffer with stale bytes in it, loaded over one that held more. -/
theorem save_load_data_over_longer :
    ∃ bytes, (⟨[7, 8, 3, 4], 2, 1⟩ : BinaryBuffer).data = some bytes ∧
      (⟨[7, 8], 2, 0⟩ : BinaryBuffer).data = some bytes := by
  obtain ⟨bytes, ha, hb, -⟩ :=
    save_load_data ⟨[7, 8, 3, 4], 2, 1⟩ ⟨[1, 1, 1, 1, 1], 5, 3⟩ ⟨[7, 8], 2, 0⟩ ⟨true, 100⟩
      (fun _ => none) (Function.update (fun _ => none) "test.bin" (some [7, 8])) "test.bin"
      (.content 2 [7, 8]) (by rfl) ⟨[7, 8], by simp, rfl, List.prefix_refl _⟩ (by rfl)
  exact ⟨bytes, ha, hb⟩

end Pensar.Analysis.BinaryBuffer
