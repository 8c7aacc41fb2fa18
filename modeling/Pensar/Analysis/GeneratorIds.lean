import Pensar.Analysis.ObjectStream
import Pensar.Interface.GeneratorHistory

/-!
# The ids of a generator

What a history does to the state is described by the generator that has handed out the
same ids and was never saved (`handedOut`).  `Follows` says that the generator in use and
the saves that are up to date agree with it; a save and a restore carry every byte of the
state, so each call keeps `Follows` (`follows_step`).

As long as nothing leaves the range of the id type, the ids are then the terms of one
arithmetic progression.

Main result: `issued_ids_distinct`.
-/

set_option autoImplicit false

namespace Pensar.Analysis

open Pensar.Computation
open Pensar.Model
open Pensar.Interface
open Pensar.Analysis.BinaryBuffer

/-! ## A save and a restore -/

theorem emptyBuffer_unread (empty : EmptyBuffer) : Unread empty.buffer [] := by
  have hwrite := empty.writePos_eq
  have hread := empty.readPos_eq
  exact ⟨by omega, by omega, by simp [hwrite]⟩

theorem generator_write_unread (g : Generator) (empty : EmptyBuffer) :
    Unread (g.write empty.buffer) (derivedBytes Generator.record g) :=
  derived_write_unread Generator.record (emptyBuffer_unread empty) g

theorem generator_read_unread {bb : BinaryBuffer} {g : Generator}
    (h : Unread bb (derivedBytes Generator.record g)) (target : Generator) :
    (target.read bb).1 = g := by
  have happend : Unread bb (derivedBytes Generator.record g ++ []) := by rwa [List.append_nil]
  obtain ⟨n, hread, -⟩ := derived_read_unread Generator.record happend target
  unfold Generator.read
  rw [hread]

/-! ## The generator behind a history -/

/-- The generator after the call, if it is never saved. -/
def handOut (g : Generator) : GeneratorCall → Generator
  | .getId => g.getId.2
  | _ => g

def handedOut (g : Generator) (calls : List GeneratorCall) : Generator := calls.foldl handOut g

/-- What is up to date in the state is in the state of `g`. -/
structure Follows (s : GeneratorState) (u : UpToDate) (g : Generator) : Prop where
  generator : u.generator = true → s.generator = g
  saves : ∀ k : ℕ, u.saves[k]? = some true →
    ∃ bb, s.buffers[k]? = some bb ∧ Unread bb (derivedBytes Generator.record g)
  length : u.saves.length = s.buffers.length

theorem follows_start (g : Generator) : Follows { generator := g } {} g := by
  refine ⟨fun _ => rfl, ?_, rfl⟩
  intro k hk
  simp at hk

theorem follows_save {s : GeneratorState} {u : UpToDate} {g : Generator} (h : Follows s u g)
    (empty : EmptyBuffer) :
    Follows (generatorStep s (.save empty)).1 (u.step (.save empty)) g := by
  refine ⟨h.generator, ?_, ?_⟩
  · intro k hk
    have hlength := h.length
    simp only [UpToDate.step, generatorStep, List.getElem?_append] at hk ⊢
    by_cases hlt : k < u.saves.length
    · rw [if_pos hlt] at hk
      rw [if_pos (by omega)]
      exact h.saves k hk
    · rw [if_neg hlt] at hk
      rw [if_neg (by omega)]
      have hlast : k - u.saves.length = 0 := by
        have hk' := (List.getElem?_eq_some_iff.mp hk).1
        simpa using hk'
      rw [hlast] at hk
      have hgenerator : s.generator = g := h.generator (by simpa using hk)
      rw [← hlength, hlast, hgenerator]
      exact ⟨_, rfl, generator_write_unread g empty⟩
  · simp [UpToDate.step, generatorStep, h.length]

theorem restore_eq {s : GeneratorState} {buffer : ℕ} {bb : BinaryBuffer}
    (h : s.buffers[buffer]? = some bb) (aid initialValue step : Id) :
    (generatorStep s (.restore buffer aid initialValue step)).1 =
      { generator := ((Generator.new aid initialValue step).read bb).1
        buffers := s.buffers.set buffer ((Generator.new aid initialValue step).read bb).2.1 } := by
  simp only [generatorStep, h]

theorem restored_generator {s : GeneratorState} {buffer : ℕ} {g : Generator} {empty : EmptyBuffer}
    (h : s.buffers[buffer]? = some (g.write empty.buffer)) (aid initialValue step : Id) :
    (generatorStep s (.restore buffer aid initialValue step)).1.generator = g := by
  rw [restore_eq h]
  dsimp only
  rw [generator_read_unread (generator_write_unread g empty)]

theorem follows_restore {s : GeneratorState} {u : UpToDate} {g : Generator} (h : Follows s u g)
    (buffer : ℕ) (aid initialValue step : Id) :
    Follows (generatorStep s (.restore buffer aid initialValue step)).1
      (u.step (.restore buffer aid initialValue step)) g := by
  cases hsave : u.saves[buffer]? with
  | none =>
    have hbuffer : s.buffers[buffer]? = none := by
      rw [List.getElem?_eq_none_iff] at hsave ⊢
      exact h.length ▸ hsave
    simp only [UpToDate.step, generatorStep, hsave, hbuffer]
    exact h
  | some save =>
    have hlt : buffer < u.saves.length := (List.getElem?_eq_some_iff.mp hsave).1
    obtain ⟨bb, hbb⟩ : ∃ bb, s.buffers[buffer]? = some bb :=
      ⟨_, List.getElem?_eq_getElem (h.length ▸ hlt)⟩
    rw [restore_eq hbb]
    simp only [UpToDate.step, hsave]
    refine ⟨?_, ?_, ?_⟩
    · intro hcurrent
      have hcurrent : save = true := hcurrent
      subst hcurrent
      obtain ⟨bb', hbb', hunread⟩ := h.saves buffer hsave
      obtain rfl : bb = bb' := by
        rw [hbb] at hbb'
        exact Option.some.inj hbb'
      dsimp only
      apply generator_read_unread hunread
    · -- what the buffer held has been read; the other saves are as they were
      intro k hk
      have hne : buffer ≠ k := by
        rintro rfl
        simp [List.getElem?_set_self hlt] at hk
      rw [List.getElem?_set_ne hne] at hk ⊢
      exact h.saves k hk
    · simp [h.length]

theorem follows_getId {s : GeneratorState} {u : UpToDate} {g : Generator} (h : Follows s u g)
    (hcurrent : u.generator = true) :
    Follows (generatorStep s .getId).1 (u.step .getId) g.getId.2 := by
  refine ⟨?_, ?_, ?_⟩
  · intro _
    simp [generatorStep, h.generator hcurrent]
  · intro k hk
    simp [UpToDate.step, List.getElem?_replicate] at hk
  · simp [UpToDate.step, generatorStep, h.length]

theorem follows_step {s : GeneratorState} {u : UpToDate} {g : Generator} (h : Follows s u g)
    {call : GeneratorCall} (hallow : u.Allows call) :
    Follows (generatorStep s call).1 (u.step call) (handOut g call) := by
  cases call with
  | getId => exact follows_getId h (hallow (Or.inl rfl))
  | next => exact h
  | current => exact h
  | save empty => exact follows_save h empty
  | restore buffer aid initialValue step => exact follows_restore h buffer aid initialValue step

theorem follows_run {s : GeneratorState} {u : UpToDate} {g : Generator} (h : Follows s u g)
    (calls : List GeneratorCall) (hallow : UpToDate.history.Along UpToDate.Allows u calls) :
    Follows (generatorHistory.run s calls) (UpToDate.history.run u calls) (handedOut g calls) := by
  induction calls generalizing s u g with
  | nil => exact h
  | cons call calls ih => exact ih (follows_step h hallow.1) hallow.2

/-! ## The ids -/

theorem toInt_getId {g : Generator}
    (hlow : -2 ^ 63 ≤ g.mdata.mvalue.toInt + g.mdata.mstep.toInt)
    (hhigh : g.mdata.mvalue.toInt + g.mdata.mstep.toInt < 2 ^ 63) :
    g.getId.1.toInt = g.mdata.mvalue.toInt + g.mdata.mstep.toInt := by
  show (g.mdata.mvalue + g.mdata.mstep).toInt = _
  rw [BitVec.toInt_add]
  apply Int.bmod_eq_of_le
  · simpa using hlow
  · simpa using hhigh

theorem staysInRange_of_generator {s : GeneratorState} {g : Generator} {call : GeneratorCall}
    (h : s.generator = g) (hlow : -2 ^ 63 ≤ g.mdata.mvalue.toInt + g.mdata.mstep.toInt)
    (hhigh : g.mdata.mvalue.toInt + g.mdata.mstep.toInt < 2 ^ 63) : StaysInRange s call := by
  intro _
  rw [h]
  exact ⟨hlow, hhigh⟩

theorem answer_id_none (s : GeneratorState) {call : GeneratorCall} (h : call ≠ .getId) :
    (generatorStep s call).2.id? = none := by
  cases call with
  | getId => exact (h rfl).elim
  | next => rfl
  | current => rfl
  | save empty => rfl
  | restore buffer aid initialValue step =>
    simp only [generatorStep]
    cases s.buffers[buffer]? <;> rfl

theorem handOut_of_ne (g : Generator) {call : GeneratorCall} (h : call ≠ .getId) :
    handOut g call = g := by
  cases call <;> first | rfl | exact (h rfl).elim

theorem handedOut_of_not_mem (g : Generator) {calls : List GeneratorCall} (h : .getId ∉ calls) :
    handedOut g calls = g := by
  induction calls with
  | nil => rfl
  | cons call calls ih =>
    have hcall : call ≠ .getId := fun heq => h (heq ▸ List.mem_cons_self)
    have hcalls : .getId ∉ calls := fun hmem => h (List.mem_cons_of_mem _ hmem)
    show handedOut (handOut g call) calls = g
    rw [handOut_of_ne g hcall]
    exact ih hcalls

theorem issuedIds_cons_getId {s : GeneratorState} {g : Generator} (hg : s.generator = g)
    (calls : List GeneratorCall) :
    issuedIds (generatorHistory.outputs s (.getId :: calls)) =
      g.getId.1 :: issuedIds (generatorHistory.outputs (generatorStep s .getId).1 calls) := by
  simp [issuedIds, generatorHistory, generatorStep, GeneratorAnswer.id?, hg]

theorem issuedIds_cons_ne (s : GeneratorState) {call : GeneratorCall} (h : call ≠ .getId)
    (calls : List GeneratorCall) :
    issuedIds (generatorHistory.outputs s (call :: calls)) =
      issuedIds (generatorHistory.outputs (generatorStep s call).1 calls) := by
  simp [issuedIds, generatorHistory, answer_id_none s h]

/-- Every id of a history is some steps on from the value it starts with. -/
theorem issued_id_eq {s : GeneratorState} {u : UpToDate} {g : Generator} (h : Follows s u g)
    (calls : List GeneratorCall) (hrange : generatorHistory.Along StaysInRange s calls)
    (hallow : UpToDate.history.Along UpToDate.Allows u calls) {id : Id}
    (hid : id ∈ issuedIds (generatorHistory.outputs s calls)) :
    ∃ k : ℕ, 0 < k ∧ id.toInt = g.mdata.mvalue.toInt + k * g.mdata.mstep.toInt := by
  induction calls generalizing s u g with
  | nil => simp [issuedIds] at hid
  | cons call calls ih =>
    have hnext := follows_step h hallow.1
    by_cases hcall : call = .getId
    · subst hcall
      have hg : s.generator = g := h.generator (hallow.1 (Or.inl rfl))
      have hstay := hrange.1 (Or.inl rfl)
      rw [hg] at hstay
      rw [issuedIds_cons_getId hg] at hid
      rcases List.mem_cons.mp hid with rfl | hlater
      · refine ⟨1, Nat.one_pos, ?_⟩
        rw [toInt_getId hstay.1 hstay.2]
        ring
      · obtain ⟨k, -, hk⟩ := ih hnext hrange.2 hallow.2 hlater
        refine ⟨k + 1, Nat.succ_pos k, ?_⟩
        have hvalue : (handOut g .getId).mdata.mvalue = g.getId.1 := rfl
        have hstep : (handOut g .getId).mdata.mstep = g.mdata.mstep := rfl
        rw [hk, hvalue, hstep, toInt_getId hstay.1 hstay.2]
        push_cast
        ring
    · rw [handOut_of_ne g hcall] at hnext
      rw [issuedIds_cons_ne s hcall] at hid
      exact ih hnext hrange.2 hallow.2 hid

theorem issued_nodup {s : GeneratorState} {u : UpToDate} {g : Generator} (h : Follows s u g)
    (hstep : g.mdata.mstep ≠ 0) (calls : List GeneratorCall)
    (hrange : generatorHistory.Along StaysInRange s calls)
    (hallow : UpToDate.history.Along UpToDate.Allows u calls) :
    (issuedIds (generatorHistory.outputs s calls)).Nodup := by
  induction calls generalizing s u g with
  | nil => exact List.nodup_nil
  | cons call calls ih =>
    have hnext := follows_step h hallow.1
    by_cases hcall : call = .getId
    · subst hcall
      have hg : s.generator = g := h.generator (hallow.1 (Or.inl rfl))
      rw [issuedIds_cons_getId hg]
      apply List.Nodup.cons
      · -- a later id is at least one step on from this one
        intro hmem
        obtain ⟨k, hpos, hk⟩ := issued_id_eq hnext calls hrange.2 hallow.2 hmem
        have hvalue : (handOut g .getId).mdata.mvalue = g.getId.1 := rfl
        have hsame : (handOut g .getId).mdata.mstep = g.mdata.mstep := rfl
        rw [hvalue, hsame] at hk
        have hzero : (k : ℤ) * g.mdata.mstep.toInt = 0 := by omega
        rcases mul_eq_zero.mp hzero with hk0 | hstep0
        · omega
        · exact hstep (BitVec.toInt_inj.mp (by simpa using hstep0))
      · exact ih hnext hstep hrange.2 hallow.2
    · rw [handOut_of_ne g hcall] at hnext
      rw [issuedIds_cons_ne s hcall]
      exact ih hnext hstep hrange.2 hallow.2

theorem next_is_following (g : Generator) (calls : List GeneratorCall)
    (hallow : UpToDate.history.Along UpToDate.Allows {} calls) : NextIsFollowing g calls := by
  rintro before between after hbetween rfl
  refine ⟨(handedOut g before).next, ?_, ?_⟩
  · have hsplit := (Machine.along_append _ _ _ _ _).mp hallow
    have hfollows := follows_run (follows_start g) before hsplit.1
    rw [Machine.outputs_getElem?_append]
    have hg := hfollows.generator (hsplit.2.1 (Or.inr rfl))
    simp [generatorHistory, generatorStep, ← hg]
  · -- `next` leaves the state as it is, and the calls between hand out nothing
    have hassoc : before ++ .next :: (between ++ .getId :: after) =
        (before ++ .next :: between) ++ .getId :: after := by simp
    rw [hassoc] at hallow ⊢
    have hsplit := (Machine.along_append _ _ _ _ _).mp hallow
    have hfollows := follows_run (follows_start g) _ hsplit.1
    have hlength : before.length + 1 + between.length = (before ++ .next :: between).length := by
      simp
      omega
    have hsame : handedOut g (before ++ .next :: between) = handedOut g before := by
      have hnone : .getId ∉ GeneratorCall.next :: between := by simpa using hbetween
      have happend : handedOut g (before ++ .next :: between) =
          handedOut (handedOut g before) (.next :: between) := by
        simp [handedOut]
      rw [happend]
      apply handedOut_of_not_mem _ hnone
    rw [hlength, Machine.outputs_getElem?_append]
    have hg := hfollows.generator (hsplit.2.1 (Or.inl rfl))
    rw [hsame] at hg
    simp only [generatorHistory] at hg ⊢
    simp [generatorStep, hg, Generator.getId, Generator.next]

/-! ## A save after an id, and one before -/

theorem run_restore {s : GeneratorState} {calls : List GeneratorCall} {buffer : ℕ} {g : Generator}
    {empty : EmptyBuffer}
    (h : (generatorHistory.run s calls).buffers[buffer]? = some (g.write empty.buffer))
    (aid initialValue step : Id) :
    (generatorHistory.run s (calls ++ [.restore buffer aid initialValue step])).generator = g := by
  rw [Machine.run_append]
  exact restored_generator h aid initialValue step

theorem along_stay_concat {s : GeneratorState} (calls : List GeneratorCall) {g : Generator}
    (h : generatorHistory.Along StaysInRange s calls)
    (hg : (generatorHistory.run s calls).generator = g)
    (hstay : StaysInRange { generator := g } .getId) :
    generatorHistory.Along StaysInRange s (calls ++ [.getId]) := by
  rw [Machine.along_append]
  obtain ⟨hlow, hhigh⟩ := hstay (Or.inl rfl)
  exact ⟨h, staysInRange_of_generator hg hlow hhigh, trivial⟩

theorem staysInRange_restored (g : Generator) (empty : EmptyBuffer) (aid initialValue step : Id)
    (hfirst : StaysInRange { generator := g } .getId)
    (hsecond : StaysInRange { generator := g.getId.2 } .getId) :
    generatorHistory.Along StaysInRange { generator := g }
      [.getId, .save empty, .next, .restore 0 aid initialValue step, .getId] := by
  have hnext := hsecond (Or.inl rfl)
  have hbuffer : (generatorHistory.run { generator := g }
      [.getId, .save empty, .next]).buffers[0]? = some (g.getId.2.write empty.buffer) := rfl
  apply along_stay_concat [.getId, .save empty, .next, .restore 0 aid initialValue step]
    _ (run_restore hbuffer aid initialValue step) hsecond
  refine ⟨hfirst, ?_, fun _ => hnext, ?_, trivial⟩
  · rintro (h | h) <;> cases h
  · rintro (h | h) <;> cases h

theorem issuedIds_append (s : GeneratorState) (calls calls' : List GeneratorCall) :
    issuedIds (generatorHistory.outputs s (calls ++ calls')) =
      issuedIds (generatorHistory.outputs s calls) ++
        issuedIds (generatorHistory.outputs (generatorHistory.run s calls) calls') := by
  unfold issuedIds
  rw [Machine.outputs_append, List.filterMap_append]

theorem issuedIds_concat_getId {s : GeneratorState} {calls : List GeneratorCall} {g : Generator}
    (hg : (generatorHistory.run s calls).generator = g) :
    issuedIds (generatorHistory.outputs s (calls ++ [.getId])) =
      issuedIds (generatorHistory.outputs s calls) ++ [g.getId.1] := by
  rw [issuedIds_append, issuedIds_cons_getId hg]
  rfl

theorem issuedIds_concat_ne (s : GeneratorState) (calls : List GeneratorCall)
    (call : GeneratorCall) (h : call ≠ .getId) :
    issuedIds (generatorHistory.outputs s (calls ++ [call])) =
      issuedIds (generatorHistory.outputs s calls) := by
  rw [issuedIds_append, issuedIds_cons_ne _ h]
  exact List.append_nil _

theorem old_save_history (g : Generator) (empty : EmptyBuffer) (aid initialValue step : Id)
    (hfirst : StaysInRange { generator := g } .getId) :
    generatorHistory.Along StaysInRange { generator := g }
        [.save empty, .getId, .restore 0 aid initialValue step, .getId] ∧
      issuedIds (generatorHistory.outputs { generator := g }
        [.save empty, .getId, .restore 0 aid initialValue step, .getId]) =
      [g.getId.1, g.getId.1] := by
  have hbuffer : (generatorHistory.run { generator := g } [.save empty, .getId]).buffers[0]? =
      some (g.write empty.buffer) := rfl
  have hrestored := run_restore hbuffer aid initialValue step
  constructor
  · apply along_stay_concat [.save empty, .getId, .restore 0 aid initialValue step]
      _ hrestored hfirst
    refine ⟨?_, hfirst, ?_, trivial⟩
    · rintro (h | h) <;> cases h
    · rintro (h | h) <;> cases h
  · have hids := issuedIds_concat_ne { generator := g } [.save empty, .getId]
      (.restore 0 aid initialValue step) nofun
    have hlast := issuedIds_concat_getId hrestored
    rw [hids] at hlast
    exact hlast

/-! ## Main result -/

/-- **Distinct ids.**  In a history whose `get_id` and `next` calls find the generator in
the state that the last id left, no id is issued twice and `next` tells the following
one, as long as the values stay in the range of the id type. -/
theorem issued_ids_distinct (g : Generator) (hstep : g.mdata.mstep ≠ 0)
    (calls : List GeneratorCall)
    (hrange : generatorHistory.Along StaysInRange { generator := g } calls)
    (hallow : UpToDate.history.Along UpToDate.Allows {} calls) :
    IdsDistinct g calls ∧ NextIsFollowing g calls :=
  ⟨issued_nodup (follows_start g) hstep calls hrange hallow, next_is_following g calls hallow⟩

/-- A generator that is saved and restored between two ids. -/
theorem issued_ids_distinct_restored :
    IdsDistinct (Generator.new 1) [.getId, .save .new, .next, .restore 0 1 0 1, .getId] ∧
      NextIsFollowing (Generator.new 1) [.getId, .save .new, .next, .restore 0 1 0 1, .getId] := by
  apply issued_ids_distinct
  · decide
  · apply staysInRange_restored
    · intro _
      decide
    · intro _
      decide
  · simp [Machine.Along, UpToDate.history, UpToDate.step, UpToDate.Allows]

/-- A restore of a save that is older than the last id issues that id again. -/
theorem not_idsDistinct_old_save :
    (Generator.new 1).mdata.mstep ≠ 0 ∧
      generatorHistory.Along StaysInRange { generator := Generator.new 1 }
        [.save .new, .getId, .restore 0 1 0 1, .getId] ∧
      ¬ IdsDistinct (Generator.new 1) [.save .new, .getId, .restore 0 1 0 1, .getId] := by
  have hfirst : StaysInRange { generator := Generator.new 1 } .getId := by
    intro _
    decide
  obtain ⟨hrange, hids⟩ := old_save_history (Generator.new 1) .new 1 0 1 hfirst
  refine ⟨by decide, hrange, ?_⟩
  unfold IdsDistinct
  rw [hids]
  simp

end Pensar.Analysis
