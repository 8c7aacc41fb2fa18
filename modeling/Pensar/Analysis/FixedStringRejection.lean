import Pensar.Model.Email
import Pensar.Analysis.FixedStringPadding

/-!
# Texts that a fixed string cannot take

Every way of supplying a text ends in `copy`, which tests the length before it writes
anything (`copyStatements_run`).  The exception reaches the caller but for the assignment of
a `std::string`: that operator is `noexcept`, so there the process ends.  With both of its
flags off `copy` leaves the end of the text to what the array had behind it.

Main result: `takenCleanly_iff`.
-/

set_option autoImplicit false

namespace Pensar.Analysis

open Pensar.Computation
open Pensar.Interface
open Pensar.Model

variable {MIN MAX : ℕ} {cs as : Bool}

/-- The exception of a `copy`, if there is one, and the array after it. -/
def afterCopy (v : CS MIN MAX cs as) :
    Except String (CS MIN MAX cs as) → Except String Unit × List C
  | .ok u => (.ok (), u.data)
  | .error message => (.error message, v.data)

theorem memcpyAt_nil (buffer : List Byte) : memcpyAt buffer 0 [] = buffer := by
  simp [memcpyAt]

/-- **A `copy` that throws has not written.** -/
theorem copyStatements_run (v : CS MIN MAX cs as) (s : S)
    (addNullAtEnd fillNullBeforeCopy : Bool) :
    (CS.copyStatements MIN MAX s addNullAtEnd fillNullBeforeCopy).run.run v.data =
      afterCopy v (v.copy s addNullAtEnd fillNullBeforeCopy) := by
  by_cases hmax : s.length ≥ MAX
  · simp only [CS.copyStatements, CS.copy, if_pos hmax, dif_pos hmax]
    rfl
  · by_cases hmin : s.length < MIN
    · simp only [CS.copyStatements, CS.copy, if_neg hmax, dif_neg hmax, if_pos hmin]
      rfl
    · obtain ⟨data, rfl⟩ := v
      cases s with
      | nil =>
        cases fillNullBeforeCopy <;> cases addNullAtEnd <;>
          simp only [CS.copyStatements, CS.copy, if_neg hmax, dif_neg hmax, if_neg hmin,
            memcpyAt_nil] <;> rfl
      | cons c s =>
        cases fillNullBeforeCopy <;> cases addNullAtEnd <;>
          simp only [CS.copyStatements, CS.copy, if_neg hmax, dif_neg hmax, if_neg hmin] <;> rfl

/-! ## Ways of supplying a text -/

/-- A call that supplies a text, with the flags that `copy` takes. -/
inductive Supply where
  | copy (str : S) (addNullAtEnd fillNullBeforeCopy : Bool)
  | copyC (str : CString)
  | assignString (str : S)
  | assignC (str : CString)
  | read (is : InStream)

/-- The text of the call; a stream supplies the word that `>>` takes from it. -/
def Supply.text : Supply → S
  | copy str _ _ => str
  | copyC str => str.val
  | assignString str => str
  | assignC str => str.val
  | read is => is.extract.1

/-- What the caller gets, and the array after the call.  The assignment of a `std::string`
is `noexcept`.
SOURCE: cpp/src/cs.hpp:180-213,339-351,395-401 -/
def supply (v : CS MIN MAX cs as) : Supply → Outcome (Except String Unit × List C)
  | .copy str addNullAtEnd fillNullBeforeCopy =>
    .value ((CS.copyStatements MIN MAX str addNullAtEnd fillNullBeforeCopy).run.run v.data)
  | .copyC str => .value ((CS.copyStatements MIN MAX str.val).run.run v.data)
  | .assignString str =>
    match (CS.copyStatements MIN MAX str).run.run v.data with
    | (.ok (), data) => .value (.ok (), data)
    | (.error _, _) => .terminated
  | .assignC str => .value ((CS.copyStatements MIN MAX str.val).run.run v.data)
  | .read is => .value ((CS.copyStatements MIN MAX is.extract.1).run.run v.data)

/-- A text of admissible length is taken up to its first NUL; any other is answered with an
exception and leaves the array. -/
structure TakenCleanly (v : CS MIN MAX cs as) (call : Supply) : Prop where
  taken : Admissible MIN MAX call.text →
    ∃ u : CS MIN MAX cs as, supply v call = .value (.ok (), u.data) ∧
      u.toString? = some (upToNul call.text)
  rejected : ¬ Admissible MIN MAX call.text →
    ∃ message, supply v call = .value (.error message, v.data)

/-- `copy` with one of its flags: there is a NUL behind the text. -/
theorem copy_taken (v : CS MIN MAX cs as) {s : S} (h : Admissible MIN MAX s)
    {addNullAtEnd fillNullBeforeCopy : Bool}
    (hflag : (addNullAtEnd || fillNullBeforeCopy) = true) :
    ∃ u : CS MIN MAX cs as,
      (CS.copyStatements MIN MAX s addNullAtEnd fillNullBeforeCopy).run.run v.data =
        (.ok (), u.data) ∧
      u.toString? = some (upToNul s) := by
  obtain ⟨u, hcopy, hdata⟩ := copy_data v h addNullAtEnd fillNullBeforeCopy
  refine ⟨u, by rw [copyStatements_run, hcopy]; rfl, ?_⟩
  cases addNullAtEnd with
  | true => exact toString_of_front hdata
  | false =>
    obtain rfl : fillNullBeforeCopy = true := hflag
    have hrest : (v.fillNull).data.drop s.length =
        NULL_CHAR :: List.replicate (MAX - s.length - 1) NULL_CHAR := by
      obtain ⟨k, hk⟩ : ∃ k, MAX - s.length = k + 1 :=
        ⟨MAX - s.length - 1, by have := h.2; omega⟩
      rw [CS.fillNull, List.drop_replicate, hk, List.replicate_succ, Nat.add_sub_cancel]
    rw [if_neg Bool.false_ne_true, if_pos rfl, hrest] at hdata
    exact toString_of_front hdata

/-- `copy` with neither: the text ends where the array had a NUL. -/
theorem copy_bare_taken_iff (v : CS MIN MAX cs as) {s : S} (h : Admissible MIN MAX s) :
    (∃ u : CS MIN MAX cs as,
        (CS.copyStatements MIN MAX s false false).run.run v.data = (.ok (), u.data) ∧
        u.toString? = some (upToNul s)) ↔
      NULL_CHAR ∈ s ∨ v.data[s.length]? = some NULL_CHAR := by
  obtain ⟨u, hcopy, hdata⟩ := copy_data v h false false
  have hrun : (CS.copyStatements MIN MAX s false false).run.run v.data = (.ok (), u.data) := by
    rw [copyStatements_run, hcopy]
    rfl
  have hfront : u.data = s ++ v.data.drop s.length := hdata
  have htext := toString_append_iff hfront
  rw [List.head?_drop] at htext
  rw [← htext]
  constructor
  · rintro ⟨w, hw, hwtext⟩
    have hdata : w.data = u.data := congrArg Prod.snd (hw.symm.trans hrun)
    rwa [CS.toString?, hdata] at hwtext
  · intro hutext
    exact ⟨u, hrun, hutext⟩

theorem copy_rejected (v : CS MIN MAX cs as) {s : S} (h : ¬ Admissible MIN MAX s)
    (addNullAtEnd fillNullBeforeCopy : Bool) :
    ∃ message, (CS.copyStatements MIN MAX s addNullAtEnd fillNullBeforeCopy).run.run v.data =
      (.error message, v.data) := by
  obtain ⟨message, hcopy⟩ := copy_inadmissible v h addNullAtEnd fillNullBeforeCopy
  exact ⟨message, by rw [copyStatements_run, hcopy]; rfl⟩

/-- A call that passes the exception of `copy` on: only the text that it leaves matters. -/
theorem takenCleanly_iff_of_copy {v : CS MIN MAX cs as} {call : Supply}
    {addNullAtEnd fillNullBeforeCopy : Bool}
    (h : supply v call = .value
      ((CS.copyStatements MIN MAX call.text addNullAtEnd fillNullBeforeCopy).run.run v.data)) :
    TakenCleanly v call ↔ (Admissible MIN MAX call.text →
      ∃ u : CS MIN MAX cs as,
        (CS.copyStatements MIN MAX call.text addNullAtEnd fillNullBeforeCopy).run.run v.data =
          (.ok (), u.data) ∧
        u.toString? = some (upToNul call.text)) := by
  constructor
  · intro hclean hadm
    obtain ⟨u, hcall, htext⟩ := hclean.taken hadm
    exact ⟨u, Outcome.value.inj (h.symm.trans hcall), htext⟩
  · intro htaken
    constructor
    · intro hadm
      obtain ⟨u, hrun, htext⟩ := htaken hadm
      exact ⟨u, by rw [h, hrun], htext⟩
    · intro hadm
      obtain ⟨message, hrun⟩ := copy_rejected v hadm addNullAtEnd fillNullBeforeCopy
      exact ⟨message, by rw [h, hrun]⟩

theorem takenCleanly_of_copy {v : CS MIN MAX cs as} {call : Supply}
    {addNullAtEnd fillNullBeforeCopy : Bool}
    (hflag : (addNullAtEnd || fillNullBeforeCopy) = true)
    (h : supply v call = .value
      ((CS.copyStatements MIN MAX call.text addNullAtEnd fillNullBeforeCopy).run.run v.data)) :
    TakenCleanly v call :=
  (takenCleanly_iff_of_copy h).mpr fun hadm => copy_taken v hadm hflag

/-- The assignment of a `std::string` that is too short or too long. -/
theorem assignString_terminated (v : CS MIN MAX cs as) {s : S} (h : ¬ Admissible MIN MAX s) :
    supply v (.assignString s) = .terminated := by
  obtain ⟨message, hrun⟩ := copy_rejected v h true true
  rw [supply, hrun]

theorem assignString_takenCleanly_iff (v : CS MIN MAX cs as) (str : S) :
    TakenCleanly v (.assignString str) ↔ Admissible MIN MAX str := by
  constructor
  · intro h
    by_contra hadm
    obtain ⟨message, hmessage⟩ := h.rejected hadm
    rw [assignString_terminated v hadm] at hmessage
    cases hmessage
  · intro hadm
    obtain ⟨u, hrun, htext⟩ := copy_taken v hadm (Bool.true_or true)
    refine ⟨fun _ => ⟨u, ?_, htext⟩, fun hnot => absurd hadm hnot⟩
    rw [supply, hrun]

theorem copy_bare_takenCleanly_iff (v : CS MIN MAX cs as) (str : S) :
    TakenCleanly v (.copy str false false) ↔
      (Admissible MIN MAX str → NULL_CHAR ∈ str ∨ v.data[str.length]? = some NULL_CHAR) := by
  refine (takenCleanly_iff_of_copy rfl).trans ?_
  constructor
  · intro htaken hadm
    exact (copy_bare_taken_iff v hadm).mp (htaken hadm)
  · intro hnull hadm
    exact (copy_bare_taken_iff v hadm).mpr (hnull hadm)

/-- **When a text is taken or rejected cleanly**: unless a `std::string` that is too short or
too long is assigned, or `copy` is told to write no NUL at all where the array has none. -/
theorem takenCleanly_iff (v : CS MIN MAX cs as) (call : Supply) :
    TakenCleanly v call ↔
      (∀ str, call = .assignString str → Admissible MIN MAX str) ∧
      ∀ str, call = .copy str false false → Admissible MIN MAX str →
        NULL_CHAR ∈ str ∨ v.data[str.length]? = some NULL_CHAR := by
  cases call with
  | copy str addNullAtEnd fillNullBeforeCopy =>
    cases hflag : addNullAtEnd || fillNullBeforeCopy with
    | true =>
      refine iff_of_true (takenCleanly_of_copy hflag rfl) ⟨nofun, ?_⟩
      rintro _ ⟨⟩
      cases hflag
    | false =>
      obtain ⟨rfl, rfl⟩ := Bool.or_eq_false_iff.mp hflag
      rw [copy_bare_takenCleanly_iff]
      constructor
      · intro hnull
        refine ⟨nofun, ?_⟩
        rintro _ ⟨⟩
        exact hnull
      · rintro ⟨-, hnull⟩
        exact hnull str rfl
  | assignString str =>
    rw [assignString_takenCleanly_iff]
    constructor
    · intro hadm
      refine ⟨?_, nofun⟩
      rintro _ ⟨⟩
      exact hadm
    · rintro ⟨hadm, -⟩
      exact hadm str rfl
  | copyC str => exact iff_of_true (takenCleanly_of_copy (Bool.true_or true) rfl) ⟨nofun, nofun⟩
  | assignC str => exact iff_of_true (takenCleanly_of_copy (Bool.true_or true) rfl) ⟨nofun, nofun⟩
  | read is => exact iff_of_true (takenCleanly_of_copy (Bool.true_or true) rfl) ⟨nofun, nofun⟩

/-- Reading an e-mail assigns its parts in this way, so a local part of 64 characters ends the
process. -/
theorem extract_terminated (e : Email) (is : InStream) {at_ : ℕ}
    (hat : findFrom is.extract.1 (Wc '@') 0 = some at_) (hlong : 64 ≤ at_) :
    e.extract is = .terminated := by
  have hlt := lt_length_of_findFrom hat
  have hadm : ¬ Admissible 0 64 (is.extract.1.take at_) := by
    rintro ⟨-, hmax⟩
    rw [List.length_take] at hmax
    omega
  obtain ⟨message, hcopy⟩ := copy_inadmissible e.mlocalPart hadm true true
  unfold Email.extract
  simp only [hat, CS.assignString, hcopy]
  rfl

/-- Twenty characters for a string of at most nineteen. -/
theorem twenty_not_takenCleanly :
    ¬ TakenCleanly (CS.new : CS 0 20) (.assignString (List.replicate 20 (Wc 'a'))) := by
  intro h
  have hadm : ¬ Admissible 0 20 (List.replicate 20 (Wc 'a')) := by decide
  obtain ⟨message, hmessage⟩ := h.rejected hadm
  rw [assignString_terminated CS.new hadm] at hmessage
  cases hmessage

end Pensar.Analysis
