import Pensar.Analysis.EmailConstruction
import Pensar.Model.PersonName

/-!
# The full name and what is written

With a middle name `name` has no space in front of the last name, and throws if the two have more
than 19 characters together; without one it is the text that `write` emits.

Main result: `name_isWritten_iff`.
-/

set_option autoImplicit false

namespace Pensar.Analysis

open Pensar.Computation
open Pensar.Model

variable {n : PersonName} {first middle last : S}

/-- The three fields hold these strings. -/
structure HoldsNames (n : PersonName) (first middle last : S) : Prop where
  first_eq : n.mfirst.toString? = some first
  middle_eq : n.mmiddle.toString? = some middle
  last_eq : n.mlast.toString? = some last

theorem write_eq (h : HoldsNames n first middle last) (os : S) :
    n.write os = .value (os ++ first ++ [SPACE] ++
      (if middle.length = 0 then [] else middle ++ [SPACE]) ++ last) := by
  obtain ⟨hfirst, hmiddle, hlast⟩ := h
  simp only [PersonName.write, hfirst, hmiddle, hlast, Email.defined, Outcome.value_bind]
  split <;> simp only [List.append_assoc, List.append_nil]

/-- `name` returns the text that `write` emits. -/
def IsWritten (n : PersonName) : Prop :=
  ∃ full text, n.name = .value (.ok full) ∧ full.toString? = some text ∧
    n.write [] = .value text

theorem holds_of_isWritten (h : IsWritten n) :
    ∃ first middle last, HoldsNames n first middle last := by
  obtain ⟨full, text, -, -, hwrite⟩ := h
  cases hfirst : n.mfirst.toString? with
  | none =>
    simp only [PersonName.write, hfirst, Email.defined, Outcome.undefined_bind] at hwrite
    cases hwrite
  | some first =>
    cases hmiddle : n.mmiddle.toString? with
    | none =>
      simp only [PersonName.write, hfirst, hmiddle, Email.defined, Outcome.value_bind,
        Outcome.undefined_bind] at hwrite
      cases hwrite
    | some middle =>
      cases hlast : n.mlast.toString? with
      | none =>
        simp only [PersonName.write, hfirst, hmiddle, hlast, Email.defined, Outcome.value_bind,
          Outcome.undefined_bind] at hwrite
        cases hwrite
      | some last => exact ⟨first, middle, last, hfirst, hmiddle, hlast⟩

theorem lt_of_toString {N : ℕ} {v : CS 0 N} {s : S} (h : v.toString? = some s) : s.length < N :=
  length_lt (by rw [CS.length?, h, Option.map_some])

theorem concat_error {N : ℕ} (lhs : S) {rhs : CS 0 N} {m : S} (hm : rhs.toString? = some m)
    (hroom : ¬ (lhs ++ m).length < N) :
    ∃ message, Email.concat lhs rhs = .value (.error message) := by
  rw [List.length_append] at hroom
  simp only [Email.concat, CS.length?, hm, Option.map_some]
  rw [dif_pos (by omega)]
  exact ⟨_, rfl⟩

/-- What the constructor makes of a name that fits. -/
theorem ofString_toString {s : S} (hshort : s.length < PersonName.MAX_NAME)
    (hfree : NULL_CHAR ∉ s) :
    ∃ full : CS 0 PersonName.MAX_NAME, CS.new.ofString s = .ok full ∧ full.toString? = some s :=
  ⟨CS.ofS s hshort, CS.copy_eq_ofS CS.new s hshort (Nat.zero_le _), CS.toString_ofS s hshort hfree⟩

/-- Without a middle name. -/
theorem name_of_no_middle (h : HoldsNames n first [] last) :
    ∃ full : CS 0 PersonName.MAX_NAME, n.name = .value (.ok full) ∧
      full.toString? = some (first ++ [SPACE] ++ last) := by
  obtain ⟨hfirst, hmiddle, hlast⟩ := h
  have hshort : (first ++ [SPACE] ++ last).length < PersonName.MAX_NAME := by
    have hlf := lt_of_toString hfirst
    have hll := lt_of_toString hlast
    rw [List.length_append, List.length_append, List.length_singleton, PersonName.MAX_NAME]
    omega
  have hfree : NULL_CHAR ∉ first ++ [SPACE] ++ last := by
    have hspace : NULL_CHAR ∉ [SPACE] := by decide
    simp only [List.mem_append, (toString_eq_some hfirst).2, (toString_eq_some hlast).2, hspace,
      or_self, not_false_iff]
  obtain ⟨full, hcopy, htext⟩ := ofString_toString hshort hfree
  refine ⟨full, ?_, htext⟩
  simp only [PersonName.name, hfirst, hmiddle, hlast, Email.defined, Outcome.value_bind,
    List.length_nil, if_true, hcopy]

/-- With a middle name the text, if there is one, lacks the second space. -/
theorem name_of_middle (h : HoldsNames n first middle last) (hmiddle : middle ≠ [])
    {full : CS 0 PersonName.MAX_NAME} (hname : n.name = .value (.ok full)) {text : S}
    (htext : full.toString? = some text) : text = first ++ [SPACE] ++ (middle ++ last) := by
  obtain ⟨hfirst, hmid, hlast⟩ := h
  have hlen : middle.length ≠ 0 := fun hzero => hmiddle (List.length_eq_zero_iff.mp hzero)
  by_cases hroom : (middle ++ last).length < 20
  · have hboth : NULL_CHAR ∉ middle ++ last := by
      simp only [List.mem_append, (toString_eq_some hmid).2, (toString_eq_some hlast).2, or_self,
        not_false_iff]
    have hfree : NULL_CHAR ∉ first ++ [SPACE] ++ (middle ++ last) := by
      have hspace : NULL_CHAR ∉ [SPACE] := by decide
      rw [List.mem_append, List.mem_append]
      simp only [(toString_eq_some hfirst).2, hspace, hboth, or_self, not_false_iff]
    have hshort : (first ++ [SPACE] ++ (middle ++ last)).length < PersonName.MAX_NAME := by
      have hlf := lt_of_toString hfirst
      rw [List.length_append, List.length_append, List.length_singleton, PersonName.MAX_NAME]
      omega
    obtain ⟨full', hcopy, htext'⟩ := ofString_toString hshort hfree
    simp only [PersonName.name, hfirst, hmid, Email.defined, Outcome.value_bind, hlen, if_false,
      concat_eq middle hlast hroom, CS.toString_ofS _ _ hboth, hcopy] at hname
    cases hname
    rw [htext'] at htext
    exact (Option.some.inj htext).symm
  · obtain ⟨message, herror⟩ := concat_error middle hlast hroom
    simp only [PersonName.name, hfirst, hmid, Email.defined, Outcome.value_bind, hlen, if_false,
      herror] at hname
    cases hname

/-- **The full name**: it is what is written exactly when the middle name is empty (and the three
arrays hold strings). -/
theorem name_isWritten_iff (n : PersonName) :
    IsWritten n ↔ ∃ first last, HoldsNames n first [] last := by
  constructor
  · intro h
    obtain ⟨first, middle, last, hholds⟩ := holds_of_isWritten h
    obtain ⟨full, text, hname, htext, hwrite⟩ := h
    by_cases hmiddle : middle = []
    · exact ⟨first, last, hmiddle ▸ hholds⟩
    · have hlen : middle.length ≠ 0 := fun hzero => hmiddle (List.length_eq_zero_iff.mp hzero)
      rw [name_of_middle hholds hmiddle hname htext, write_eq hholds, if_neg hlen] at hwrite
      have hlength := congrArg List.length (Outcome.value.inj hwrite)
      simp only [List.length_append, List.length_nil, List.length_singleton] at hlength
      omega
  · rintro ⟨first, last, hholds⟩
    obtain ⟨full, hname, htext⟩ := name_of_no_middle hholds
    refine ⟨full, _, hname, htext, ?_⟩
    rw [write_eq hholds]
    simp only [List.length_nil, if_true, List.nil_append, List.append_nil]

/-- `name` gives `Ana MariaSilva`, and `write` emits `Ana Maria Silva`. -/
theorem not_isWritten_middle :
    ¬ ∀ n first middle last, HoldsNames n first middle last → IsWritten n := by
  intro h
  obtain ⟨full, text, hname, htext, hwrite⟩ :=
    h ⟨CS.ofS (W "Ana") (by decide), CS.ofS (W "Maria") (by decide), CS.ofS (W "Silva") (by decide)⟩
      (W "Ana") (W "Maria") (W "Silva") ⟨by decide, by decide, by decide⟩
  have hfull : full.toString? = some (W "Ana MariaSilva") := by
    cases hname
    decide
  rw [hfull] at htext
  rw [← Option.some.inj htext] at hwrite
  exact absurd hwrite (by decide)

end Pensar.Analysis
