import Pensar.Computation.Grouping
import Pensar.Model.IntegerText

/-!
# The grouping character

`insert_grouping_char` counts from the left: `i` up to the end of the first group, and `count`
the characters of a group after it.  What the loop appends for the rest of the string is that
rest with its groups counted from the right (`insertGroupingCharLoop_eq`); the invariant says how
many characters are still missing to a group, and that is a statement about the length of the
rest.

Main result: `insertGroupingChar_groups`.
-/

set_option autoImplicit false

namespace Pensar.Analysis

open Pensar.Computation
open Pensar.Model

/-- The counters in front of a rest of the length `todo`: either the first group is not complete
yet, or `count` characters of a later one have gone by. -/
structure Counted (primeiro i count : UInt32) (todo : ℕ) : Prop where
  primeiro_lt : primeiro.toNat < 3
  small : i.toNat + todo < 2 ^ 32
  counters : (i.toNat ≤ primeiro.toNat ∧ count.toNat = i.toNat ∧
      (i.toNat + todo) % 3 = (primeiro.toNat + 1) % 3) ∨
    (primeiro.toNat < i.toNat ∧ count.toNat < 3 ∧ (count.toNat + todo) % 3 = 0)

variable {primeiro i count : UInt32} {todo : ℕ}

/-- **The test of the loop**, in front of a character with `todo` behind it. -/
theorem Counted.complete_iff (h : Counted primeiro i count (todo + 1)) :
    (i = primeiro ∨ count + 1 = 3) ↔ 3 ∣ todo := by
  obtain ⟨hp, hsmall, hcounters⟩ := h
  have hi : i = primeiro ↔ i.toNat = primeiro.toNat := UInt32.toNat_inj.symm
  have hcount : count.toNat < 3 := by omega
  have hc : count + 1 = 3 ↔ count.toNat = 2 := by
    rw [← UInt32.toNat_inj, UInt32.toNat_add]
    change (count.toNat + 1) % 2 ^ 32 = 3 ↔ _
    omega
  rw [hi, hc]
  omega

theorem toNat_succ {k : UInt32} (h : k.toNat + 1 < 2 ^ 32) : (k + 1).toNat = k.toNat + 1 := by
  rw [UInt32.toNat_add]
  exact Nat.mod_eq_of_lt h

/-- A group is complete, and another one follows. -/
theorem Counted.reset (h : Counted primeiro i count (todo + 1)) (hdvd : 3 ∣ todo) :
    Counted primeiro (i + 1) 0 todo := by
  have hcomplete := h.complete_iff.mpr hdvd
  obtain ⟨hp, hsmall, hcounters⟩ := h
  have hi := toNat_succ (k := i) (by omega)
  refine ⟨hp, by omega, Or.inr ⟨?_, by decide, ?_⟩⟩
  · rcases hcomplete with rfl | hc
    · omega
    · have hthree := congrArg UInt32.toNat hc
      rw [toNat_succ (by omega)] at hthree
      change count.toNat + 1 = 3 at hthree
      omega
  · change (0 + todo) % 3 = 0
    omega

/-- A group goes on. -/
theorem Counted.next (h : Counted primeiro i count (todo + 1)) (hdvd : ¬ 3 ∣ todo) :
    Counted primeiro (i + 1) (count + 1) todo := by
  have hcomplete := mt h.complete_iff.mp hdvd
  obtain ⟨hp, hsmall, hcounters⟩ := h
  have hne : i.toNat ≠ primeiro.toNat := fun heq => hcomplete (Or.inl (UInt32.toNat_inj.mp heq))
  have hi := toNat_succ (k := i) (by omega)
  have hc := toNat_succ (k := count) (by omega)
  refine ⟨hp, by omega, ?_⟩
  rw [hi, hc]
  omega

/-- **The loop.** -/
theorem insertGroupingCharLoop_eq (g : C) (f s : S) (h : Counted primeiro i count s.length) :
    insertGroupingCharLoop primeiro g i count f s = f ++ grouped 3 g s := by
  induction s generalizing i count f with
  | nil => exact (List.append_nil f).symm
  | cons c rest ih =>
    rw [List.length_cons] at h
    by_cases hnil : rest = []
    · subst hnil
      have hlast : grouped 3 g [c] = [c] := grouped_cons_of_not fun hdvd => hdvd.1 rfl
      rw [hlast, insertGroupingCharLoop]
      split <;> simp [insertGroupingCharLoop]
    · have hlast : rest.isEmpty = false := by rwa [List.isEmpty_eq_false_iff]
      by_cases hdvd : 3 ∣ rest.length
      · rw [grouped_cons_of_dvd hnil hdvd]
        have hrest := ih (f ++ [c] ++ [g]) (h.reset hdvd)
        rw [List.append_assoc, List.append_assoc] at hrest
        rcases h.complete_iff.mpr hdvd with hi | hc
        · simp only [insertGroupingCharLoop, hlast, hi, if_true, Bool.not_false]
          rw [hi] at hrest
          simpa using hrest
        · simp only [insertGroupingCharLoop, hlast, hc, decide_true, Bool.not_false, Bool.and_true,
            if_true, ite_self]
          simpa using hrest
      · obtain ⟨hi, hc⟩ := not_or.mp (mt h.complete_iff.mp hdvd)
        rw [grouped_cons_of_not (fun hboth => hdvd hboth.2)]
        simp only [insertGroupingCharLoop, hi, hc, if_false, decide_false, Bool.false_and,
          Bool.false_eq_true]
        rw [ih (f ++ [c]) (h.next hdvd), List.append_assoc]
        rfl

/-- The counters at the start. -/
theorem counted_start (n : ℕ) (h : n < 2 ^ 32) :
    Counted ((if UInt32.ofNat (n % 3) = 0 then 3 else UInt32.ofNat (n % 3)) - 1) 0 0 n := by
  have hlt := Nat.mod_lt n (by decide : 0 < 3)
  generalize hm : n % 3 = m at hlt
  interval_cases m
  · exact ⟨by decide, by simpa using h, Or.inl ⟨by decide, rfl, by simpa using hm⟩⟩
  · exact ⟨by decide, by simpa using h, Or.inl ⟨by decide, rfl, by simpa using hm⟩⟩
  · exact ⟨by decide, by simpa using h, Or.inl ⟨by decide, rfl, by simpa using hm⟩⟩

theorem insertGroupingChar_eq_grouped (s : S) (g : C) (h : s.length < 2 ^ 32) :
    insertGroupingChar s g = grouped 3 g s :=
  insertGroupingCharLoop_eq g [] s (counted_start s.length h)

/-- **Grouping from the right**: the character stands where a positive multiple of three
characters follows, not at the start and not at the end; removing it gives the string back, and
every group but the first has three characters. -/
theorem insertGroupingChar_groups (s : S) (g : C) (hlen : s.length < 2 ^ 32) (hg : g ∉ s) :
    insertGroupingChar s g = grouped 3 g s ∧
      (insertGroupingChar s g).head? = s.head? ∧
      (insertGroupingChar s g).getLast? = s.getLast? ∧
      (insertGroupingChar s g).filter (fun c => decide (c ≠ g)) = s ∧
      ∀ group ∈ ((insertGroupingChar s g).splitOn g).tail, group.length = 3 := by
  rw [insertGroupingChar_eq_grouped s g hlen]
  refine ⟨rfl, head?_grouped s, getLast?_grouped s, filter_grouped hg, ?_⟩
  by_cases hs : s = []
  · subst hs
    intro group hmem
    exact absurd hmem List.not_mem_nil
  · obtain ⟨first, others, hsplit, -, hothers⟩ := splitOn_grouped (by decide : 0 < 3) hs hg
    rw [hsplit]
    exact hothers

theorem insertGroupingChar_groups_seven :
    (W "1234567").length < 2 ^ 32 ∧ Wc ',' ∉ W "1234567" ∧
      insertGroupingChar (W "1234567") = W "1,234,567" ∧
      (insertGroupingChar (W "1234567")).filter (fun c => decide (c ≠ Wc ',')) = W "1234567" :=
  ⟨by decide, by decide, by decide,
    (insertGroupingChar_groups (W "1234567") (Wc ',') (by decide) (by decide)).2.2.2.1⟩

end Pensar.Analysis
