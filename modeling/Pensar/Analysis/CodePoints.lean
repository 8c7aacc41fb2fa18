import Pensar.Computation.Loop
import Pensar.Model.IcuUtil

/-!
# Code points out of any units

`to_codepoints` reads a code point at its index and goes on by the number of units that this
code point takes.  It never stops inside a surrogate pair, and the units before its index are
those of the code points that it has (`Consumed`); so it ends at the last unit, whether or not
the surrogates among the units come in pairs.

Main result: `toCodepoints_consumes`.
-/

set_option autoImplicit false

namespace Pensar.Analysis

open Pensar.Computation
open Pensar.Computation.Utf16
open Pensar.Model

/-- The state of the loop: the code points so far are the units before the index. -/
structure Consumed (us : UnicodeString) (s : ℕ × List ℕ) : Prop where
  le_length : s.1 ≤ us.length
  not_inside : ¬ InsidePair us s.1
  units_eq : s.2.flatMap units = us.take s.1

variable {us : UnicodeString}

theorem consumed_start (us : UnicodeString) : Consumed us (0, []) where
  le_length := Nat.zero_le _
  not_inside := not_insidePair_zero us
  units_eq := rfl

theorem toCodepointsNext_eq_some {s t : ℕ × List ℕ} (h : toCodepointsNext us s = some t) :
    s.1 < us.length ∧
      t = (s.1 + unitCount (char32At us s.1), s.2 ++ [char32At us s.1]) := by
  obtain ⟨i, codepoints⟩ := s
  rw [toCodepointsNext] at h
  split at h
  case isTrue hi => exact ⟨hi, (Option.some.inj h).symm⟩
  case isFalse => cases h

theorem Consumed.next (hus : ∀ u ∈ us, u ≤ 0xFFFF) {s t : ℕ × List ℕ} (hs : Consumed us s)
    (h : toCodepointsNext us s = some t) : Consumed us t := by
  obtain ⟨hi, rfl⟩ := toCodepointsNext_eq_some h
  obtain ⟨htake, hle, hinside⟩ := take_char32At hus hi hs.not_inside
  refine ⟨hle, hinside, ?_⟩
  rw [List.flatMap_append, List.flatMap_singleton, hs.units_eq, htake]

/-- Every round goes on. -/
theorem toCodepointsNext_lt {s t : ℕ × List ℕ} (h : toCodepointsNext us s = some t) :
    us.length - t.1 < us.length - s.1 := by
  obtain ⟨hi, rfl⟩ := toCodepointsNext_eq_some h
  have hpos := unitCount_pos (char32At us s.1)
  simp only
  omega

theorem snd_of_ends {s t : ℕ × List ℕ} (h : Loop.Ends (toCodepointsNext us) s t) :
    t.2 = toCodepointsLoop us s.1 s.2 := by
  apply h.induction (P := fun s => t.2 = toCodepointsLoop us s.1 s.2)
  · rintro hstop
    have hi : ¬ t.1 < us.length := by
      intro hi
      rw [toCodepointsNext, if_pos hi] at hstop
      cases hstop
    rw [toCodepointsLoop, if_neg hi]
  · intro u v huv _ ih
    obtain ⟨hi, rfl⟩ := toCodepointsNext_eq_some huv
    rw [ih, toCodepointsLoop.eq_1 us u.1, if_pos hi]

/-- **Extraction of code points**, from any units: the loop ends behind the last one; all the
way the units before its index are, each once and in order, those of the code points that it
has; and so are all of them in the end. -/
theorem toCodepoints_consumes (us : UnicodeString) (hus : ∀ u ∈ us, u ≤ 0xFFFF) :
    Loop.Ends (toCodepointsNext us) (0, []) (us.length, toCodepointsLoop us 0 []) ∧
    (∀ i codepoints, Loop.Reaches (toCodepointsNext us) (0, []) (i, codepoints) →
      i ≤ us.length ∧ codepoints.flatMap units = us.take i) ∧
    (toCodepointsLoop us 0 []).flatMap units = us := by
  have hway : ∀ s, Loop.Reaches (toCodepointsNext us) (0, []) s → Consumed us s := by
    intro s h
    exact h.invariant (Consumed us) (consumed_start us) fun u v hu huv => hu.next hus huv
  obtain ⟨⟨i, codepoints⟩, hends⟩ :=
    Loop.exists_ends (fun s : ℕ × List ℕ => us.length - s.1)
      (fun _ _ => toCodepointsNext_lt) (0, [])
  have hlast := hway _ hends.reaches
  have hi : i = us.length := by
    have hstop := hends.stopped
    rw [toCodepointsNext] at hstop
    split at hstop
    case isTrue => cases hstop
    case isFalse hge => exact Nat.le_antisymm hlast.le_length (Nat.not_lt.mp hge)
  have hloop : codepoints = toCodepointsLoop us 0 [] := snd_of_ends hends
  subst hi
  subst hloop
  refine ⟨hends, ?_, ?_⟩
  · intro i codepoints h
    exact ⟨(hway _ h).le_length, (hway _ h).units_eq⟩
  · rw [hlast.units_eq, List.take_length]

/-- A pair between two trail surrogates, and a lead surrogate at the end. -/
theorem toCodepoints_consumes_lone :
    Loop.Ends (toCodepointsNext [0xDC00, 0xD83D, 0xDE00, 0xDE00, 0x41, 0xD83D]) (0, [])
      (6, [0xDC00, 0x1F600, 0xDE00, 0x41, 0xD83D]) := by
  have h := (toCodepoints_consumes [0xDC00, 0xD83D, 0xDE00, 0xDE00, 0x41, 0xD83D]
    (by decide)).1
  have hloop : toCodepointsLoop [0xDC00, 0xD83D, 0xDE00, 0xDE00, 0x41, 0xD83D] 0 [] =
      [0xDC00, 0x1F600, 0xDE00, 0x41, 0xD83D] := by
    simp [toCodepointsLoop, char32At, IsLead, IsTrail, supplementary, unitCount]
  rwa [hloop] at h

end Pensar.Analysis
