import Pensar.Analysis.FactoryFacade
import Pensar.Interface.GeneratorUses

/-!
# Cloning a generator

`clone` asks the generator for its next id, which changes it, and makes a generator with that id
that starts again at the initial value.  The copy is pure for a generator that hands out one id
only, its own (`clone_pure_iff`).

Main result: `clones_pure_along_iff`.
-/

set_option autoImplicit false

namespace Pensar.Analysis

open Pensar.Computation
open Pensar.Model
open Pensar.Interface

variable {depth : ℕ} {s : PoolState Generator} {self : Address} {g : Generator}

/-- The state after a clone of the generator `g`. -/
def cloned (self : Address) (g : Generator) (s : PoolState Generator) : PoolState Generator :=
  let s := Generator.changeAt (fun _ => g.getId.2) self s
  let args := (g.getId.1, g.mdata.minitialValue, g.mdata.mstep)
  { s with memory := (NewFactory.get Generator.pooled args s.memory).2 }

/-- What a clone does. -/
theorem clone_returns (depth : ℕ) (hself : s.memory.objects[self]? = some g) :
    Generator.clone depth self g s = .returned s.memory.objects.length (cloned self g s) ∧
      (cloned self g s).memory.objects[self]? = some g.getId.2 ∧
      (cloned self g s).memory.objects[s.memory.objects.length]? =
        some (Generator.new g.getId.1 g.mdata.minitialValue g.mdata.mstep) := by
  obtain ⟨hlt, -⟩ := List.getElem?_eq_some_iff.mp hself
  have hlength : (Generator.changeAt (fun _ => g.getId.2) self s).memory.objects.length =
      s.memory.objects.length := List.length_modify _ _ _
  refine ⟨?_, ?_, ?_⟩
  · rw [← hlength]
    exact factory_get Generator.pooled _ depth _
  · show (List.modify _ _ _ ++ _)[self]? = _
    rw [List.getElem?_append_left (by rw [List.length_modify]; exact hlt),
      List.getElem?_modify_eq, hself]
    rfl
  · show (List.modify _ _ _ ++ _)[s.memory.objects.length]? = _
    rw [List.getElem?_append_right (by rw [List.length_modify]), List.length_modify, Nat.sub_self]
    rfl

/-- Generators that are alike issue the same ids. -/
theorem issuedNext_congr {s s' : PoolState Generator} {a b : Address}
    (ha : s.memory.objects[a]? = some g) (hb : s'.memory.objects[b]? = some g) (count : ℕ) :
    issuedNext depth s a count = issuedNext depth s' b count := by
  induction count generalizing s s' g with
  | zero => rfl
  | succ count ih =>
    have hstep {t : PoolState Generator} {c : Address} (hc : t.memory.objects[c]? = some g) :
        (generatorUses depth).step t (.getId c) =
          (Generator.changeAt (fun g => g.getId.2) c t, .issued g.getId.1) := by
      simp only [generatorUses, generatorUseStep, hc]
    have hnext {t : PoolState Generator} {c : Address} (hc : t.memory.objects[c]? = some g) :
        (Generator.changeAt (fun g => g.getId.2) c t).memory.objects[c]? = some g.getId.2 := by
      rw [Generator.changeAt, List.getElem?_modify_eq, hc]
      rfl
    have hrest := ih (hnext ha) (hnext hb)
    simp only [issuedNext, List.replicate_succ, Machine.outputs_cons, hstep ha, hstep hb] at hrest ⊢
    rw [hrest]

/-- **One clone.** -/
theorem clone_pure_iff (hself : s.memory.objects[self]? = some g) :
    ClonesPurely depth s self g ↔ Constant g := by
  obtain ⟨hclone, hsource, hcopy⟩ := clone_returns depth hself
  constructor
  · rintro ⟨copy, t, hreturned, hsame, halike, -⟩
    rw [hclone] at hreturned
    obtain ⟨rfl, rfl⟩ := GetResult.returned.inj hreturned
    rw [hsource] at hsame
    rw [hcopy] at halike
    have hid : g.mdata.mvalue + g.mdata.mstep = g.mdata.mvalue :=
      congrArg (fun g => g.mdata.mvalue) (Option.some.inj hsame)
    have hnew := Option.some.inj halike
    refine ⟨BitVec.add_right_eq_self.mp hid, (congrArg (fun g => g.mdata.mvalue) hnew).symm, ?_⟩
    have hobject := congrArg (fun g => g.object.mid) hnew
    simp only [Generator.new, Generator.getId, hid] at hobject
    exact hobject.symm
  · rintro ⟨hstep, hvalue, hid⟩
    obtain ⟨⟨mid⟩, ⟨initialValue, value, step⟩⟩ := g
    obtain rfl : step = 0 := hstep
    obtain rfl : value = initialValue := hvalue
    have hissued : value + 0 = value := BitVec.add_zero value
    have hsame : Generator.getId ⟨⟨mid⟩, ⟨value, value, 0⟩⟩ =
        (value, ⟨⟨mid⟩, ⟨value, value, 0⟩⟩) := by
      rw [Generator.getId, hissued]
    have halike : Generator.new value value 0 = ⟨⟨mid⟩, ⟨value, value, 0⟩⟩ := by
      rw [Generator.new, ← hid]
    rw [hsame] at hsource hcopy
    rw [halike] at hcopy
    exact ⟨_, _, hclone, hsource, hcopy, issuedNext_congr hcopy hsource⟩

/-- **Cloning throughout a run** is pure exactly when only such generators are cloned. -/
theorem clones_pure_along_iff (depth : ℕ) (uses : List GeneratorUse) :
    (generatorUses depth).Along (OfCloned (ClonesPurely depth)) Generator.mfactory uses ↔
      (generatorUses depth).Along (OfCloned fun _ _ g => Constant g) Generator.mfactory uses := by
  have hone (s : PoolState Generator) (use : GeneratorUse) :
      OfCloned (ClonesPurely depth) s use ↔ OfCloned (fun _ _ g => Constant g) s use := by
    constructor
    · exact fun h self g huse hself => (clone_pure_iff hself).mp (h self g huse hself)
    · exact fun h self g huse hself => (clone_pure_iff hself).mpr (h self g huse hself)
  rw [Machine.along_iff_forall_prefix, Machine.along_iff_forall_prefix]
  simp only [hone]

/-- The generator that the class makes by default, cloned. -/
theorem not_clones_pure_default :
    ¬ ∀ uses : List GeneratorUse,
      (generatorUses 1).Along (OfCloned (ClonesPurely 1)) Generator.mfactory uses := by
  intro h
  obtain ⟨-, hclone, -⟩ := h [.get NULL_ID 0 1, .clone 3]
  obtain ⟨copy, s', hreturned, hsame, -⟩ := hclone 3 (Generator.new NULL_ID 0 1) rfl (by decide)
  obtain ⟨rfl, rfl⟩ := GetResult.returned.inj hreturned
  exact absurd hsame (by decide)

end Pensar.Analysis
