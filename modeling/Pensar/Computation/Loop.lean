import Mathlib.Tactic

/-!
# Loops that need not end

A `while` loop is a function that gives the next state for as long as the loop goes on.
`run` goes through it for a bounded number of tests of its condition, `Ends` is without the
bound.  `Returns` is the same for a function that has loops in it.
* `Ends.unique` and `Ends.stopped`: the last state is one, and there the condition fails.
* `Ends.invariant`: what every round keeps holds at the end.
* `exists_ends`: a loop ends if every round makes a number smaller.
* `not_ends`: it does not if every state that it can reach has a next one.
* `Reaches.invariant`: what every round keeps holds in every state on the way.
-/

set_option autoImplicit false

namespace Pensar.Computation.Loop

variable {σ τ : Type} (next : σ → Option σ)

/-- The state in which the loop ends, none if the bound does not suffice. -/
def run : (fuel : ℕ) → σ → Option σ
  | 0, _ => none
  | fuel + 1, s =>
    match next s with
    | none => some s
    | some s' => run fuel s'

/-- The loop, started in the one state, ends in the other. -/
def Ends (s t : σ) : Prop := ∃ fuel, run next fuel s = some t

variable {next} {s s' t t' : σ}

theorem ends_of_none (h : next s = none) : Ends next s t ↔ t = s := by
  constructor
  · rintro ⟨fuel, hrun⟩
    cases fuel with
    | zero => cases hrun
    | succ fuel =>
      simp only [run, h] at hrun
      exact (Option.some.inj hrun).symm
  · rintro rfl
    exact ⟨1, by simp only [run, h]⟩

theorem ends_of_some (h : next s = some s') : Ends next s t ↔ Ends next s' t := by
  constructor
  · rintro ⟨fuel, hrun⟩
    cases fuel with
    | zero => cases hrun
    | succ fuel =>
      simp only [run, h] at hrun
      exact ⟨fuel, hrun⟩
  · rintro ⟨fuel, hrun⟩
    exact ⟨fuel + 1, by simp only [run, h, hrun]⟩

/-- Induction from the end of the loop. -/
theorem Ends.induction {P : σ → Prop} (h : Ends next s t) (stop : next t = none → P t)
    (step : ∀ u v, next u = some v → Ends next v t → P v → P u) : P s := by
  obtain ⟨fuel, hrun⟩ := h
  induction fuel generalizing s with
  | zero => cases hrun
  | succ fuel ih =>
    cases hnext : next s with
    | none =>
      simp only [run, hnext] at hrun
      obtain rfl := Option.some.inj hrun
      exact stop hnext
    | some s' =>
      simp only [run, hnext] at hrun
      exact step s s' hnext ⟨fuel, hrun⟩ (ih hrun)

theorem Ends.stopped (h : Ends next s t) : next t = none := by
  apply h.induction (P := fun _ => next t = none)
  · exact id
  · exact fun _ _ _ _ hstop => hstop

theorem Ends.unique (h : Ends next s t) (h' : Ends next s t') : t' = t := by
  revert h'
  apply h.induction (P := fun u => Ends next u t' → t' = t)
  · exact fun hstop => (ends_of_none hstop).mp
  · exact fun u v huv _ ih hu => ih ((ends_of_some huv).mp hu)

/-- **What every round keeps.** -/
theorem Ends.invariant (J : σ → Prop) (h : Ends next s t) (hs : J s)
    (hstep : ∀ u v, J u → next u = some v → J v) : J t := by
  revert hs
  apply h.induction (P := fun u => J u → J t)
  · exact fun _ => id
  · exact fun u v huv _ ih hu => ih (hstep u v hu huv)

/-- **A measure**: every round makes it smaller. -/
theorem exists_ends (μ : σ → ℕ) (h : ∀ u v, next u = some v → μ v < μ u) (s : σ) :
    ∃ t, Ends next s t := by
  induction hn : μ s using Nat.strong_induction_on generalizing s with
  | _ n ih =>
    cases hnext : next s with
    | none => exact ⟨s, (ends_of_none hnext).mpr rfl⟩
    | some s' =>
      obtain ⟨t, ht⟩ := ih (μ s') (hn ▸ h s s' hnext) s' rfl
      exact ⟨t, (ends_of_some hnext).mpr ht⟩

/-- **No end**: there is always a next state. -/
theorem not_ends (J : σ → Prop) (hs : J s) (hstep : ∀ u, J u → ∃ v, next u = some v ∧ J v) :
    ¬ Ends next s t := by
  intro h
  have hkept : J t := h.invariant J hs fun u v hu huv => by
    obtain ⟨w, huw, hw⟩ := hstep u hu
    rw [huv] at huw
    rwa [Option.some.inj huw]
  obtain ⟨v, hv, -⟩ := hstep t hkept
  rw [h.stopped] at hv
  cases hv

/-- The one state is on the way from the other. -/
def Reaches (next : σ → Option σ) : σ → σ → Prop :=
  Relation.ReflTransGen fun u v => next u = some v

theorem Reaches.refl (next : σ → Option σ) (s : σ) : Reaches next s s := Relation.ReflTransGen.refl

theorem Reaches.invariant (J : σ → Prop) (h : Reaches next s t) (hs : J s)
    (hstep : ∀ u v, J u → next u = some v → J v) : J t := by
  induction h with
  | refl => exact hs
  | tail _ huv ih => exact hstep _ _ ih huv

/-- The end of the loop is on the way. -/
theorem Ends.reaches (h : Ends next s t) : Reaches next s t := by
  apply h.induction (P := fun u => Reaches next u t)
  · exact fun _ => Reaches.refl next t
  · exact fun u v huv _ ih => Relation.ReflTransGen.head huv ih

/-- More rounds than needed. -/
theorem run_mono {fuel fuel' : ℕ} (hle : fuel ≤ fuel') (h : run next fuel s = some t) :
    run next fuel' s = some t := by
  induction fuel generalizing fuel' s with
  | zero => cases h
  | succ fuel ih =>
    obtain ⟨k, rfl⟩ : ∃ k, fuel' = k + 1 := ⟨fuel' - 1, by omega⟩
    cases hnext : next s with
    | none =>
      simp only [run, hnext] at h ⊢
      exact h
    | some s' =>
      simp only [run, hnext] at h ⊢
      exact ih (Nat.le_of_succ_le_succ hle) h

/-- From some bound on the number of rounds on, this is the result. -/
def Returns (f : (fuel : ℕ) → Option σ) (a : σ) : Prop := ∃ bound, ∀ fuel ≥ bound, f fuel = some a

theorem returns_run_iff : Returns (fun fuel => run next fuel s) t ↔ Ends next s t := by
  constructor
  · rintro ⟨bound, hbound⟩
    exact ⟨bound, hbound bound le_rfl⟩
  · rintro ⟨fuel, hrun⟩
    exact ⟨fuel, fun fuel' hle => run_mono hle hrun⟩

theorem Returns.unique {f : ℕ → Option σ} {a b : σ} (ha : Returns f a) (hb : Returns f b) :
    b = a := by
  obtain ⟨m, hm⟩ := ha
  obtain ⟨n, hn⟩ := hb
  have h := hm (max m n) (Nat.le_max_left m n)
  rw [hn (max m n) (Nat.le_max_right m n)] at h
  exact Option.some.inj h

/-- What a part of the last state is. -/
theorem Ends.returns_map (h : Ends next s t) (g : σ → τ) :
    Returns (fun fuel => (run next fuel s).map g) (g t) := by
  obtain ⟨bound, hbound⟩ := returns_run_iff.mpr h
  refine ⟨bound, fun fuel hle => ?_⟩
  have hrun : run next fuel s = some t := hbound fuel hle
  simp only [hrun, Option.map_some]

/-- Two loops of which the one does, on the images of the states, what the other does. -/
theorem run_map {next' : τ → Option τ} (f : σ → τ) (h : ∀ u, next' (f u) = (next u).map f)
    (fuel : ℕ) (s : σ) : run next' fuel (f s) = (run next fuel s).map f := by
  induction fuel generalizing s with
  | zero => rfl
  | succ fuel ih =>
    simp only [run, h]
    cases next s with
    | none => rfl
    | some s' => exact ih s'

end Pensar.Computation.Loop
