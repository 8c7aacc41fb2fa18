import Mathlib.Tactic

/-!
# Machines and the rules for their runs

A `Machine` is a deterministic step function that answers every input; a partial
one is a step function into `Outcome`, where a step can also leave the defined
behaviour or end the process.

The rules say what one step has to satisfy so that every run does.
* `Machine.run_invariant`: a preserved invariant holds after every run.
* `Machine.prefix_invariant_iff`: an invariant holds throughout a run exactly when every
  step of it is one that keeps the invariant.
* `Machine.run_relation`: two machines kept related step by step stay related.
* `Machine.outputs_eq_of_related`: and if they answer every step alike, they answer a run alike.
* `Machine.outputs_eq_iff`: two machines that agree on a step exactly when `C` holds
  there, and stay related when it does, give the same answers along a run exactly
  when `C` holds at every step of it.
* `safe_along_iff`: a partial machine stays within the defined behaviour and keeps a
  property along a run exactly when `C` holds at every step of it.
* `meetsAlong_iff`: a property of steps holds along a run of a partial machine exactly when
  `C` does, if the two agree wherever the invariant holds and `C` keeps it.
* `valid_along_iff`: a partial machine whose steps end in a valid state exactly when
  `C` holds stays valid along a run exactly when `C` holds at every step of it.
-/

set_option autoImplicit false

namespace Pensar.Computation

/-- A deterministic machine with state `σ`, inputs `ι` and answers `ω`. -/
structure Machine (σ ι ω : Type) where
  step : σ → ι → σ × ω

namespace Machine

variable {σ τ ι κ ω : Type}

def run (M : Machine σ ι ω) : σ → List ι → σ
  | s, [] => s
  | s, i :: is => M.run (M.step s i).1 is

def outputs (M : Machine σ ι ω) : σ → List ι → List ω
  | _, [] => []
  | s, i :: is => (M.step s i).2 :: M.outputs (M.step s i).1 is

/-- `C` holds of every step of the run: of the state before it and its input. -/
def Along (M : Machine σ ι ω) (C : σ → ι → Prop) : σ → List ι → Prop
  | _, [] => True
  | s, i :: is => C s i ∧ M.Along C (M.step s i).1 is

@[simp] theorem run_nil (M : Machine σ ι ω) (s : σ) : M.run s [] = s := rfl

@[simp] theorem run_cons (M : Machine σ ι ω) (s : σ) (i : ι) (is : List ι) :
    M.run s (i :: is) = M.run (M.step s i).1 is := rfl

@[simp] theorem outputs_nil (M : Machine σ ι ω) (s : σ) : M.outputs s [] = [] := rfl

@[simp] theorem outputs_cons (M : Machine σ ι ω) (s : σ) (i : ι) (is : List ι) :
    M.outputs s (i :: is) = (M.step s i).2 :: M.outputs (M.step s i).1 is := rfl

theorem run_append (M : Machine σ ι ω) (s : σ) (is js : List ι) :
    M.run s (is ++ js) = M.run (M.run s is) js := by
  induction is generalizing s with
  | nil => rfl
  | cons i is ih => exact ih _

theorem outputs_append (M : Machine σ ι ω) (s : σ) (is js : List ι) :
    M.outputs s (is ++ js) = M.outputs s is ++ M.outputs (M.run s is) js := by
  induction is generalizing s with
  | nil => rfl
  | cons i is ih => simp [ih]

@[simp] theorem length_outputs (M : Machine σ ι ω) (s : σ) (is : List ι) :
    (M.outputs s is).length = is.length := by
  induction is generalizing s with
  | nil => rfl
  | cons i is ih => simp [ih]

/-- The answer to one call of the run. -/
theorem outputs_getElem?_append (M : Machine σ ι ω) (s : σ) (is : List ι) (i : ι) (js : List ι) :
    (M.outputs s (is ++ i :: js))[is.length]? = some (M.step (M.run s is) i).2 := by
  rw [outputs_append, List.getElem?_append_right (by simp), outputs_cons]
  simp

theorem along_append (M : Machine σ ι ω) (C : σ → ι → Prop) (s : σ) (is js : List ι) :
    M.Along C s (is ++ js) ↔ M.Along C s is ∧ M.Along C (M.run s is) js := by
  induction is generalizing s with
  | nil => simp [Along]
  | cons i is ih => simp [Along, ih, and_assoc]

/-- **The invariant rule.** -/
theorem run_invariant (M : Machine σ ι ω) (Inv : σ → Prop)
    (hstep : ∀ s i, Inv s → Inv (M.step s i).1) (s : σ) (is : List ι) (hs : Inv s) :
    Inv (M.run s is) := by
  induction is generalizing s with
  | nil => exact hs
  | cons i is ih => exact ih _ (hstep s i hs)

/-- The invariant rule for the answers. -/
theorem forall_outputs (M : Machine σ ι ω) (Inv : σ → Prop) (P : ω → Prop)
    (hstep : ∀ s i, Inv s → Inv (M.step s i).1) (hanswer : ∀ s i, Inv s → P (M.step s i).2)
    (s : σ) (is : List ι) (hs : Inv s) : ∀ o ∈ M.outputs s is, P o := by
  induction is generalizing s with
  | nil => simp
  | cons i is ih =>
    intro o ho
    rcases List.mem_cons.mp ho with rfl | hrest
    · exact hanswer s i hs
    · exact ih _ (hstep s i hs) o hrest

/-- The invariant rule with an observer, which sees the answers and keeps a state of its own;
for runs whose steps satisfy `C`. -/
theorem observed_invariant {η : Type} (M : Machine σ ι ω) (f : η → ω → η) (Inv : σ → η → Prop)
    (C : σ → ι → Prop)
    (hstep : ∀ s h i, Inv s h → C s i → Inv (M.step s i).1 (f h (M.step s i).2))
    (s : σ) (h : η) (is : List ι) (hC : M.Along C s is) (hs : Inv s h) :
    Inv (M.run s is) ((M.outputs s is).foldl f h) := by
  induction is generalizing s h with
  | nil => exact hs
  | cons i is ih => exact ih _ _ hC.2 (hstep s h i hs hC.1)

/-- **The exact invariant rule.**  `Inv` holds after every part of the run exactly when
`C` holds at every step of it, where `C` says which steps keep `Inv`; `J` is what the steps
keep in any case. -/
theorem prefix_invariant_iff (M : Machine σ ι ω) (J Inv : σ → Prop) (C : σ → ι → Prop)
    (hJ : ∀ s i, J s → J (M.step s i).1)
    (hstep : ∀ s i, J s → Inv s → (Inv (M.step s i).1 ↔ C s i))
    (s : σ) (is : List ι) (hs : J s) (hInv : Inv s) :
    (∀ p, p <+: is → Inv (M.run s p)) ↔ M.Along C s is := by
  induction is generalizing s with
  | nil =>
    constructor
    · intro _
      exact trivial
    · intro _ p hp
      rw [List.prefix_nil.mp hp]
      exact hInv
  | cons i is ih =>
    constructor
    · intro h
      have hnext : Inv (M.step s i).1 := h [i] ⟨is, rfl⟩
      refine ⟨(hstep s i hs hInv).mp hnext, (ih _ (hJ s i hs) hnext).mp ?_⟩
      intro p hp
      exact h (i :: p) (List.cons_prefix_cons.mpr ⟨rfl, hp⟩)
    · rintro ⟨hC, hrest⟩ p hp
      have hnext : Inv (M.step s i).1 := (hstep s i hs hInv).mpr hC
      cases p with
      | nil => exact hInv
      | cons j p =>
        obtain ⟨rfl, hprefix⟩ := List.cons_prefix_cons.mp hp
        exact (ih _ (hJ s j hs) hnext).mpr hrest p hprefix

theorem along_of_forall (M : Machine σ ι ω) (C : σ → ι → Prop) (h : ∀ s i, C s i)
    (s : σ) (is : List ι) : M.Along C s is := by
  induction is generalizing s with
  | nil => exact trivial
  | cons i is ih => exact ⟨h s i, ih _⟩

theorem along_iff_forall_prefix (M : Machine σ ι ω) (C : σ → ι → Prop) (s : σ) (is : List ι) :
    M.Along C s is ↔ ∀ p i, p ++ [i] <+: is → C (M.run s p) i := by
  induction is generalizing s with
  | nil => simp [Along]
  | cons i is ih =>
    constructor
    · rintro ⟨hC, hrest⟩ p j hp
      cases p with
      | nil =>
        obtain ⟨rfl, _⟩ := List.cons_prefix_cons.mp hp
        exact hC
      | cons k p =>
        obtain ⟨rfl, hprefix⟩ := List.cons_prefix_cons.mp hp
        exact (ih _).mp hrest p j hprefix
    · intro h
      refine ⟨h [] i (List.cons_prefix_cons.mpr ⟨rfl, List.nil_prefix⟩), (ih _).mpr ?_⟩
      intro p j hp
      exact h (i :: p) j (List.cons_prefix_cons.mpr ⟨rfl, hp⟩)

theorem along_const_iff (M : Machine σ ι ω) (C : ι → Prop) (s : σ) (is : List ι) :
    M.Along (fun _ i => C i) s is ↔ ∀ i ∈ is, C i := by
  induction is generalizing s with
  | nil => simp [Along]
  | cons i is ih => simp [Along, ih]

/-- What follows from the invariant at every step, along a run whose steps with `C` keep
it. -/
theorem along_of_invariant (M : Machine σ ι ω) (J : σ → Prop) (C P : σ → ι → Prop)
    (hstep : ∀ s i, J s → C s i → J (M.step s i).1) (hP : ∀ s i, J s → P s i)
    (s : σ) (is : List ι) (hs : J s) (hC : M.Along C s is) :
    J (M.run s is) ∧ M.Along P s is := by
  induction is generalizing s with
  | nil => exact ⟨hs, trivial⟩
  | cons i is ih =>
    obtain ⟨hJ, hrest⟩ := ih _ (hstep s i hs hC.1) hC.2
    exact ⟨hJ, hP s i hs, hrest⟩

section Simulation

variable (M : Machine σ ι ω) (f : ι → κ) (R : σ → τ → Prop) (D : ι → Prop)

/-- **The simulation rule**, for runs whose steps satisfy `C`. -/
theorem run_relation_along {ω' : Type} (N : Machine τ κ ω') (C : σ → ι → Prop)
    (hstep : ∀ s t i, R s t → C s i → R (M.step s i).1 (N.step t (f i)).1)
    (s : σ) (t : τ) (is : List ι) (hC : M.Along C s is) (hst : R s t) :
    R (M.run s is) (N.run t (is.map f)) := by
  induction is generalizing s t with
  | nil => exact hst
  | cons i is ih => exact ih _ _ hC.2 (hstep s t i hst hC.1)

/-- The simulation rule on the inputs that satisfy `D`. -/
theorem run_relation {ω' : Type} (N : Machine τ κ ω')
    (hstep : ∀ s t i, D i → R s t → R (M.step s i).1 (N.step t (f i)).1)
    (s : σ) (t : τ) (is : List ι) (hD : ∀ i ∈ is, D i) (hst : R s t) :
    R (M.run s is) (N.run t (is.map f)) := by
  apply run_relation_along M f R N (fun _ i => D i) _ s t is _ hst
  · intro s t i hst hi
    exact hstep s t i hi hst
  · exact (M.along_const_iff D s is).mpr hD

/-- **The exact simulation rule.** `C` says at which steps the two machines give the
same answer; while they do they stay related, and the first step where they do not
already separates the two runs. -/
theorem outputs_eq_iff (N : Machine τ κ ω) (C : σ → ι → Prop)
    (hanswer : ∀ s t i, D i → R s t → ((M.step s i).2 = (N.step t (f i)).2 ↔ C s i))
    (hstep : ∀ s t i, D i → R s t → C s i → R (M.step s i).1 (N.step t (f i)).1)
    (s : σ) (t : τ) (is : List ι) (hD : ∀ i ∈ is, D i) (hst : R s t) :
    M.outputs s is = N.outputs t (is.map f) ↔ M.Along C s is := by
  induction is generalizing s t with
  | nil => simp [Along]
  | cons i is ih =>
    have hi : D i := hD i (by simp)
    have his : ∀ j ∈ is, D j := fun j hj => hD j (by simp [hj])
    simp only [outputs_cons, List.map_cons, List.cons.injEq, Along, hanswer s t i hi hst]
    constructor
    · rintro ⟨hC, hrest⟩
      exact ⟨hC, (ih _ _ his (hstep s t i hi hst hC)).mp hrest⟩
    · rintro ⟨hC, hrest⟩
      exact ⟨hC, (ih _ _ his (hstep s t i hi hst hC)).mpr hrest⟩

end Simulation

/-- **A machine that another one stands for.**  A step of both keeps them related, and the answer
of the second is what `p` shows of the answer of the first. -/
theorem outputs_eq_of_related {ω' : Type} (M : Machine σ ι ω) (N : Machine τ ι ω')
    (p : ι → ω → ω') (R : σ → τ → Prop)
    (hstep : ∀ s t i, R s t →
      R (M.step s i).1 (N.step t i).1 ∧ p i (M.step s i).2 = (N.step t i).2)
    (s : σ) (t : τ) (is : List ι) (hst : R s t) :
    List.zipWith p is (M.outputs s is) = N.outputs t is ∧ R (M.run s is) (N.run t is) := by
  induction is generalizing s t with
  | nil => exact ⟨rfl, hst⟩
  | cons i is ih =>
    obtain ⟨hnext, hanswer⟩ := hstep s t i hst
    obtain ⟨hrest, hend⟩ := ih _ _ hnext
    refine ⟨?_, hend⟩
    rw [outputs_cons, outputs_cons, List.zipWith_cons_cons, hanswer, hrest]

end Machine

/-! ## Partial machines -/

/-- How a call ends: with a value, outside the defined behaviour of the language, or
with the end of the process. -/
inductive Outcome (α : Type) where
  | value (a : α)
  | undefined
  | terminated
  deriving DecidableEq, Repr

namespace Outcome

variable {α β : Type}

def bind : Outcome α → (α → Outcome β) → Outcome β
  | value a, f => f a
  | undefined, _ => undefined
  | terminated, _ => terminated

instance : Monad Outcome where
  pure := value
  bind := bind

@[simp] theorem pure_eq (a : α) : (pure a : Outcome α) = value a := rfl

@[simp] theorem value_bind (a : α) (f : α → Outcome β) : (value a >>= f) = f a := rfl

@[simp] theorem undefined_bind (f : α → Outcome β) : (undefined >>= f) = undefined := rfl

@[simp] theorem terminated_bind (f : α → Outcome β) : (terminated >>= f) = terminated := rfl

instance : LawfulMonad Outcome :=
  LawfulMonad.mk' Outcome (fun x => by cases x <;> rfl) (fun _ _ => rfl)
    (fun x _ _ => by cases x <;> rfl)

/-- Within the defined behaviour, and with `P` if there is a value. -/
def Safe (P : α → Prop) : Outcome α → Prop
  | value a => P a
  | undefined => False
  | terminated => True

@[simp] theorem safe_value (P : α → Prop) (a : α) : (value a).Safe P ↔ P a := Iff.rfl

@[simp] theorem safe_undefined (P : α → Prop) : (undefined : Outcome α).Safe P ↔ False := Iff.rfl

@[simp] theorem safe_terminated (P : α → Prop) : (terminated : Outcome α).Safe P ↔ True := Iff.rfl

@[simp] theorem safe_bind (P : β → Prop) (x : Outcome α) (f : α → Outcome β) :
    (x >>= f).Safe P ↔ x.Safe fun a => (f a).Safe P := by
  cases x <;> exact Iff.rfl

theorem Safe.mono {P Q : α → Prop} (h : ∀ a, P a → Q a) {x : Outcome α} (hx : x.Safe P) :
    x.Safe Q := by
  cases x with
  | value a => exact h a hx
  | undefined => exact hx
  | terminated => exact trivial

theorem bind_eq_value_iff (x : Outcome α) (f : α → Outcome β) (b : β) :
    x >>= f = value b ↔ ∃ a, x = value a ∧ f a = value b := by
  cases x <;> simp

/-! ### Tests -/

/-- A test that stays within the defined behaviour and answers whether `P`. -/
def Decides (P : Prop) (x : Outcome Bool) : Prop := ∃ b, x = value b ∧ (b = true ↔ P)

@[simp] theorem decides_value (P : Prop) (b : Bool) : (value b).Decides P ↔ (b = true ↔ P) := by
  constructor
  · rintro ⟨_, h, hP⟩
    cases h
    exact hP
  · intro hP
    exact ⟨b, rfl, hP⟩

theorem Decides.congr {P Q : Prop} {x : Outcome Bool} (hx : x.Decides P) (h : P ↔ Q) :
    x.Decides Q := by
  obtain ⟨b, rfl, hb⟩ := hx
  exact ⟨b, rfl, hb.trans h⟩

/-- A check that fails the test, and the rest of it. -/
theorem Decides.unless {P R : Prop} [Decidable R] {x : Outcome Bool} (hx : ¬ R → x.Decides P) :
    (if R then .value false else x).Decides (¬ R ∧ P) := by
  by_cases hR : R
  · simp [hR]
  · simpa [hR] using hx hR

/-- One test after another. -/
theorem Decides.and {P Q : Prop} {x y : Outcome Bool} (hx : x.Decides P)
    (hy : P → y.Decides Q) : (do if ← x then y else .value false).Decides (P ∧ Q) := by
  obtain ⟨b, rfl, hb⟩ := hx
  cases b with
  | false =>
    have hP : ¬ P := by simpa using hb
    simp [hP]
  | true =>
    have hP : P := by simpa using hb
    simpa [hP] using hy hP

end Outcome

section Partial

variable {σ ι : Type} (step : σ → ι → Outcome σ)

/-- Every state of the run satisfies `Inv`, and every step of it ends with a state. -/
def ValidAlong (Inv : σ → Prop) : σ → List ι → Prop
  | s, [] => Inv s
  | s, i :: is => Inv s ∧ ∃ s', step s i = .value s' ∧ ValidAlong Inv s' is

/-- `C` holds of every step of the run, as far as it gets. -/
def MeetsAlong (C : σ → ι → Prop) : σ → List ι → Prop
  | _, [] => True
  | s, i :: is => C s i ∧ ∀ s', step s i = .value s' → MeetsAlong C s' is

theorem meetsAlong_cons {C : σ → ι → Prop} {s s' : σ} {i : ι} {is : List ι}
    (hstep : step s i = .value s') (hC : C s i) (hrest : MeetsAlong step C s' is) :
    MeetsAlong step C s (i :: is) := by
  refine ⟨hC, ?_⟩
  intro s'' hs''
  rw [hstep] at hs''
  cases hs''
  exact hrest

/-- **The exact invariant rule** for partial machines. -/
theorem valid_along_iff (Inv : σ → Prop) (C : σ → ι → Prop)
    (hstep : ∀ s i, Inv s → ((∃ s', step s i = .value s' ∧ Inv s') ↔ C s i))
    (s : σ) (is : List ι) (hs : Inv s) :
    ValidAlong step Inv s is ↔ MeetsAlong step C s is := by
  induction is generalizing s with
  | nil => simp [ValidAlong, MeetsAlong, hs]
  | cons i is ih =>
    simp only [ValidAlong, MeetsAlong, hs, true_and]
    constructor
    · rintro ⟨s', hs', hrest⟩
      have hInv : Inv s' := by cases is <;> first | exact hrest | exact hrest.1
      refine ⟨(hstep s i hs).mp ⟨s', hs', hInv⟩, ?_⟩
      intro s'' hs''
      have : s' = s'' := by simpa [hs'] using hs''
      subst this
      exact (ih s' hInv).mp hrest
    · rintro ⟨hC, hrest⟩
      obtain ⟨s', hs', hInv⟩ := (hstep s i hs).mpr hC
      exact ⟨s', hs', (ih s' hInv).mpr (hrest s' hs')⟩

/-- **The exact step rule.**  Where `J` holds, `P` holds of a step exactly when `C` does, and
the steps with `C` keep `J`: then the two hold along the same runs. -/
theorem meetsAlong_iff (J : σ → Prop) (P C : σ → ι → Prop) (D : ι → Prop)
    (hiff : ∀ s i, D i → J s → (P s i ↔ C s i))
    (hkeep : ∀ s i s', D i → J s → C s i → step s i = .value s' → J s')
    (s : σ) (is : List ι) (hD : ∀ i ∈ is, D i) (hs : J s) :
    MeetsAlong step P s is ↔ MeetsAlong step C s is := by
  induction is generalizing s with
  | nil => exact Iff.rfl
  | cons i is ih =>
    have hi : D i := hD i (by simp)
    have his : ∀ j ∈ is, D j := fun j hj => hD j (by simp [hj])
    constructor
    · rintro ⟨hP, hrest⟩
      have hC := (hiff s i hi hs).mp hP
      refine ⟨hC, ?_⟩
      intro s' hs'
      exact (ih s' his (hkeep s i s' hi hs hC hs')).mp (hrest s' hs')
    · rintro ⟨hC, hrest⟩
      refine ⟨(hiff s i hi hs).mpr hC, ?_⟩
      intro s' hs'
      exact (ih s' his (hkeep s i s' hi hs hC hs')).mpr (hrest s' hs')

/-- **The exact safety rule**, on the inputs that satisfy `D`.  `J` is the invariant that
carries the proof; the steps that satisfy `C` keep it, and a step that does not is not
even safe for the weaker `P`. -/
theorem safe_along_iff (J P : σ → Prop) (C : σ → ι → Prop) (D : ι → Prop)
    (hJP : ∀ s, J s → P s)
    (hkeep : ∀ s i, D i → J s → C s i → (step s i).Safe J)
    (hneed : ∀ s i, D i → J s → (step s i).Safe P → C s i)
    (s : σ) (is : List ι) (hD : ∀ i ∈ is, D i) (hs : J s) :
    MeetsAlong step (fun s i => (step s i).Safe P) s is ↔ MeetsAlong step C s is := by
  apply meetsAlong_iff step J _ C D _ _ s is hD hs
  · intro s i hi hJ
    exact ⟨hneed s i hi hJ, fun hC => (hkeep s i hi hJ hC).mono hJP⟩
  · intro s i s' hi hJ hC hs'
    have hsafe := hkeep s i hi hJ hC
    rwa [hs'] at hsafe

end Partial

end Pensar.Computation
