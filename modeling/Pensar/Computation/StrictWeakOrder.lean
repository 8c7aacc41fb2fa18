import Mathlib.Data.List.Sort
import Mathlib.Data.List.TakeWhile
import Mathlib.Tactic

/-!
# Strict weak orders, sorted lists and binary search

A comparator is a function that decides a strict weak order.  Elements that are not
comparable are equivalent, which need not mean equal, so a sorted list can hold several
elements of one class and the order inside the class is a matter of its own.

* `lowerBound_eq`: on a sorted list the binary search stops where the elements less than
  the value end.
* `insertIdx_lowerBound`: inserting there is inserting before the first element that is
  not less.
* `search_eq_findIdx`: looking there for an equivalent element finds what a linear search
  finds.
* `set_sorted_iff`: a sorted list stays sorted under an assignment exactly when the value
  fits between its neighbours.
* `sorted_ext`: a sorted list is determined by its classes, each in its order.
* `foldl_insert_eq_iff`: inserting the elements of a sorted list one by one gives the
  list again exactly when every class reads the same backwards.
-/

set_option autoImplicit false

namespace Pensar.Computation

/-- A function that decides a strict weak order. -/
structure StrictWeakOrder (α : Type) where
  lt : α → α → Bool
  strictWeak : IsStrictWeakOrder α (fun a b => lt a b = true)

namespace StrictWeakOrder

variable {α : Type} (O : StrictWeakOrder α)

/-- Neither is less than the other. -/
def equiv (a b : α) : Bool := !O.lt a b && !O.lt b a

/-- The order in which a sorted list may hold two elements. -/
def le (a b : α) : Prop := O.lt b a = false

instance : DecidableRel O.le := fun a b => inferInstanceAs (Decidable (O.lt b a = false))

def Sorted (l : List α) : Prop := l.Pairwise O.le

/-- `std::less`. -/
def less (α : Type) [LinearOrder α] : StrictWeakOrder α where
  lt a b := decide (a < b)
  strictWeak := by
    simp only [decide_eq_true_eq]
    exact isStrictWeakOrder_of_isOrderConnected

variable {O}

theorem lt_irrefl (a : α) : O.lt a a = false := by
  have h := O.strictWeak.irrefl a
  simpa using h

theorem lt_trans {a b c : α} (hab : O.lt a b = true) (hbc : O.lt b c = true) :
    O.lt a c = true :=
  O.strictWeak.trans a b c hab hbc

theorem lt_asymm {a b : α} (hab : O.lt a b = true) : O.lt b a = false := by
  by_contra hba
  have haa := lt_trans hab (by simpa using hba)
  rw [lt_irrefl] at haa
  exact Bool.false_ne_true haa

theorem equiv_iff {a b : α} : O.equiv a b = true ↔ O.le a b ∧ O.le b a := by
  simp [equiv, le, and_comm]

theorem equiv_refl (a : α) : O.equiv a a = true := by
  rw [equiv_iff]
  exact ⟨lt_irrefl a, lt_irrefl a⟩

theorem equiv_symm {a b : α} (h : O.equiv a b = true) : O.equiv b a = true := by
  rw [equiv_iff] at h ⊢
  exact h.symm

theorem equiv_trans {a b c : α} (hab : O.equiv a b = true) (hbc : O.equiv b c = true) :
    O.equiv a c = true := by
  have h := O.strictWeak.incomp_trans a b c
  simp only [equiv, Bool.and_eq_true, Bool.not_eq_true', Bool.not_eq_true] at h hab hbc ⊢
  exact h hab hbc

theorem le_refl (a : α) : O.le a a := lt_irrefl a

/-- Not being less is transitive: where both steps are equivalences this is the axiom,
and a strict step anywhere would contradict one of the two. -/
theorem le_trans {a b c : α} (hab : O.le a b) (hbc : O.le b c) : O.le a c := by
  unfold le at *
  by_contra hca
  rw [Bool.not_eq_false] at hca
  have hba : O.lt a b = false := by
    by_contra h
    rw [Bool.not_eq_false] at h
    exact Bool.false_ne_true (hbc.symm.trans (lt_trans hca h))
  have hcb : O.lt b c = false := by
    by_contra h
    rw [Bool.not_eq_false] at h
    exact Bool.false_ne_true (hab.symm.trans (lt_trans h hca))
  have hac : O.equiv a c = true :=
    equiv_trans (b := b) (equiv_iff.mpr ⟨hab, hba⟩) (equiv_iff.mpr ⟨hbc, hcb⟩)
  exact Bool.false_ne_true ((equiv_iff.mp hac).1.symm.trans hca)

theorem le_total (a b : α) : O.le a b ∨ O.le b a := by
  cases hab : O.lt a b with
  | false => exact Or.inr hab
  | true => exact Or.inl (lt_asymm hab)

instance : Std.Total O.le := ⟨le_total⟩

instance : IsTrans α O.le := ⟨fun _ _ _ => le_trans⟩

theorem le_of_lt {a b : α} (h : O.lt a b = true) : O.le a b := lt_asymm h

/-- In a sorted list the elements less than `v` come first. -/
theorem Sorted.lt_of_lt {l : List α} (hl : O.Sorted l) (v : α) :
    l.Pairwise fun a b => O.lt b v = true → O.lt a v = true := by
  refine List.Pairwise.imp ?_ hl
  intro a b hab hbv
  by_contra hav
  rw [Bool.not_eq_true] at hav
  have hvb : O.le v b := le_trans hav hab
  exact Bool.false_ne_true (hvb.symm.trans hbv)

/-! ## Binary search -/

variable (O)

/-- The loop of `std::lower_bound`: `len` positions from `first` on are left.  `fuel`
bounds the rounds. -/
def halve (l : List α) (v : α) : (fuel first len : ℕ) → ℕ
  | 0, first, _ => first
  | fuel + 1, first, len =>
    if len = 0 then first
    else
      let half := len / 2
      let middle := first + half
      match l[middle]? with
      | none => first
      | some x =>
        if O.lt x v then halve l v fuel (middle + 1) (len - half - 1)
        else halve l v fuel first half

/-- `std::lower_bound` over the whole list.  A round leaves fewer positions, so there are
no more rounds than elements. -/
def lowerBound (l : List α) (v : α) : ℕ := halve O l v l.length 0 l.length

variable {O}

/-- Everything before `i` is less than `v` and nothing from `j` on is. -/
def Splits (l : List α) (v : α) (i j : ℕ) : Prop :=
  (∀ x ∈ l.take i, O.lt x v = true) ∧ ∀ x ∈ l.drop j, O.lt x v = false

theorem Splits.step_right {l : List α} (hl : O.Sorted l) {v : α} {i j m : ℕ}
    (h : Splits (O := O) l v i j) (hm : m < l.length) (hlt : O.lt l[m] v = true) :
    Splits (O := O) l v (m + 1) j := by
  refine ⟨?_, h.2⟩
  intro x hx
  rw [List.take_succ_eq_append_getElem hm, List.mem_append, List.mem_singleton] at hx
  rcases hx with hx | rfl
  · have hpair := hl.lt_of_lt v
    rw [← List.take_append_drop m l, List.pairwise_append] at hpair
    apply hpair.2.2 x hx l[m] _ hlt
    rw [List.drop_eq_getElem_cons hm]
    exact List.mem_cons_self
  · exact hlt

theorem Splits.step_left {l : List α} (hl : O.Sorted l) {v : α} {i j m : ℕ}
    (h : Splits (O := O) l v i j) (hm : m < l.length) (hlt : O.lt l[m] v = false) :
    Splits (O := O) l v i m := by
  refine ⟨h.1, ?_⟩
  intro x hx
  rw [List.drop_eq_getElem_cons hm, List.mem_cons] at hx
  rcases hx with rfl | hx
  · exact hlt
  · have hpair := hl.lt_of_lt v
    rw [← List.take_append_drop (m + 1) l, List.pairwise_append] at hpair
    by_contra hxv
    rw [Bool.not_eq_false] at hxv
    have hmem : l[m] ∈ l.take (m + 1) := by
      rw [List.take_succ_eq_append_getElem hm]
      exact List.mem_append_right _ List.mem_cons_self
    exact Bool.false_ne_true (hlt.symm.trans (hpair.2.2 _ hmem x hx hxv))

theorem halve_splits {l : List α} (hl : O.Sorted l) (v : α) (fuel first len : ℕ)
    (hfuel : len ≤ fuel) (hlen : first + len ≤ l.length)
    (h : Splits (O := O) l v first (first + len)) :
    Splits (O := O) l v (O.halve l v fuel first len) (O.halve l v fuel first len) ∧
      O.halve l v fuel first len ≤ l.length := by
  induction fuel generalizing first len with
  | zero =>
    have hzero : len = 0 := by omega
    subst hzero
    exact ⟨h, hlen⟩
  | succ fuel ih =>
    by_cases hzero : len = 0
    · subst hzero
      simp only [halve, if_true]
      exact ⟨h, hlen⟩
    · have hm : first + len / 2 < l.length := by omega
      simp only [halve, if_neg hzero, List.getElem?_eq_getElem hm]
      cases hlt : O.lt l[first + len / 2] v with
      | true =>
        simp only [if_true]
        apply ih _ _ (by omega) (by omega)
        have hend : first + len / 2 + 1 + (len - len / 2 - 1) = first + len := by omega
        rw [hend]
        exact h.step_right hl hm hlt
      | false =>
        simp only [Bool.false_eq_true, if_false]
        apply ih _ _ (by omega) (by omega)
        exact h.step_left hl hm hlt

theorem lowerBound_splits {l : List α} (hl : O.Sorted l) (v : α) :
    Splits (O := O) l v (O.lowerBound l v) (O.lowerBound l v) ∧ O.lowerBound l v ≤ l.length := by
  apply halve_splits hl v l.length 0 l.length (Nat.le_refl _) (by omega)
  refine ⟨by simp, ?_⟩
  intro x hx
  simp at hx

/-- **Lower bound.**  The search stops where the elements less than `v` end. -/
theorem lowerBound_eq {l : List α} (hl : O.Sorted l) (v : α) :
    O.lowerBound l v = (l.takeWhile fun x => O.lt x v).length := by
  obtain ⟨⟨hbefore, hafter⟩, hlen⟩ := lowerBound_splits hl v
  have hstop : (l.drop (O.lowerBound l v)).takeWhile (fun x => O.lt x v) = [] := by
    cases hdrop : l.drop (O.lowerBound l v) with
    | nil => rfl
    | cons x xs =>
      apply List.takeWhile_cons_of_neg
      rw [hafter x (by rw [hdrop]; exact List.mem_cons_self)]
      exact Bool.false_ne_true
  have htake : (l.takeWhile fun x => O.lt x v) = l.take (O.lowerBound l v) := by
    conv_lhs => rw [← List.take_append_drop (O.lowerBound l v) l]
    rw [List.takeWhile_append_of_pos hbefore, hstop, List.append_nil]
  rw [htake, List.length_take, Nat.min_eq_left hlen]

/-! ## Insertion -/

variable (O)

/-- Insert before the first element that is not less. -/
def insert (v : α) (l : List α) : List α := l.orderedInsert O.le v

variable {O}

theorem insert_eq_take_drop (v : α) (l : List α) :
    O.insert v l = (l.takeWhile fun x => O.lt x v) ++ v :: l.dropWhile fun x => O.lt x v := by
  have hneg : (fun x => decide ¬ O.le v x) = fun x => O.lt x v := by
    funext x
    simp [le]
  unfold insert
  rw [List.orderedInsert_eq_take_drop, hneg]

theorem insert_sorted {l : List α} (hl : O.Sorted l) (v : α) : O.Sorted (O.insert v l) :=
  List.Pairwise.orderedInsert v l hl

theorem insert_perm (v : α) (l : List α) : (O.insert v l).Perm (v :: l) :=
  List.perm_orderedInsert O.le v l

theorem insertIdx_eq_take_drop {l : List α} {i : ℕ} (hi : i ≤ l.length) (v : α) :
    l.insertIdx i v = l.take i ++ v :: l.drop i := by
  induction l generalizing i with
  | nil =>
    have hzero : i = 0 := by simpa using hi
    subst hzero
    rfl
  | cons x xs ih =>
    cases i with
    | zero => rfl
    | succ i => simp [ih (by simpa using hi : i ≤ xs.length)]

/-- Inserting where the binary search stops. -/
theorem insertIdx_lowerBound {l : List α} (hl : O.Sorted l) (v : α) :
    l.insertIdx (O.lowerBound l v) v = O.insert v l := by
  rw [insertIdx_eq_take_drop (lowerBound_splits hl v).2, insert_eq_take_drop, lowerBound_eq hl v]
  congr 1
  · exact (List.prefix_iff_eq_take.mp (List.takeWhile_prefix _)).symm
  · congr 1
    calc l.drop (l.takeWhile fun x => O.lt x v).length
        = ((l.takeWhile fun x => O.lt x v) ++ l.dropWhile fun x => O.lt x v).drop
            (l.takeWhile fun x => O.lt x v).length := by rw [List.takeWhile_append_dropWhile]
      _ = l.dropWhile fun x => O.lt x v := List.drop_left

/-! ## Search -/

/-- **Search.**  Where the binary search stops there is an equivalent element exactly if
there is one at all, and then it is the first. -/
theorem search_eq_findIdx {l : List α} (hl : O.Sorted l) (v : α) :
    (if (l[O.lowerBound l v]?).any (O.equiv v) then O.lowerBound l v else l.length) =
      l.findIdx (O.equiv v) := by
  obtain ⟨⟨hbefore, hafter⟩, hlen⟩ := lowerBound_splits hl v
  have hskip : ∀ x ∈ l.take (O.lowerBound l v), O.equiv v x = false := by
    intro x hx
    simp [equiv, hbefore x hx]
  have hsplit : l.findIdx (O.equiv v) =
      O.lowerBound l v + (l.drop (O.lowerBound l v)).findIdx (O.equiv v) := by
    conv_lhs => rw [← List.take_append_drop (O.lowerBound l v) l]
    rw [List.findIdx_append, List.findIdx_eq_length_of_false hskip, List.length_take,
      Nat.min_eq_left hlen, if_neg (Nat.lt_irrefl _), Nat.add_comm]
  rw [hsplit, ← List.head?_drop]
  have hlength : l.length = O.lowerBound l v + (l.drop (O.lowerBound l v)).length := by
    rw [List.length_drop]
    omega
  have hrest : O.Sorted (l.drop (O.lowerBound l v)) := List.Pairwise.drop hl
  cases hdrop : l.drop (O.lowerBound l v) with
  | nil =>
    rw [hdrop] at hlength
    simpa using hlength
  | cons x xs =>
    rw [hdrop] at hlength hrest hafter
    cases hx : O.equiv v x with
    | true => simp [hx, List.findIdx_cons]
    | false =>
      -- `v` is less than the element here, so than everything after it
      have hvx : O.lt v x = true := by
        have hxv : O.lt x v = false := hafter x List.mem_cons_self
        simpa [equiv, hxv] using hx
      have hnone : ∀ y ∈ x :: xs, O.equiv v y = false := by
        intro y hy
        have hxy : O.le x y := by
          rcases List.mem_cons.mp hy with rfl | hy
          · exact le_refl y
          · exact (List.pairwise_cons.mp hrest).1 y hy
        by_contra heq
        rw [Bool.not_eq_false, equiv_iff] at heq
        have hxv : O.le x v := le_trans hxy heq.2
        exact Bool.false_ne_true (hxv.symm.trans hvx)
      rw [List.findIdx_eq_length_of_false hnone]
      simpa [hx] using hlength

/-! ## Writing -/

/-- A sorted list stays sorted under an assignment exactly when the new value fits between
the two neighbours. -/
theorem set_sorted_iff {l : List α} (hl : O.Sorted l) {i : ℕ} (hi : i < l.length) (v : α) :
    O.Sorted (l.set i v) ↔
      (∀ x, 0 < i → l[i - 1]? = some x → O.le x v) ∧ ∀ x, l[i + 1]? = some x → O.le v x := by
  have hchain := List.isChain_iff_getElem.mp (List.isChain_iff_pairwise.mpr hl)
  unfold Sorted
  rw [← List.isChain_iff_pairwise, List.isChain_iff_getElem]
  constructor
  · intro h
    constructor
    · intro x hpos hx
      obtain ⟨hlt, rfl⟩ := List.getElem?_eq_some_iff.mp hx
      have hpair := h (i - 1) (by rw [List.length_set]; omega)
      simp only [Nat.sub_add_cancel hpos, List.getElem_set_self] at hpair
      rwa [List.getElem_set_ne (by omega)] at hpair
    · intro x hx
      obtain ⟨hlt, rfl⟩ := List.getElem?_eq_some_iff.mp hx
      have hpair := h i (by rw [List.length_set]; exact hlt)
      rwa [List.getElem_set_self, List.getElem_set_ne (by omega)] at hpair
  · rintro ⟨hbefore, hafter⟩ j hj
    rw [List.length_set] at hj
    by_cases hji : i = j
    · subst hji
      rw [List.getElem_set_self, List.getElem_set_ne (by omega)]
      exact hafter _ (List.getElem?_eq_getElem hj)
    · by_cases hsucc : i = j + 1
      · subst hsucc
        rw [List.getElem_set_self, List.getElem_set_ne (by omega)]
        exact hbefore _ (Nat.succ_pos j) (List.getElem?_eq_getElem (by omega))
      · rw [List.getElem_set_ne hji, List.getElem_set_ne hsucc]
        exact hchain j hj

/-! ## Classes -/

/-- **A sorted list is determined by its classes**, each in its order. -/
theorem sorted_ext {l l' : List α} (hl : O.Sorted l) (hl' : O.Sorted l')
    (h : ∀ v, l.filter (O.equiv v) = l'.filter (O.equiv v)) : l = l' := by
  induction l generalizing l' with
  | nil =>
    cases l' with
    | nil => rfl
    | cons y ys =>
      have hy := h y
      simp [equiv_refl] at hy
  | cons x xs ih =>
    cases l' with
    | nil =>
      have hx := h x
      simp [equiv_refl] at hx
    | cons y ys =>
      have hx : x ∈ y :: ys := by
        have hmem : x ∈ (x :: xs).filter (O.equiv x) := by simp [equiv_refl]
        rw [h x] at hmem
        exact List.mem_of_mem_filter hmem
      have hy : y ∈ x :: xs := by
        have hmem : y ∈ (y :: ys).filter (O.equiv y) := by simp [equiv_refl]
        rw [← h y] at hmem
        exact List.mem_of_mem_filter hmem
      have hyx : O.le y x := by
        rcases List.mem_cons.mp hx with rfl | hx
        · exact le_refl x
        · exact (List.pairwise_cons.mp hl').1 x hx
      have hxy : O.le x y := by
        rcases List.mem_cons.mp hy with rfl | hy
        · exact le_refl y
        · exact (List.pairwise_cons.mp hl).1 y hy
      have heq : x = y := by
        have hclass := h x
        rw [List.filter_cons_of_pos (equiv_refl x),
          List.filter_cons_of_pos (equiv_iff.mpr ⟨hxy, hyx⟩)] at hclass
        exact (List.cons.inj hclass).1
      subst heq
      rw [ih (List.pairwise_cons.mp hl).2 (List.pairwise_cons.mp hl').2]
      intro v
      have hv := h v
      by_cases hvx : O.equiv v x = true
      · rw [List.filter_cons_of_pos hvx, List.filter_cons_of_pos hvx] at hv
        exact (List.cons.inj hv).2
      · rw [List.filter_cons_of_neg hvx, List.filter_cons_of_neg hvx] at hv
        exact hv

/-- A value comes in front of its class and changes no other. -/
theorem filter_insert (v w : α) (l : List α) :
    (O.insert w l).filter (O.equiv v) = (w :: l).filter (O.equiv v) := by
  have hl : l.filter (O.equiv v) = ((l.takeWhile fun x => O.lt x w) ++
      l.dropWhile fun x => O.lt x w).filter (O.equiv v) := by
    rw [List.takeWhile_append_dropWhile]
  rw [insert_eq_take_drop, List.filter_append]
  by_cases hvw : O.equiv v w = true
  · have hskip : (l.takeWhile fun x => O.lt x w).filter (O.equiv v) = [] := by
      rw [List.filter_eq_nil_iff]
      intro x hx hvx
      have hxw : O.equiv x w = true := equiv_trans (equiv_symm hvx) hvw
      have hlt : O.lt x w = true := List.mem_takeWhile_imp (p := fun x => O.lt x w) hx
      exact Bool.false_ne_true ((equiv_iff.mp hxw).2.symm.trans hlt)
    rw [List.filter_append, hskip, List.nil_append] at hl
    rw [hskip, List.nil_append, List.filter_cons_of_pos hvw, List.filter_cons_of_pos hvw, hl]
  · rw [List.filter_cons_of_neg hvw, List.filter_cons_of_neg hvw, ← List.filter_append, ← hl]

theorem foldl_insert_sorted {acc : List α} (hacc : O.Sorted acc) (l : List α) :
    O.Sorted (l.foldl (fun acc v => O.insert v acc) acc) := by
  induction l generalizing acc with
  | nil => exact hacc
  | cons x xs ih => exact ih (insert_sorted hacc x)

/-- Inserting one by one turns every class around. -/
theorem filter_foldl_insert (v : α) (l acc : List α) :
    (l.foldl (fun acc w => O.insert w acc) acc).filter (O.equiv v) =
      (l.filter (O.equiv v)).reverse ++ acc.filter (O.equiv v) := by
  induction l generalizing acc with
  | nil => rfl
  | cons x xs ih =>
    rw [List.foldl_cons, ih, filter_insert]
    by_cases hx : O.equiv v x = true
    · simp [List.filter_cons_of_pos hx]
    · simp [List.filter_cons_of_neg hx]

theorem foldl_insert_eq_iff {l : List α} (hl : O.Sorted l) :
    l.foldl (fun acc v => O.insert v acc) [] = l ↔
      ∀ v, (l.filter (O.equiv v)).reverse = l.filter (O.equiv v) := by
  constructor
  · intro h v
    have hv := filter_foldl_insert (O := O) v l []
    rw [h, List.filter_nil, List.append_nil] at hv
    exact hv.symm
  · intro h
    apply sorted_ext (foldl_insert_sorted List.Pairwise.nil l) hl
    intro v
    rw [filter_foldl_insert, List.filter_nil, List.append_nil, h v]

end StrictWeakOrder

end Pensar.Computation
