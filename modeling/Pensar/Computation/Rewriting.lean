import Pensar.Computation.Loop
import Pensar.Computation.Substring

/-!
# Replacing the first occurrence again and again

The loop that replaces the first occurrence of `o` by `r` until there is none.
* It ends if `r` is shorter than `o` (`exists_ends_of_shorter`), and what it ends in does not
  have `o` in it (`not_infix_of_ends`); with `o` in `r` it does not end (`not_ends_of_occurs`).
* It ends in what one pass from left to right gives if the two keep pace
  (`ends_of_keepsPace`): whenever an occurrence starts in front of where the pass goes on,
  replacing it has to give the same list as replacing the next one of the pass.

For the converse (`keepsPace_of_ends`), let the loop replace an occurrence in front of where the
pass goes on.  Where `r` and `o` first differ, `r` has `y` and `o` has `x`; there the loop now has
`y` and the pass has `x`.  Every further round replaces an `x` by a `y` in this sense
(`Departs`), so the loop does not come back.
-/

set_option autoImplicit false

namespace Pensar.Computation.Rewriting

open Loop

variable {α : Type} [DecidableEq α] {o r s t : List α}

theorem ends_of_not_occurs (h : ¬ o <:+: s) : Ends (replaceFirst o r) s t ↔ t = s :=
  ends_of_none (replaceFirst_eq_none_iff.mpr h)

theorem not_infix_of_ends (h : Ends (replaceFirst o r) s t) : ¬ o <:+: t :=
  replaceFirst_eq_none_iff.mp h.stopped

theorem exists_ends_of_shorter (h : r.length < o.length) (s : List α) :
    ∃ t, Ends (replaceFirst o r) s t := by
  apply exists_ends List.length
  intro u v huv
  obtain ⟨l, rest, rfl, rfl, -⟩ := cut_of_replaceFirst huv
  simp only [List.length_append]
  omega

/-- There is always something to replace if the replacement has `o` in it. -/
theorem not_ends_of_occurs (hr : o <:+: r) (hs : o <:+: s) : ¬ Ends (replaceFirst o r) s t := by
  apply not_ends (fun u => o <:+: u) hs
  intro u hu
  obtain ⟨v, hv⟩ : ∃ v, replaceFirst o r u = some v := by
    rw [← Option.ne_none_iff_exists', Ne, replaceFirst_eq_none_iff, not_not]
    exact hu
  obtain ⟨l, rest, -, rfl, -⟩ := cut_of_replaceFirst hv
  exact ⟨_, hv, hr.trans (List.infix_append l r rest)⟩

/-- What does not depend on whether `o` or `r` is at a place. -/
theorem eq_of_ends {β : Type} (f : List α → β)
    (hf : ∀ l rest, f (l ++ r ++ rest) = f (l ++ o ++ rest)) (h : Ends (replaceFirst o r) s t) :
    f t = f s := by
  apply h.invariant (fun u => f u = f s) rfl
  intro u v hu huv
  obtain ⟨l, rest, rfl, rfl, -⟩ := cut_of_replaceFirst huv
  rw [hf, hu]

theorem deletesBlocks_of_ends (h : Ends (replaceFirst o []) s t) : DeletesBlocks o.length s t := by
  apply h.invariant (DeletesBlocks o.length s) (DeletesBlocks.refl s)
  intro u v hu huv
  obtain ⟨l, rest, rfl, rfl, -⟩ := cut_of_replaceFirst huv
  rw [List.append_nil]
  exact hu.cut

/-! ## The loop and the pass -/

/-- The pass has come to `rest` and left `front` behind it: from here on the loop keeps pace
with it. -/
inductive KeepsPace (o r : List α) : (front rest : List α) → Prop where
  | stop {front rest : List α} (h : ¬ o <:+: front ++ rest) : KeepsPace o r front rest
  | next {front l rest : List α} (hnext : findSub (l ++ o ++ rest) o = some l.length)
      (hfirst : replaceFirst o r (front ++ (l ++ o ++ rest)) = some (front ++ l ++ r ++ rest))
      (h : KeepsPace o r (front ++ l ++ r) rest) : KeepsPace o r front (l ++ o ++ rest)

theorem ends_of_keepsPace (ho : o ≠ []) {front rest : List α} (h : KeepsPace o r front rest) :
    Ends (replaceFirst o r) (front ++ rest) (front ++ replaceAll o r rest) := by
  induction h with
  | @stop front rest hnot =>
    have hrest : ¬ o <:+: rest := fun hoccurs => hnot (hoccurs.trans List.infix_append_right)
    rw [replaceAll_of_not_occurs r hrest]
    exact (ends_of_not_occurs hnot).mpr rfl
  | @next front l rest hnext hfirst _ ih =>
    rw [ends_of_some hfirst, replaceAll_of_findSub r ho hnext]
    simpa only [List.append_assoc] using ih

/-! ### Where two lists first differ -/

/-- At the first position at which they differ, the one list has `x` and the other `y`. -/
def Departs (x y : α) (u v : List α) : Prop :=
  ∃ k, u.take k = v.take k ∧ u[k]? = some x ∧ v[k]? = some y

omit [DecidableEq α] in
theorem departs_of_append (x y : α) (c p q : List α) : Departs x y (c ++ x :: p) (c ++ y :: q) := by
  refine ⟨c.length, ?_, ?_, ?_⟩
  · rw [List.take_left', List.take_left'] <;> rfl
  · rw [List.getElem?_append_right (Nat.le_refl _), Nat.sub_self, List.getElem?_cons_zero]
  · rw [List.getElem?_append_right (Nat.le_refl _), Nat.sub_self, List.getElem?_cons_zero]

omit [DecidableEq α] in
theorem getElem?_eq_of_take_eq {u v : List α} {k i : ℕ} (h : u.take k = v.take k) (hi : i < k) :
    u[i]? = v[i]? := by
  rw [← List.getElem?_take_of_lt hi, h, List.getElem?_take_of_lt hi]

omit [DecidableEq α] in
theorem take_eq_of_le {u v : List α} {k i : ℕ} (h : u.take k = v.take k) (hi : i ≤ k) :
    u.take i = v.take i := by
  have htake := congrArg (List.take i) h
  rwa [List.take_take, List.take_take, Nat.min_eq_left hi] at htake

omit [DecidableEq α] in
theorem Departs.ne {x y : α} (hxy : x ≠ y) {u v : List α} (h : Departs x y u v) : u ≠ v := by
  rintro rfl
  obtain ⟨k, -, hx, hy⟩ := h
  exact hxy (Option.some.inj (hx.symm.trans hy))

omit [DecidableEq α] in
theorem Departs.trans {x y : α} (hxy : x ≠ y) {u v w : List α} (h : Departs x y u v)
    (h' : Departs x y v w) : Departs x y u w := by
  obtain ⟨k, htake, hx, hy⟩ := h
  obtain ⟨k', htake', hx', hy'⟩ := h'
  rcases Nat.lt_trichotomy k k' with hlt | rfl | hlt
  · refine ⟨k, htake.trans (take_eq_of_le htake' hlt.le), hx, ?_⟩
    rw [← getElem?_eq_of_take_eq htake' hlt, hy]
  · exact absurd (Option.some.inj (hx'.symm.trans hy)) hxy
  · refine ⟨k', (take_eq_of_le htake hlt.le).trans htake', ?_, hy'⟩
    rw [getElem?_eq_of_take_eq htake hlt, hx']

omit [DecidableEq α] in
theorem exists_first_difference {p q : List α} (hpq : ¬ p <+: q) (hqp : ¬ q <+: p) :
    ∃ c x y p' q', p = c ++ x :: p' ∧ q = c ++ y :: q' ∧ x ≠ y := by
  induction p generalizing q with
  | nil => exact absurd List.nil_prefix hpq
  | cons a p ih =>
    cases q with
    | nil => exact absurd List.nil_prefix hqp
    | cons b q =>
      by_cases hab : a = b
      · subst hab
        rw [List.cons_prefix_cons, and_iff_right rfl] at hpq hqp
        obtain ⟨c, x, y, p', q', rfl, rfl, hxy⟩ := ih hpq hqp
        exact ⟨a :: c, x, y, p', q', rfl, rfl, hxy⟩
      · exact ⟨[], a, b, p, q, rfl, rfl, hab⟩

/-! ### The loop does not come back -/

omit [DecidableEq α] in
/-- An occurrence in front of where the pass goes on is replaced; the pass leaves `x` where `r`
and `o` first differ, and the loop has `y` there. -/
theorem departs_of_earlier {c o' r' front v rest later : List α} {x y : α} (pass : List α)
    (hv : v ≠ []) (hcut : v ++ (c ++ x :: o') ++ rest = c ++ x :: o' ++ later) :
    Departs x y (front ++ v ++ (c ++ y :: r') ++ pass) (front ++ (c ++ y :: r') ++ later) := by
  have hpos := List.length_pos_of_ne_nil hv
  -- both are in front of the list that the two replace in
  have hleft : v ++ c <+: c ++ x :: o' ++ later := by
    rw [← hcut]
    exact ⟨x :: o' ++ rest, by simp only [List.append_assoc, List.cons_append]⟩
  have hright : c ++ [x] <+: c ++ x :: o' ++ later :=
    ⟨o' ++ later, by simp only [List.append_assoc, List.cons_append, List.nil_append]⟩
  obtain ⟨z, hz⟩ : c ++ [x] <+: v ++ c := by
    apply List.prefix_of_prefix_length_le hright hleft
    simp only [List.length_append, List.length_singleton]
    omega
  have hpass : front ++ v ++ (c ++ y :: r') ++ pass =
      (front ++ c) ++ x :: (z ++ y :: r' ++ pass) := by
    calc front ++ v ++ (c ++ y :: r') ++ pass
        = front ++ (v ++ c) ++ (y :: r' ++ pass) := by simp only [List.append_assoc]
      _ = front ++ (c ++ [x] ++ z) ++ (y :: r' ++ pass) := by rw [hz]
      _ = (front ++ c) ++ x :: (z ++ y :: r' ++ pass) := by
        simp only [List.append_assoc, List.cons_append, List.nil_append]
  have hloop : front ++ (c ++ y :: r') ++ later = (front ++ c) ++ y :: (r' ++ later) := by
    simp only [List.append_assoc, List.cons_append]
  rw [hpass, hloop]
  exact departs_of_append x y (front ++ c) _ _

/-- Every round of the loop departs in the same way. -/
theorem departs_of_round {c o' r' u v : List α} {x y : α}
    (h : replaceFirst (c ++ x :: o') (c ++ y :: r') u = some v) : Departs x y u v := by
  obtain ⟨l, rest, rfl, rfl, -⟩ := cut_of_replaceFirst h
  have hbefore : l ++ (c ++ x :: o') ++ rest = (l ++ c) ++ x :: (o' ++ rest) := by
    simp only [List.append_assoc, List.cons_append]
  have hafter : l ++ (c ++ y :: r') ++ rest = (l ++ c) ++ y :: (r' ++ rest) := by
    simp only [List.append_assoc, List.cons_append]
  rw [hbefore, hafter]
  exact departs_of_append x y (l ++ c) _ _

/-- The loop has replaced an occurrence in front of where the pass goes on, and `r` and `o`
differ at some position. -/
theorem not_ends_of_earlier (hro : ¬ r <+: o) (hor : ¬ o <+: r) {front v rest later : List α}
    (pass : List α) (hv : v ≠ []) (hcut : v ++ o ++ rest = o ++ later) :
    ¬ Ends (replaceFirst o r) (front ++ r ++ later) (front ++ v ++ r ++ pass) := by
  intro h
  obtain ⟨c, x, y, o', r', rfl, rfl, hxy⟩ := exists_first_difference hor hro
  have hkept := h.invariant (Departs x y (front ++ v ++ (c ++ y :: r') ++ pass))
    (departs_of_earlier pass hv hcut) fun u w hu huw => hu.trans hxy (departs_of_round huw)
  exact hkept.ne hxy rfl

omit [DecidableEq α] in
/-- What starts with `o` and a part of it overlaps itself. -/
theorem border_of_earlier {v rest later : List α} (hv : v ≠ []) (hcut : v ++ o ++ rest = o ++ later)
    (hlen : v.length < o.length) :
    ∃ b, b <+: o ∧ b <:+ o ∧ b ≠ o ∧ o = v ++ b := by
  have hvo : v <+: o := by
    apply List.prefix_of_prefix_length_le _ (List.prefix_append o later) hlen.le
    rw [← hcut, List.append_assoc]
    exact List.prefix_append v (o ++ rest)
  obtain ⟨b, rfl⟩ := hvo
  have hpos := List.length_pos_of_ne_nil hv
  refine ⟨b, ?_, List.suffix_append v b, ?_, rfl⟩
  · rw [List.append_assoc, List.append_assoc, List.append_assoc] at hcut
    have htail := List.append_cancel_left hcut
    apply List.prefix_of_prefix_length_le _ (List.prefix_append (v ++ b) rest)
    · simp only [List.length_append]
      omega
    · rw [List.append_assoc, htail]
      exact List.prefix_append b later
  · intro hb
    have hcount := congrArg List.length hb
    rw [List.length_append] at hcount
    omega

/-- `r` is no beginning of `o`, but for `o` itself, or `o` overlaps itself in at most as many
elements as `r` has. -/
def TellsApart (o r : List α) : Prop :=
  (r <+: o → r = o) ∨ ∀ b, b <+: o → b <:+ o → b ≠ o → b.length ≤ r.length

theorem not_ends_of_tellsApart (htells : TellsApart o r) {front v rest later : List α}
    (pass : List α) (hv : v ≠ []) (hcut : v ++ o ++ rest = o ++ later) :
    ¬ Ends (replaceFirst o r) (front ++ r ++ later) (front ++ v ++ r ++ pass) := by
  intro h
  have hfree := not_infix_of_ends h
  have hor : ¬ o <+: r := by
    rintro ⟨z, rfl⟩
    exact hfree ⟨front ++ v, z ++ pass, by simp only [List.append_assoc]⟩
  by_cases hro : r <+: o
  case neg => exact not_ends_of_earlier hro hor pass hv hcut h
  case pos =>
    rcases htells with hproper | hborder
    · exact hor (hproper hro ▸ List.prefix_rfl)
    · -- then the pass has left `o` in the list
      have hlen : o.length ≤ (v ++ r).length := by
        rw [List.length_append]
        by_cases hshort : v.length < o.length
        · obtain ⟨b, hprefix, hsuffix, hne, hob⟩ := border_of_earlier hv hcut hshort
          have hb := hborder b hprefix hsuffix hne
          have hcount := congrArg List.length hob
          rw [List.length_append] at hcount
          omega
        · omega
      have hvr : v ++ r <+: o ++ later := by
        rw [← hcut, List.append_assoc, List.prefix_append_right_inj]
        exact hro.trans (List.prefix_append o rest)
      obtain ⟨z, hz⟩ := List.prefix_of_prefix_length_le (List.prefix_append o later) hvr hlen
      refine hfree ⟨front, z ++ pass, ?_⟩
      rw [List.append_assoc front v r, ← hz]
      simp only [List.append_assoc]

/-- The first occurrence is one that is there or one in front of it. -/
theorem exists_replaceFirst_of_cut (o r p rest : List α) :
    ∃ l v later, p = l ++ v ∧ v ++ o ++ rest = o ++ later ∧
      replaceFirst o r (p ++ o ++ rest) = some (l ++ r ++ later) := by
  obtain ⟨after, hfirst⟩ : ∃ after, replaceFirst o r (p ++ o ++ rest) = some after := by
    rw [← Option.ne_none_iff_exists', Ne, replaceFirst_eq_none_iff, not_not]
    exact List.infix_append p o rest
  obtain ⟨l, later, hcut, rfl, hleast⟩ := cut_of_replaceFirst hfirst
  have hl : l <+: l ++ o ++ later := ⟨o ++ later, by rw [List.append_assoc]⟩
  have hp : p <+: l ++ o ++ later := ⟨o ++ rest, by rw [← hcut, List.append_assoc]⟩
  obtain ⟨v, rfl⟩ := List.prefix_of_prefix_length_le hl hp (hleast p rest rfl)
  refine ⟨l, v, later, rfl, ?_, hfirst⟩
  rw [List.append_assoc l v o, List.append_assoc l, List.append_assoc l,
    List.append_cancel_left_eq] at hcut
  exact hcut

/-- **The converse**, where a shortened `o` cannot be taken for the rest of another one. -/
theorem keepsPace_of_ends (ho : o ≠ []) (htells : TellsApart o r) {front rest : List α}
    (h : Ends (replaceFirst o r) (front ++ rest) (front ++ replaceAll o r rest)) :
    KeepsPace o r front rest := by
  induction hn : rest.length using Nat.strong_induction_on generalizing front rest with
  | _ n ih =>
    rcases findSub_cases rest o with ⟨-, hnot⟩ | ⟨l, rest', hnext, rfl, -⟩
    · have hfree := not_infix_of_ends h
      rw [replaceAll_of_not_occurs r hnot] at hfree
      exact .stop hfree
    · rw [replaceAll_of_findSub r ho hnext] at h
      have hwhole : front ++ (l ++ o ++ rest') = front ++ l ++ o ++ rest' := by
        simp only [List.append_assoc]
      obtain ⟨l', v, later, hv, hcut, hfirst⟩ := exists_replaceFirst_of_cut o r (front ++ l) rest'
      rw [← hwhole] at hfirst
      rw [ends_of_some hfirst] at h
      by_cases hempty : v = []
      · -- the pass and the loop replace the same occurrence
        subst hempty
        rw [List.append_nil] at hv
        obtain rfl : rest' = later := List.append_cancel_left hcut
        rw [← hv] at h hfirst
        apply KeepsPace.next hnext hfirst
        apply ih rest'.length _ _ rfl
        · rw [← hn]
          simp only [List.length_append]
          have := List.length_pos_of_ne_nil ho
          omega
        · simpa only [List.append_assoc] using h
      · have hpass : front ++ (l ++ r ++ replaceAll o r rest') =
            l' ++ v ++ r ++ replaceAll o r rest' := by
          rw [← hv]
          simp only [List.append_assoc]
        rw [hpass] at h
        exact absurd h (not_ends_of_tellsApart htells _ hempty hcut)

end Pensar.Computation.Rewriting
