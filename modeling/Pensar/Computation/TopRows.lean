import Mathlib.Data.List.Forall2
import Mathlib.Data.List.Perm.Basic
import Mathlib.Data.List.Perm.Subperm
import Pensar.Computation.OrderBy

/-!
# The first rows of two results

A query can search two tables and keep the first rows of what it finds in both.  What is first in
both is among what is first in each, so that the two tables can be searched on their own and the
results merged.

Main results: `isTop_append_iff`, `isTop_iff_exists_order`, `isTop_map_iff`.
-/

set_option autoImplicit false

namespace Pensar.Computation

variable {α β : Type} {le : α → α → Prop}

/-! ## An order for every answer -/

/-- The same order, except that these rows come out as `out`. -/
noncomputable def OrderBy.instead (order : OrderBy le) {rows out : List α} (hperm : out.Perm rows)
    (hsorted : out.Pairwise le) : OrderBy le := by
  classical
  exact
    { sort := fun l => if l = rows then out else order.sort l
      perm := fun l => by
        split
        · next h => exact h ▸ hperm
        · exact order.perm l
      sorted := fun l => by
        split
        · exact hsorted
        · exact order.sorted l }

theorem OrderBy.sort_instead (order : OrderBy le) {rows out : List α} (hperm : out.Perm rows)
    (hsorted : out.Pairwise le) : (order.instead hperm hsorted).sort rows = out := by
  simp [OrderBy.instead]

/-- The lists that a query can return are those of the first rows. -/
theorem isTop_iff_exists_order (order : OrderBy le) {limit : Option ℕ} {rows out : List α} :
    IsTop le limit rows out ↔ ∃ order' : OrderBy le, limited limit (order'.sort rows) = out := by
  constructor
  · intro h
    obtain ⟨rest, hperm, hfirst⟩ := h.first
    have hall : (out ++ order.sort rest).Perm rows := ((order.perm rest).append_left out).trans hperm
    have hsorted : (out ++ order.sort rest).Pairwise le :=
      List.pairwise_append.mpr ⟨h.sorted, order.sorted rest, fun a ha b hb =>
        hfirst a ha b ((order.mem_sort rest b).mp hb)⟩
    refine ⟨order.instead hall hsorted, ?_⟩
    rw [OrderBy.sort_instead]
    have hlength := h.length
    cases limit with
    | none =>
      have hrest := hall.length_eq
      rw [List.length_append, hlength] at hrest
      have hnil : order.sort rest = [] := by
        rw [← List.length_eq_zero_iff]
        simpa [limitedLength] using hrest
      rw [hnil, List.append_nil]
      rfl
    | some n =>
      show (out ++ order.sort rest).take n = out
      by_cases hn : n ≤ rows.length
      · rw [show n = out.length from (hlength.trans (min_eq_left hn)).symm, List.take_left]
      · have hout : out.length = rows.length := hlength.trans (min_eq_right (by omega))
        have hrest := hall.length_eq
        rw [List.take_of_length_le (by omega)]
        rw [List.length_append] at hrest
        rw [List.length_eq_zero_iff.mp (show (order.sort rest).length = 0 by omega),
          List.append_nil]
  · rintro ⟨order', rfl⟩
    exact order'.isTop_limited limit rows

/-- Where no rows tie, there is one order. -/
theorem OrderBy.sort_eq {κ : Type} [LinearOrder κ] {key : α → κ} (order : OrderBy (Ascending key))
    {rows out : List α} (hperm : out.Perm rows) (hout : (out.map key).Pairwise (· < ·)) :
    order.sort rows = out := by
  have hsorted : out.Pairwise (Ascending key) := (List.pairwise_map.mp hout).imp le_of_lt
  refine List.Perm.eq_of_pairwise (fun a b ha hb hab hba => ?_) (order.sorted rows) hsorted
    ((order.perm rows).trans hperm.symm)
  have ha' : a ∈ out := hperm.symm.subset ((order.mem_sort rows a).mp ha)
  exact List.inj_on_of_nodup_map (hout.imp ne_of_lt) ha' hb (le_antisymm hab hba)

/-! ## Two results -/

theorem limitedLength_add (limit : Option ℕ) (m n : ℕ) :
    limitedLength limit (limitedLength limit m + limitedLength limit n) =
      limitedLength limit (m + n) := by
  cases limit with
  | none => rfl
  | some k =>
    simp only [limitedLength, Option.elim_some]
    omega

/-- What is first among those two lists comes before all that the whole first list comes before, if
it is not longer. -/
theorem le_of_perm_append [IsTrans α le] {out rest a b : List α} {x y : α}
    (hperm : (out ++ rest).Perm (a ++ b)) (hfirst : ∀ u ∈ out, ∀ v ∈ rest, le u v)
    (hlength : out.length ≤ a.length) (hx : x ∈ out) (ha : ∀ z ∈ a, le z y) : le x y := by
  classical
  by_cases hxa : x ∈ a
  · exact ha x hxa
  · have hleft : ∃ z ∈ a, z ∈ rest := by
      by_contra! hnone
      have hsub : a.Subperm out := by
        refine List.subperm_ext_iff.mpr fun z hz => ?_
        have hcount := hperm.count_eq z
        rw [List.count_append, List.count_append, List.count_eq_zero_of_not_mem (hnone z hz)]
          at hcount
        omega
      exact hxa ((hsub.perm_of_length_le hlength).symm.subset hx)
    obtain ⟨z, hz, hrest⟩ := hleft
    exact IsTrans.trans x z y (hfirst x hx z hrest) (ha z hz)

/-- **Results that are merged.** -/
theorem IsTop.merge [IsTrans α le] {limit : Option ℕ} {A B a b out : List α}
    (ha : IsTop le limit A a) (hb : IsTop le limit B b) (hout : IsTop le limit (a ++ b) out) :
    IsTop le limit (A ++ B) out := by
  obtain ⟨ra, hra, hfirstA⟩ := ha.first
  obtain ⟨rb, hrb, hfirstB⟩ := hb.first
  obtain ⟨rest, hrest, hfirst⟩ := hout.first
  have hlength : out.length = limitedLength limit (A.length + B.length) := by
    rw [hout.length, List.length_append, ha.length, hb.length, limitedLength_add]
  have hlengthA : A.length = a.length + ra.length := by
    rw [← hra.length_eq, List.length_append]
  have hlengthB : B.length = b.length + rb.length := by
    rw [← hrb.length_eq, List.length_append]
  refine ⟨hout.sorted, ⟨rest ++ (ra ++ rb), ?_, ?_⟩, ?_⟩
  · rw [← List.append_assoc]
    calc List.Perm ((out ++ rest) ++ (ra ++ rb)) ((a ++ b) ++ (ra ++ rb)) := hrest.append_right _
      List.Perm _ ((a ++ ra) ++ (b ++ rb)) := by
        rw [List.append_assoc, List.append_assoc, ← List.append_assoc b, ← List.append_assoc ra]
        exact (List.perm_append_comm.append_right rb).append_left a
      List.Perm _ (A ++ B) := hra.append hrb
  · intro x hx y hy
    rcases List.mem_append.mp hy with hy | hy
    · exact hfirst x hx y hy
    · -- something of that table is left out, so that its result is as long as the limit lets through
      rcases List.mem_append.mp hy with hy | hy
      · have hpos := List.length_pos_of_mem hy
        have hle : out.length ≤ a.length := by
          have hlen := ha.length
          cases limit with
          | none => simp [limitedLength] at hlen; omega
          | some k => simp only [limitedLength, Option.elim_some] at hlen hlength; omega
        exact le_of_perm_append hrest hfirst hle hx fun z hz => hfirstA z hz y hy
      · have hpos := List.length_pos_of_mem hy
        have hle : out.length ≤ b.length := by
          have hlen := hb.length
          cases limit with
          | none => simp [limitedLength] at hlen; omega
          | some k => simp only [limitedLength, Option.elim_some] at hlen hlength; omega
        exact le_of_perm_append (hrest.trans List.perm_append_comm) hfirst hle hx
          fun z hz => hfirstB z hz y hy
  · rw [hlength, List.length_append]

/-- Rows that are taken from two tables, table by table. -/
theorem exists_parts {p q A B : List α} (h : (p ++ q).Perm (A ++ B)) :
    ∃ pa pb qa qb, p.Perm (pa ++ pb) ∧ q.Perm (qa ++ qb) ∧ A.Perm (pa ++ qa) ∧
      B.Perm (pb ++ qb) := by
  induction p generalizing A B with
  | nil => exact ⟨[], [], A, B, List.Perm.nil, h, List.Perm.refl A, List.Perm.refl B⟩
  | cons x p ih =>
    rcases List.mem_append.mp (h.subset List.mem_cons_self) with hx | hx
    · obtain ⟨before, after, rfl⟩ := List.append_of_mem hx
      have hrest : (p ++ q).Perm ((before ++ after) ++ B) := by
        refine (h.trans ?_).cons_inv
        exact (List.perm_middle.append_right B)
      obtain ⟨pa, pb, qa, qb, hp, hq, hA, hB⟩ := ih hrest
      exact ⟨x :: pa, pb, qa, qb, hp.cons x, hq, List.perm_middle.trans (hA.cons x), hB⟩
    · obtain ⟨before, after, rfl⟩ := List.append_of_mem hx
      have hrest : (p ++ q).Perm (A ++ (before ++ after)) := by
        refine (h.trans ?_).cons_inv
        exact (List.perm_middle.append_left A).trans List.perm_middle
      obtain ⟨pa, pb, qa, qb, hp, hq, hA, hB⟩ := ih hrest
      exact ⟨pa, x :: pb, qa, qb, (hp.cons x).trans List.perm_middle.symm, hq, hA,
        List.perm_middle.trans (hB.cons x)⟩

/-- What a table adds to the first rows, filled up to the limit. -/
theorem isTop_filled (order : OrderBy le) {limit : Option ℕ} {A p q : List α}
    (hA : A.Perm (p ++ q)) (hfirst : ∀ u ∈ p, ∀ v ∈ q, le u v)
    (hlength : p.length ≤ limitedLength limit A.length) :
    IsTop le limit A
      (order.sort p ++ (order.sort q).take (limitedLength limit A.length - p.length)) := by
  obtain ⟨n, hn⟩ : ∃ n, n = limitedLength limit A.length - p.length := ⟨_, rfl⟩
  rw [← hn]
  have hsplit := List.take_append_drop n (order.sort q)
  have hsorted := order.sorted q
  rw [← hsplit] at hsorted
  obtain ⟨htake, -, hacross⟩ := List.pairwise_append.mp hsorted
  have hp := order.perm p
  have hq := order.perm q
  refine ⟨?_, ⟨(order.sort q).drop n, ?_, ?_⟩, ?_⟩
  · refine List.pairwise_append.mpr ⟨order.sorted p, htake, fun u hu v hv => ?_⟩
    exact hfirst u (hp.subset hu) v (hq.subset (List.mem_of_mem_take hv))
  · rw [List.append_assoc, hsplit]
    exact (hp.append hq).trans hA.symm
  · intro u hu v hv
    rcases List.mem_append.mp hu with hu | hu
    · exact hfirst u (hp.subset hu) v (hq.subset (List.mem_of_mem_drop hv))
    · exact hacross u hu v hv
  · have hle : limitedLength limit A.length ≤ A.length := by
      cases limit with
      | none => exact le_rfl
      | some k => exact min_le_right k _
    have hlengthA := hA.length_eq
    rw [List.length_append] at hlengthA
    rw [List.length_append, List.length_take, hp.length_eq, hq.length_eq]
    omega

/-- **Results that are taken apart.** -/
theorem IsTop.split (order : OrderBy le) {limit : Option ℕ} {A B out : List α}
    (h : IsTop le limit (A ++ B) out) :
    ∃ a b, IsTop le limit A a ∧ IsTop le limit B b ∧ IsTop le limit (a ++ b) out := by
  obtain ⟨rest, hrest, hfirst⟩ := h.first
  obtain ⟨pa, pb, qa, qb, hout, hq, hA, hB⟩ := exists_parts hrest
  have hlengthOut := h.length
  have hsum := hout.length_eq
  have hlengthA := hA.length_eq
  have hlengthB := hB.length_eq
  simp only [List.length_append] at hlengthOut hsum hlengthA hlengthB
  have hboundA : pa.length ≤ limitedLength limit A.length := by
    cases limit with
    | none => simp only [limitedLength, Option.elim_none]; omega
    | some k => simp only [limitedLength, Option.elim_some] at hlengthOut ⊢; omega
  have hboundB : pb.length ≤ limitedLength limit B.length := by
    cases limit with
    | none => simp only [limitedLength, Option.elim_none]; omega
    | some k => simp only [limitedLength, Option.elim_some] at hlengthOut ⊢; omega
  have hmemOut : ∀ u, u ∈ pa ∨ u ∈ pb → u ∈ out := fun u hu =>
    hout.symm.subset (List.mem_append.mpr hu)
  have hmemRest : ∀ v, v ∈ qa ∨ v ∈ qb → v ∈ rest := fun v hv =>
    hq.symm.subset (List.mem_append.mpr hv)
  have ha := isTop_filled order hA
    (fun u hu v hv => hfirst u (hmemOut u (Or.inl hu)) v (hmemRest v (Or.inl hv))) hboundA
  have hb := isTop_filled order hB
    (fun u hu v hv => hfirst u (hmemOut u (Or.inr hu)) v (hmemRest v (Or.inr hv))) hboundB
  refine ⟨_, _, ha, hb, h.sorted,
    ⟨(order.sort qa).take (limitedLength limit A.length - pa.length) ++
      (order.sort qb).take (limitedLength limit B.length - pb.length), ?_, ?_⟩, ?_⟩
  · refine (hout.append_right _).trans ?_
    refine List.Perm.trans ?_ (((order.perm pa).symm.append_right _).append
      ((order.perm pb).symm.append_right _))
    rw [List.append_assoc, List.append_assoc, ← List.append_assoc pb, ← List.append_assoc _ pb]
    exact (List.perm_append_comm.append_right _).append_left pa
  · intro u hu v hv
    refine hfirst u hu v (hmemRest v ?_)
    rcases List.mem_append.mp hv with hv | hv
    · exact Or.inl ((order.mem_sort qa v).mp (List.mem_of_mem_take hv))
    · exact Or.inr ((order.mem_sort qb v).mp (List.mem_of_mem_take hv))
  · rw [hlengthOut, List.length_append, ha.length, hb.length, limitedLength_add]

/-- **A search of two tables** returns what the searches of each return, merged. -/
theorem isTop_append_iff [IsTrans α le] (order : OrderBy le) {limit : Option ℕ}
    {A B out : List α} :
    IsTop le limit (A ++ B) out ↔
      ∃ a b, IsTop le limit A a ∧ IsTop le limit B b ∧ IsTop le limit (a ++ b) out :=
  ⟨IsTop.split order, fun ⟨_, _, ha, hb, hout⟩ => ha.merge hb hout⟩

/-! ## Results that are read in another form -/

theorem exists_perm_map {f : α → β} {l : List β} {rows : List α} (h : l.Perm (rows.map f)) :
    ∃ rows' : List α, rows'.Perm rows ∧ rows'.map f = l := by
  have hforall : List.Forall₂ (fun b a => b = f a) (rows.map f) rows := by
    rw [List.forall₂_map_left_iff, List.forall₂_same]
    exact fun _ _ => rfl
  obtain ⟨rows', hrows', hperm⟩ := List.perm_comp_forall₂ h hforall
  refine ⟨rows', hperm, ?_⟩
  rw [← List.forall₂_eq_eq_eq, List.forall₂_map_left_iff]
  exact hrows'.flip.imp fun _ _ h => h.symm

/-- **Rows that are ordered by what they are read as.** -/
theorem isTop_map_iff {le : β → β → Prop} {f : α → β} {limit : Option ℕ} {rows : List α}
    {out : List β} :
    IsTop le limit (rows.map f) out ↔
      ∃ out', IsTop (fun a b => le (f a) (f b)) limit rows out' ∧ out'.map f = out := by
  constructor
  · intro h
    obtain ⟨rest, hperm, hfirst⟩ := h.first
    obtain ⟨rows', hrows', hmap⟩ := exists_perm_map hperm
    obtain ⟨out', rest', rfl, rfl, rfl⟩ := List.map_eq_append_iff.mp hmap
    refine ⟨out', ⟨List.pairwise_map.mp h.sorted, ⟨rest', hrows', fun a ha b hb => ?_⟩, ?_⟩, rfl⟩
    · exact hfirst _ (List.mem_map_of_mem ha) _ (List.mem_map_of_mem hb)
    · simpa using h.length
  · rintro ⟨out', h, rfl⟩
    obtain ⟨rest, hperm, hfirst⟩ := h.first
    refine ⟨List.pairwise_map.mpr h.sorted, ⟨rest.map f, ?_, ?_⟩, ?_⟩
    · rw [← List.map_append]
      exact hperm.map f
    · intro x hx y hy
      obtain ⟨a, ha, rfl⟩ := List.mem_map.mp hx
      obtain ⟨b, hb, rfl⟩ := List.mem_map.mp hy
      exact hfirst a ha b hb
    · simpa using h.length

end Pensar.Computation
