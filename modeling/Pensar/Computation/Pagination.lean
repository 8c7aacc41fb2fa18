import Mathlib.Data.List.Count
import Mathlib.Data.List.Flatten
import Mathlib.Data.List.Perm.Basic
import Pensar.Computation.KeyedRows
import Pensar.Computation.TopRows

/-!
# Pages of an ordered query

A long result is read page by page, each page by a query of its own that orders all rows, skips
those of the pages before and takes as many as fit on a page.  Rows that tie can come in another
order in every query.

Main results: `listing_perm_iff` says for which rows the pages are complete, however the ties are
broken; `listing_perm_forall_iff` says it for all sizes of a page.
-/

set_option autoImplicit false

namespace Pensar.Computation

variable {α κ : Type}

/-- The rows of a page; the pages are counted from 0. -/
def page {le : α → α → Prop} (order : OrderBy le) (size number : ℕ) (rows : List α) : List α :=
  ((order.sort rows).drop (number * size)).take size

/-- All pages, each with the order of its own query. -/
def listing {le : α → α → Prop} (orders : ℕ → OrderBy le) (size : ℕ) (rows : List α) : List α :=
  (List.range (rows.length / size + 1)).flatMap fun number => page (orders number) size number rows

/-! ## Positions in a sorted list -/

/-- Where a property holds of a front part of a list. -/
theorem getElem_iff_lt_countP {P : α → Prop} [DecidablePred P] {l : List α}
    (h : l.Pairwise fun a b => P b → P a) {i : ℕ} (hi : i < l.length) :
    P l[i] ↔ i < l.countP fun a => P a := by
  induction l generalizing i with
  | nil => cases hi
  | cons a l ih =>
    obtain ⟨hall, hrest⟩ := List.pairwise_cons.mp h
    by_cases ha : P a
    · rw [List.countP_cons_of_pos (by simpa using ha)]
      cases i with
      | zero => simpa using ha
      | succ i =>
        rw [List.getElem_cons_succ, ih hrest (by simpa using hi)]
        omega
    · have hnone : l.countP (fun a => decide (P a)) = 0 := by
        rw [List.countP_eq_zero]
        intro b hb hPb
        exact ha (hall b hb (of_decide_eq_true hPb))
      rw [List.countP_cons_of_neg (by simpa using ha), hnone]
      constructor
      · intro hP
        cases i with
        | zero => exact absurd hP ha
        | succ i => exact absurd (hall _ (List.getElem_mem _) hP) ha
      · intro hlt
        omega

/-- Rows that are numbered by pages. -/
theorem filter_eq_slice {g : α → ℕ} {size : ℕ} (hsize : 0 < size) {l : List α}
    (h : ∀ i (hi : i < l.length), g l[i] = i / size) (number : ℕ) :
    l.filter (fun a => g a = number) = (l.drop (number * size)).take size := by
  have hsplit : l = l.take (number * size) ++
      ((l.drop (number * size)).take size ++ (l.drop (number * size)).drop size) := by
    rw [List.take_append_drop, List.take_append_drop]
  have hbefore : (l.take (number * size)).filter (fun a => g a = number) = [] := by
    rw [List.filter_eq_nil_iff]
    intro a ha
    obtain ⟨i, hi, rfl⟩ := List.getElem_of_mem ha
    rw [List.length_take] at hi
    rw [List.getElem_take, h i (by omega)]
    have hlt : i / size < number := Nat.div_lt_of_lt_mul (by rw [Nat.mul_comm]; omega)
    simpa using hlt.ne
  have hon : ((l.drop (number * size)).take size).filter (fun a => g a = number) =
      (l.drop (number * size)).take size := by
    rw [List.filter_eq_self]
    intro a ha
    obtain ⟨i, hi, rfl⟩ := List.getElem_of_mem ha
    rw [List.length_take, List.length_drop] at hi
    rw [List.getElem_take, List.getElem_drop, h _ (by omega)]
    have hdiv : (number * size + i) / size = number := by
      rw [Nat.mul_comm, Nat.mul_add_div hsize, Nat.div_eq_of_lt (by omega), Nat.add_zero]
    exact decide_eq_true hdiv
  have hafter : ((l.drop (number * size)).drop size).filter (fun a => g a = number) = [] := by
    rw [List.filter_eq_nil_iff]
    intro a ha
    obtain ⟨i, hi, rfl⟩ := List.getElem_of_mem ha
    rw [List.length_drop, List.length_drop] at hi
    rw [List.getElem_drop, List.getElem_drop, h _ (by omega)]
    have hge : number + 1 ≤ (number * size + (size + i)) / size := by
      rw [Nat.le_div_iff_mul_le hsize, Nat.add_mul]
      omega
    simpa using (by omega : (number * size + (size + i)) / size ≠ number)
  conv_lhs => rw [hsplit]
  rw [List.filter_append, List.filter_append, hbefore, hon, hafter, List.nil_append,
    List.append_nil]

theorem flatMap_filter_perm_filter (g : α → ℕ) (m : ℕ) (l : List α) :
    ((List.range m).flatMap fun number => l.filter fun a => g a = number).Perm
      (l.filter fun a => g a < m) := by
  induction m with
  | zero => simp
  | succ m ih =>
    rw [List.range_succ, List.flatMap_append, List.flatMap_singleton]
    have hsplit := List.filter_append_perm (fun a => decide (g a < m)) (l.filter fun a => g a < m + 1)
    rw [List.filter_filter, List.filter_filter] at hsplit
    have hbelow : (l.filter fun a => decide (g a < m) && decide (g a < m + 1)) =
        l.filter fun a => g a < m := by
      refine List.filter_congr fun a _ => ?_
      rw [← Bool.decide_and, decide_eq_decide]
      omega
    have hlast : (l.filter fun a => (!decide (g a < m)) && decide (g a < m + 1)) =
        l.filter fun a => g a = m := by
      refine List.filter_congr fun a _ => ?_
      rw [← decide_not, ← Bool.decide_and, decide_eq_decide]
      omega
    rw [hbelow, hlast] at hsplit
    exact (ih.append_right _).trans hsplit

/-- The rows of all numbers are all rows. -/
theorem flatMap_filter_perm (g : α → ℕ) {m : ℕ} {l : List α} (h : ∀ a ∈ l, g a < m) :
    ((List.range m).flatMap fun number => l.filter fun a => g a = number).Perm l := by
  have hall : (l.filter fun a => g a < m) = l :=
    List.filter_eq_self.mpr fun a ha => decide_eq_true (h a ha)
  exact (flatMap_filter_perm_filter g m l).trans (List.Perm.of_eq hall)

/-! ## Ties -/

section Ties

variable [LinearOrder κ] (key : α → κ)

/-- How many rows come before all that have that key. -/
def below (rows : List α) (c : κ) : ℕ := rows.countP fun a => key a < c

/-- How many rows come before all that have a greater key. -/
def upTo (rows : List α) (c : κ) : ℕ := rows.countP fun a => key a ≤ c

/-- The rows that tie with that one are on one page. -/
def OnOnePage (size : ℕ) (rows : List α) (a : α) : Prop :=
  below key rows (key a) / size = (upTo key rows (key a) - 1) / size

variable {key} (order : OrderBy (Ascending key)) {rows : List α}

theorem key_lt_iff {i : ℕ} (hi : i < (order.sort rows).length) (c : κ) :
    key (order.sort rows)[i] < c ↔ i < below key rows c := by
  rw [below, ← (order.perm rows).countP_eq]
  exact getElem_iff_lt_countP (P := fun a => key a < c)
    ((order.sorted rows).imp fun hab hb => hab.trans_lt hb) hi

theorem key_le_iff {i : ℕ} (hi : i < (order.sort rows).length) (c : κ) :
    key (order.sort rows)[i] ≤ c ↔ i < upTo key rows c := by
  rw [upTo, ← (order.perm rows).countP_eq]
  exact getElem_iff_lt_countP (P := fun a => key a ≤ c)
    ((order.sorted rows).imp fun hab hb => hab.trans hb) hi

/-- The positions of the rows with a key. -/
theorem key_eq_iff {i : ℕ} (hi : i < (order.sort rows).length) (c : κ) :
    key (order.sort rows)[i] = c ↔ below key rows c ≤ i ∧ i < upTo key rows c := by
  rw [← key_le_iff order hi, ← not_lt, ← key_lt_iff order hi, not_lt, and_comm, ← le_antisymm_iff]

/-- **A page is the same in every order**, up to the order on it, if ties do not reach beyond a
page. -/
theorem page_eq_filter {size : ℕ} (hsize : 0 < size) (h : ∀ a ∈ rows, OnOnePage key size rows a)
    (number : ℕ) :
    page order size number rows =
      (order.sort rows).filter fun a => below key rows (key a) / size = number := by
  symm
  refine filter_eq_slice hsize (fun i hi => ?_) number
  obtain ⟨hbelow, hupTo⟩ := (key_eq_iff order hi _).mp rfl
  have hpage := h _ ((order.mem_sort rows _).mp (List.getElem_mem hi))
  refine le_antisymm (Nat.div_le_div_right hbelow) ?_
  rw [hpage]
  exact Nat.div_le_div_right (by omega)

theorem listing_perm {size : ℕ} (hsize : 0 < size) (h : ∀ a ∈ rows, OnOnePage key size rows a)
    (orders : ℕ → OrderBy (Ascending key)) : (listing orders size rows).Perm rows := by
  have hpages : (listing orders size rows).Perm
      ((List.range (rows.length / size + 1)).flatMap fun number =>
        rows.filter fun a => below key rows (key a) / size = number) := by
    refine List.Perm.flatMap_left _ fun number _ => ?_
    rw [page_eq_filter (orders number) hsize h]
    exact ((orders number).perm rows).filter _
  refine hpages.trans (flatMap_filter_perm _ fun a _ => ?_)
  have hle : below key rows (key a) ≤ rows.length := List.countP_le_length
  exact Nat.lt_succ_of_le (Nat.div_le_div_right hle)

/-- Two neighbours that tie can be exchanged. -/
theorem pairwise_exchange {before after : List α} {x y : α} (htie : key x = key y)
    (h : (before ++ x :: y :: after).Pairwise (Ascending key)) :
    (before ++ y :: x :: after).Pairwise (Ascending key) := by
  simp only [List.pairwise_append, List.pairwise_cons, List.mem_cons, forall_eq_or_imp] at h ⊢
  obtain ⟨hbefore, ⟨⟨-, hx⟩, hy, hafter⟩, hacross⟩ := h
  refine ⟨hbefore, ⟨⟨htie.ge, hy⟩, hx, hafter⟩, fun a ha => ?_⟩
  obtain ⟨hax, hay, hrest⟩ := hacross a ha
  exact ⟨hay, hax, hrest⟩

/-- A row that is in front on the pages up to one, and behind on the pages after it. -/
theorem not_mem_listing {size : ℕ} (number : ℕ) {before after : List α} {x y : α}
    (first later : OrderBy (Ascending key)) (hfirst : first.sort rows = before ++ x :: y :: after)
    (hlater : later.sort rows = before ++ y :: x :: after)
    (hlength : before.length + 1 = (number + 1) * size) (hrows : rows.Nodup) :
    y ∉ listing (fun n => if n ≤ number then first else later) size rows := by
  have hnodup : (before ++ x :: y :: after).Nodup :=
    hfirst ▸ (first.perm rows).nodup_iff.mpr hrows
  have hone : y ∉ before ++ x :: after := by
    have hmove : (before ++ x :: y :: after).Perm (y :: (before ++ x :: after)) := by
      rw [show before ++ x :: y :: after = (before ++ [x]) ++ y :: after by simp]
      refine List.perm_middle.trans ?_
      rw [List.append_assoc, List.singleton_append]
    exact (List.nodup_cons.mp (hmove.nodup_iff.mp hnodup)).1
  intro hmem
  obtain ⟨n, -, hpage⟩ := List.mem_flatMap.mp hmem
  by_cases hn : n ≤ number
  · simp only [hn, if_true, page, hfirst] at hpage
    have hle : n * size + size ≤ before.length + 1 := by
      rw [hlength, ← Nat.succ_mul]
      exact Nat.mul_le_mul_right size (Nat.succ_le_succ hn)
    have hprefix : y ∈ (before ++ x :: y :: after).take (before.length + 1) := by
      obtain ⟨i, hi, hy⟩ := List.getElem_of_mem hpage
      have hbound := hi
      rw [List.length_take, List.length_drop] at hbound
      rw [List.getElem_take, List.getElem_drop] at hy
      refine List.mem_take_iff_getElem.mpr ⟨n * size + i, ?_, hy⟩
      rw [lt_inf_iff]
      constructor <;> omega
    rw [List.take_length_add_append] at hprefix
    rcases List.mem_append.mp hprefix with hy | hy
    · exact hone (List.mem_append_left _ hy)
    · obtain rfl := List.mem_singleton.mp hy
      exact hone (List.mem_append_right _ List.mem_cons_self)
  · simp only [hn, if_false, page, hlater] at hpage
    have hge : before.length + 1 ≤ n * size := by
      rw [hlength]
      exact Nat.mul_le_mul_right size (by omega)
    have hsuffix : y ∈ (before ++ y :: x :: after).drop (before.length + 1) := by
      refine List.mem_of_mem_drop (i := n * size - (before.length + 1)) ?_
      rw [List.drop_drop, Nat.add_sub_cancel' hge]
      exact List.mem_of_mem_take hpage
    rw [List.drop_length_add_append] at hsuffix
    exact hone (List.mem_append_right _ hsuffix)

/-- **A tie across two pages** can hide a row: one query has it after another row, on the page that
follows, and the next query has it before that row. -/
theorem exists_missing {size : ℕ} (hsize : 0 < size) (hrows : rows.Nodup) {a : α} (ha : a ∈ rows)
    (h : ¬ OnOnePage key size rows a) :
    ∃ (orders : ℕ → OrderBy (Ascending key)) (b : α), b ∈ rows ∧ b ∉ listing orders size rows := by
  have order := OrderBy.ascending key
  obtain ⟨number, hn⟩ : ∃ n, n = below key rows (key a) / size := ⟨_, rfl⟩
  obtain ⟨i, hi, hia⟩ := List.getElem_of_mem ((order.mem_sort rows a).mpr ha)
  obtain ⟨hbelow, hupTo⟩ := (key_eq_iff order hi (key a)).mp (congrArg key hia)
  -- the first row of the next page ties with `a`, as does the row before it
  have hnumber : number < (upTo key rows (key a) - 1) / size :=
    hn ▸ lt_of_le_of_ne (Nat.div_le_div_right (by omega)) h
  have hnext : (number + 1) * size ≤ upTo key rows (key a) - 1 :=
    (Nat.le_div_iff_mul_le hsize).mp hnumber
  have hlast : below key rows (key a) < (number + 1) * size := by
    rw [Nat.mul_comm, hn]
    exact Nat.lt_mul_div_succ _ hsize
  have hlength : upTo key rows (key a) ≤ (order.sort rows).length := by
    rw [(order.perm rows).length_eq]
    exact List.countP_le_length
  obtain ⟨q, hq⟩ : ∃ q, (number + 1) * size = q + 1 := ⟨(number + 1) * size - 1, by omega⟩
  rw [hq] at hnext hlast
  have hq₁ : q + 1 < (order.sort rows).length := by omega
  have hq₀ : q < (order.sort rows).length := by omega
  have hx : key (order.sort rows)[q] = key a :=
    (key_eq_iff order hq₀ _).mpr ⟨by omega, by omega⟩
  have hy : key (order.sort rows)[q + 1] = key a :=
    (key_eq_iff order hq₁ _).mpr ⟨hlast.le, by omega⟩
  have hsplit : order.sort rows = (order.sort rows).take q ++
      (order.sort rows)[q] :: (order.sort rows)[q + 1] :: (order.sort rows).drop (q + 2) := by
    rw [← List.drop_eq_getElem_cons (by omega), ← List.drop_eq_getElem_cons (by omega),
      List.take_append_drop]
  have hsorted := order.sorted rows
  have hperm := order.perm rows
  rw [hsplit] at hsorted hperm
  have hout := pairwise_exchange (hx.trans hy.symm) hsorted
  have hswap := ((List.Perm.swap _ _ _).append_left _).trans hperm
  refine ⟨_, _, (order.mem_sort rows _).mp (List.getElem_mem hq₁),
    not_mem_listing number order (order.instead hswap hout) hsplit
      (order.sort_instead hswap hout) ?_ hrows⟩
  rw [List.length_take]
  omega

/-- **When the pages are complete**, however ties are broken: if no ties reach beyond a page. -/
theorem listing_perm_iff {size : ℕ} (hsize : 0 < size) (hrows : rows.Nodup) :
    (∀ orders : ℕ → OrderBy (Ascending key), (listing orders size rows).Perm rows) ↔
      ∀ a ∈ rows, OnOnePage key size rows a := by
  constructor
  · intro hperm a ha
    by_contra h
    obtain ⟨orders, b, hb, hmissing⟩ := exists_missing hsize hrows ha h
    exact hmissing ((hperm orders).symm.subset hb)
  · exact fun h => listing_perm hsize h

theorem upTo_eq (rows : List α) (c : κ) :
    upTo key rows c = below key rows c + (rows.filter fun a => key a = c).length := by
  unfold upTo below
  rw [← List.countP_eq_length_filter]
  induction rows with
  | nil => rfl
  | cons a rows ih =>
    simp only [List.countP_cons, decide_eq_true_eq]
    rcases lt_trichotomy (key a) c with hlt | heq | hgt
    · simp only [hlt, hlt.le, hlt.ne, if_true, if_false]
      omega
    · simp only [heq, le_refl, lt_irrefl, if_true, if_false]
      omega
    · simp only [hgt.not_ge, hgt.not_gt, hgt.ne', if_false]
      omega

/-- **When the pages are complete for every size**: if no rows tie. -/
theorem listing_perm_forall_iff (hrows : rows.Nodup) :
    (∀ size, 0 < size → ∀ orders : ℕ → OrderBy (Ascending key),
      (listing orders size rows).Perm rows) ↔ (rows.map key).Nodup := by
  constructor
  · intro h
    have hpage := (listing_perm_iff Nat.one_pos hrows).mp (h 1 Nat.one_pos)
    refine List.Nodup.map_on (fun a ha b hb hab => ?_) hrows
    by_contra hne
    have hone := hpage a ha
    unfold OnOnePage at hone
    rw [Nat.div_one, Nat.div_one, upTo_eq] at hone
    have hpair : [a, b].Subperm (rows.filter fun x => key x = key a) := by
      refine List.subperm_of_subset (by simpa using hne) fun x hx => ?_
      rcases List.mem_pair.mp hx with rfl | rfl
      · exact List.mem_filter.mpr ⟨ha, decide_eq_true rfl⟩
      · exact List.mem_filter.mpr ⟨hb, decide_eq_true hab.symm⟩
    have htwo := hpair.length_le
    simp only [List.length_cons, List.length_nil] at htwo
    omega
  · intro hkeys size hsize
    refine (listing_perm_iff hsize hrows).mpr fun a ha => ?_
    have hle : (rows.filter fun x => key x = key a).length ≤ 1 :=
      length_filter_le_one hkeys _ fun x hx => of_decide_eq_true hx
    have hpos : 0 < (rows.filter fun x => key x = key a).length :=
      List.length_pos_of_mem (List.mem_filter.mpr ⟨ha, decide_eq_true rfl⟩)
    unfold OnOnePage
    rw [upTo_eq]
    congr 1
    omega

end Ties

end Pensar.Computation
