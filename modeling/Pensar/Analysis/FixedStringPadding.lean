import Mathlib.Data.List.Forall2
import Pensar.Analysis.FixedStringTermination

/-!
# What is behind the NUL of a fixed string

`Represents v s` says that `v` is the array with `s` and then NULs.  That is the same as
saying that everything behind the first NUL is NUL and `to_string ()` is `s`
(`represents_iff`), so for such values equality of the bytes is equality of the strings.

`copy` over any value gives the string it is given, and `+=` the concatenation.  A value
that is assigned to itself is the exception: `copy` fills the array with NULs before it
copies from it.

Main result: `padded_along_iff`.
-/

set_option autoImplicit false

namespace Pensar.Analysis

open Pensar.Computation
open Pensar.Model
open Pensar.Interface

/-! ## Lists side by side -/

section Forall₂

variable {α β : Type} {R : α → β → Prop} {l : List α} {l' : List β}

theorem forall₂_getElem? (h : List.Forall₂ R l l') (i : ℕ) :
    (l[i]? = none ∧ l'[i]? = none) ∨ ∃ a b, l[i]? = some a ∧ l'[i]? = some b ∧ R a b := by
  induction h generalizing i with
  | nil => exact Or.inl ⟨rfl, rfl⟩
  | @cons a b l l' hab _ ih =>
    cases i with
    | zero => exact Or.inr ⟨a, b, rfl, rfl, hab⟩
    | succ i => exact ih i

theorem forall₂_concat_iff (h : List.Forall₂ R l l') (a : α) (b : β) :
    List.Forall₂ R (l ++ [a]) (l' ++ [b]) ↔ R a b := by
  induction h with
  | nil => simp
  | cons hab _ ih => simpa [hab] using ih

theorem forall₂_set_iff (h : List.Forall₂ R l l') {i : ℕ} (hi : i < l.length) (a : α) (b : β) :
    List.Forall₂ R (l.set i a) (l'.set i b) ↔ R a b := by
  induction h generalizing i with
  | nil => simp at hi
  | cons hab hrest ih =>
    cases i with
    | zero => simp [hrest]
    | succ i => simpa [hab] using ih (by simpa using hi)

end Forall₂

variable {MIN MAX : ℕ} {cs as : Bool}

/-! ## Padding -/

/-- Everything behind a NUL is NUL. -/
def Padded (v : CS MIN MAX cs as) : Prop :=
  ∀ i j : ℕ, i ≤ j → j < MAX → v.data[i]? = some NULL_CHAR → v.data[j]? = some NULL_CHAR

/-- The array holds `s` and then NULs. -/
def Represents (v : CS MIN MAX cs as) (s : S) : Prop :=
  NULL_CHAR ∉ s ∧ ∃ h : s.length < MAX, v = CS.ofS s h

theorem ofS_represents {s : S} (hs : NULL_CHAR ∉ s) (h : s.length < MAX) :
    Represents (CS.ofS s h : CS MIN MAX cs as) s := ⟨hs, h, rfl⟩

theorem represents_of_data {v : CS MIN MAX cs as} {s : S} (hs : NULL_CHAR ∉ s)
    (h : s.length < MAX) (hdata : v.data = s ++ List.replicate (MAX - s.length) NULL_CHAR) :
    Represents v s := ⟨hs, h, CS.ext hdata⟩

theorem Represents.data {v : CS MIN MAX cs as} {s : S} (h : Represents v s) :
    v.data = s ++ List.replicate (MAX - s.length) NULL_CHAR := by
  obtain ⟨-, h, rfl⟩ := h
  rfl

theorem Represents.toString {v : CS MIN MAX cs as} {s : S} (h : Represents v s) :
    v.toString? = some s := by
  obtain ⟨hs, h, rfl⟩ := h
  exact CS.toString_ofS s h hs

theorem Represents.length {v : CS MIN MAX cs as} {s : S} (h : Represents v s) :
    v.length? = some s.length := by
  rw [CS.length?, h.toString, Option.map_some]

theorem Represents.padded {v : CS MIN MAX cs as} {s : S} (h : Represents v s) : Padded v := by
  intro i j hij hj hi
  have hbehind : s.length ≤ i := by
    by_contra hlt
    rw [h.data, List.getElem?_append_left (by omega)] at hi
    exact h.1 (List.mem_of_getElem? hi)
  rw [h.data, List.getElem?_append_right (by omega), List.getElem?_replicate, if_pos (by omega)]

/-- Padding and the string together are the array. -/
theorem represents_iff (v : CS MIN MAX cs as) (s : S) :
    Represents v s ↔ Padded v ∧ v.toString? = some s := by
  constructor
  · intro h
    exact ⟨h.padded, h.toString⟩
  · rintro ⟨hpadded, hstring⟩
    unfold CS.toString? at hstring
    split at hstring
    case isFalse => cases hstring
    case isTrue hmem =>
      cases hstring
      obtain ⟨n, hn, hlength⟩ := length_of_mem hmem
      have hsplit := List.takeWhile_append_dropWhile (p := (· != NULL_CHAR)) (l := v.data)
      generalize hs : v.data.takeWhile (· != NULL_CHAR) = s at hsplit
      generalize hrest : v.data.dropWhile (· != NULL_CHAR) = rest at hsplit
      have hlen := congrArg List.length hsplit
      rw [List.length_append, v.size_eq] at hlen
      have hfree : NULL_CHAR ∉ s := by
        intro h
        rw [← hs] at h
        exact absurd (List.mem_takeWhile_imp h) (by simp)
      -- the rest begins with NUL, and then it is all NUL
      have hne : rest ≠ [] := by
        rintro rfl
        rw [List.append_nil] at hsplit
        exact hfree (hsplit ▸ hmem)
      have hhead : rest[0]? = some NULL_CHAR := by
        have hstop := List.head?_dropWhile_not (· != NULL_CHAR) v.data
        rw [hrest, ← List.head?_eq_getElem?] at *
        cases hh : rest.head? with
        | none => exact absurd (List.head?_eq_none_iff.mp hh) hne
        | some c =>
          rw [hh] at hstop
          simpa using hstop
      have hfirst : v.data[s.length]? = some NULL_CHAR := by
        rw [← hsplit, List.getElem?_append_right (Nat.le_refl _), Nat.sub_self, hhead]
      have hall : rest = List.replicate (MAX - s.length) NULL_CHAR := by
        rw [List.eq_replicate_iff]
        refine ⟨by omega, ?_⟩
        intro c hc
        obtain ⟨k, hk, rfl⟩ := List.getElem_of_mem hc
        have hlater := hpadded s.length (s.length + k) (by omega) (by omega) hfirst
        rw [← hsplit, List.getElem?_append_right (by omega), Nat.add_sub_cancel_left,
          List.getElem?_eq_getElem hk] at hlater
        exact Option.some.inj hlater
      have hpos := List.length_pos_iff.mpr hne
      exact represents_of_data hfree (by omega) (by rw [← hall, hsplit])

/-- For padded strings equality of the bytes is equality of the strings. -/
theorem data_eq_iff {v w : CS MIN MAX cs as} {s t : S} (hv : Represents v s)
    (hw : Represents w t) : v.data = w.data ↔ v.toString? = w.toString? := by
  constructor
  · intro h
    rw [CS.ext h]
  · intro h
    rw [hv.toString, hw.toString, Option.some.injEq] at h
    rw [hv.data, hw.data, h]

/-! ## The operations -/

theorem new_represents (h : 0 < MAX) : Represents (CS.new : CS MIN MAX cs as) [] :=
  ⟨List.not_mem_nil, h, rfl⟩

theorem copy_admissible (v : CS MIN MAX cs as) {s : S} (h : Admissible MIN MAX s) :
    v.copy s = .ok (CS.ofS s h.2) := CS.copy_eq_ofS v s h.2 h.1

theorem copy_inadmissible (v : CS MIN MAX cs as) {s : S} (h : ¬ Admissible MIN MAX s)
    (addNullAtEnd fillNullBeforeCopy : Bool) :
    ∃ message, v.copy s addNullAtEnd fillNullBeforeCopy = .error message := by
  unfold CS.copy
  by_cases hmax : s.length ≥ MAX
  · exact ⟨_, dif_pos hmax⟩
  · have hmin : s.length < MIN := by
      by_contra hmin
      exact h ⟨by omega, by omega⟩
    rw [dif_neg hmax, if_pos hmin]
    exact ⟨_, rfl⟩

/-- The array from position `k` on is NUL exactly when the string ends before. -/
theorem drop_padding_iff {t : S} (ht : NULL_CHAR ∉ t) {k : ℕ} (hk : k ≤ MAX)
    (hlen : t.length < MAX) :
    (t ++ List.replicate (MAX - t.length) NULL_CHAR).drop k = List.replicate (MAX - k) NULL_CHAR ↔
      t.length ≤ k := by
  constructor
  · intro h
    by_contra hlt
    have hget := congrArg (fun l : List C => l[0]?) h
    simp only [List.getElem?_drop, Nat.add_zero, List.getElem?_replicate] at hget
    rw [List.getElem?_append_left (by omega), if_pos (by omega)] at hget
    exact ht (List.mem_of_getElem? hget)
  · intro h
    rw [List.drop_append, List.drop_eq_nil_of_le h, List.nil_append, List.drop_replicate]
    congr 1
    omega

theorem memcpyAt_front (buffer s : List Byte) :
    memcpyAt buffer 0 s = s ++ buffer.drop s.length := by
  simp [memcpyAt]

theorem memcpyAt_front_set {buffer : List Byte} {s : S} (h : s.length < buffer.length) :
    (memcpyAt buffer 0 s).set s.length NULL_CHAR =
      s ++ NULL_CHAR :: buffer.drop (s.length + 1) := by
  rw [memcpyAt_front, List.set_append_right _ _ (Nat.le_refl _), Nat.sub_self,
    List.drop_eq_getElem_cons h, List.set_cons_zero]

/-- The data that `copy` leaves. -/
theorem copy_data (v : CS MIN MAX cs as) {s : S} (h : Admissible MIN MAX s)
    (addNullAtEnd fillNullBeforeCopy : Bool) :
    ∃ u : CS MIN MAX cs as, v.copy s addNullAtEnd fillNullBeforeCopy = .ok u ∧
      u.data = s ++ if addNullAtEnd then
          NULL_CHAR ::
            (if fillNullBeforeCopy then v.fillNull else v).data.drop (s.length + 1)
        else (if fillNullBeforeCopy then v.fillNull else v).data.drop s.length := by
  obtain ⟨hmin, hmax⟩ := h
  unfold CS.copy
  rw [dif_neg (by omega), if_neg (by omega)]
  cases addNullAtEnd with
  | false => exact ⟨_, rfl, memcpyAt_front _ s⟩
  | true =>
    refine ⟨_, rfl, memcpyAt_front_set ?_⟩
    rw [CS.size_eq]
    exact hmax

/-- `copy` with any flags, over a padded string: the result is padded and is the new string
when the array was filled before, or the old string does not reach past the new one. -/
theorem copy_represents_iff {v : CS MIN MAX cs as} {s t : S} (hv : Represents v t)
    (hs : NULL_CHAR ∉ s) (h : Admissible MIN MAX s) (addNullAtEnd fillNullBeforeCopy : Bool) :
    ∃ u : CS MIN MAX cs as, v.copy s addNullAtEnd fillNullBeforeCopy = .ok u ∧
      (Represents u s ↔ fillNullBeforeCopy = true ∨
        t.length ≤ s.length + if addNullAtEnd then 1 else 0) := by
  obtain ⟨u, hcopy, hdata⟩ := copy_data v h addNullAtEnd fillNullBeforeCopy
  obtain ⟨ht, hlen, -⟩ := id hv
  have hmax := h.2
  refine ⟨u, hcopy, ?_⟩
  have hrep : Represents u s ↔
      u.data = s ++ List.replicate (MAX - s.length) NULL_CHAR :=
    ⟨Represents.data, represents_of_data hs hmax⟩
  have hcons : List.replicate (MAX - s.length) NULL_CHAR =
      NULL_CHAR :: List.replicate (MAX - (s.length + 1)) NULL_CHAR := by
    rw [← List.replicate_succ]
    congr 1
    omega
  rw [hrep, hdata, List.append_cancel_left_eq]
  cases fillNullBeforeCopy with
  | true =>
    apply iff_of_true _ (Or.inl rfl)
    cases addNullAtEnd with
    | true => simp [CS.fillNull, hcons]
    | false => simp [CS.fillNull]
  | false =>
    simp only [Bool.false_eq_true, if_false, false_or, hv.data]
    cases addNullAtEnd with
    | true =>
      rw [if_pos rfl, if_pos rfl, hcons, List.cons.injEq, eq_self_iff_true, true_and]
      exact drop_padding_iff ht (by omega) hlen
    | false =>
      rw [if_neg Bool.false_ne_true, if_neg Bool.false_ne_true]
      exact drop_padding_iff ht (by omega) hlen

theorem append_represents {v w : CS MIN MAX cs as} {s t : S} (hv : Represents v s)
    (hw : Represents w t) (h : s.length + t.length < MAX) :
    ∃ u : CS MIN MAX cs as, v.append w = .value (.ok u) ∧ Represents u (s ++ t) := by
  obtain ⟨u, happend, hdata⟩ := append_eq_ok hv.length hw.length h
  refine ⟨u, happend, ?_⟩
  have hfree : NULL_CHAR ∉ s ++ t := by
    rw [List.mem_append]
    exact fun hmem => hmem.elim hv.1 hw.1
  apply represents_of_data hfree (by rw [List.length_append]; exact h)
  have hpad : List.replicate (MAX - (s ++ t).length) NULL_CHAR =
      NULL_CHAR :: List.replicate (MAX - (s.length + t.length + 1)) NULL_CHAR := by
    rw [← List.replicate_succ, List.length_append]
    congr 1
    omega
  have hcopied : memcpyAt v.data s.length (w.data.take t.length) =
      (s ++ t) ++ List.replicate (MAX - (s ++ t).length) NULL_CHAR := by
    unfold memcpyAt
    rw [hv.data, hw.data, List.take_left, List.take_left, List.drop_append,
      List.drop_eq_nil_of_le (by omega), List.nil_append, List.drop_replicate,
      List.length_append]
    congr 2
    omega
  rw [hdata, hcopied, hpad, ← List.length_append, List.set_append_right _ _ (Nat.le_refl _),
    Nat.sub_self]
  rfl

/-! ## Histories -/

/-- The strings that the call is given have no NUL in them. -/
def NulFree : CSCall MIN MAX cs as → Prop
  | .construct _ str => NULL_CHAR ∉ str
  | .copy _ str _ _ => NULL_CHAR ∉ str
  | .assignString _ str => NULL_CHAR ∉ str
  | .read _ is => NULL_CHAR ∉ is.remaining
  | _ => True

theorem extract_nulFree {is : InStream} (h : NULL_CHAR ∉ is.remaining) :
    NULL_CHAR ∉ is.extract.1 := by
  intro hmem
  unfold InStream.extract at hmem
  split at hmem
  case isTrue =>
    simp only at hmem
    apply h
    apply (List.dropWhile_suffix (p := isspace) (l := is.remaining)).subset
    apply List.takeWhile_subset (fun c => !isspace c)
    split at hmem
    · exact hmem
    · exact List.mem_of_mem_take hmem
  case isFalse => exact List.not_mem_nil hmem

/-- What keeps the values and the strings together: two strings that are concatenated do
not have exactly `MAX` characters, no value with characters in it is assigned to itself,
and what is copied without filling the array covers the string that was there. -/
def KeepsPadding (strings : List S) : CSCall MIN MAX cs as → Prop
  | .constructDefault => 0 < MAX
  | .copy value str addNullAtEnd fillNullBeforeCopy =>
    Admissible MIN MAX str → ∀ t, strings[value]? = some t →
      fillNullBeforeCopy = true ∨ t.length ≤ str.length + if addNullAtEnd then 1 else 0
  | .assign value source =>
    value = source → ∀ t, strings[source]? = some t → MIN ≤ t.length → t = []
  | .append value source | .plus value source =>
    ∀ s t, strings[value]? = some s → strings[source]? = some t → s.length + t.length ≠ MAX
  | _ => True

section Step

variable {values : List (CS MIN MAX cs as)} {strings : List S}

/-- `copy` with its default flags of a string without NUL, for a new value. -/
theorem produce_copy_safe (h : List.Forall₂ Represents values strings)
    (storage : CS MIN MAX cs as) {str : S} (hstr : NULL_CHAR ∉ str) :
    (produce values (.value (storage.copy str))).Safe fun vs =>
      List.Forall₂ Represents vs
        (if Admissible MIN MAX str then strings ++ [str] else strings) := by
  by_cases hadm : Admissible MIN MAX str
  · rw [copy_admissible storage hadm, if_pos hadm]
    exact (forall₂_concat_iff h _ _).mpr (ofS_represents hstr hadm.2)
  · obtain ⟨message, hcopy⟩ := copy_inadmissible storage hadm true true
    rw [hcopy, if_neg hadm]
    exact h

theorem change_copy_safe (h : List.Forall₂ Represents values strings) {i : ℕ}
    (hi : i < values.length) (v : CS MIN MAX cs as) {str : S} (hstr : NULL_CHAR ∉ str) :
    (change values i (.value (v.copy str))).Safe fun vs =>
      List.Forall₂ Represents vs
        (if Admissible MIN MAX str then strings.set i str else strings) := by
  by_cases hadm : Admissible MIN MAX str
  · rw [copy_admissible v hadm, if_pos hadm]
    exact (forall₂_set_iff h hi _ _).mpr (ofS_represents hstr hadm.2)
  · obtain ⟨message, hcopy⟩ := copy_inadmissible v hadm true true
    rw [hcopy, if_neg hadm]
    exact h

/-- A call on a value that does not exist changes nothing. -/
theorem withValue_copy_safe (h : List.Forall₂ Represents values strings) (i : ℕ)
    {str : S} (hstr : NULL_CHAR ∉ str) :
    (withValue values i fun v => change values i (.value (v.copy str))).Safe fun vs =>
      List.Forall₂ Represents vs
        (if Admissible MIN MAX str then strings.set i str else strings) := by
  unfold withValue
  rcases forall₂_getElem? h i with ⟨hv, hs⟩ | ⟨v, t, hv, ht, -⟩
  · have hset : strings.set i str = strings :=
      List.set_eq_of_length_le (List.getElem?_eq_none_iff.mp hs)
    rw [hv, hset, ite_self]
    exact h
  · rw [hv]
    exact change_copy_safe h (List.getElem?_eq_some_iff.mp hv).1 v hstr

theorem assignString_safe (h : List.Forall₂ Represents values strings) (i : ℕ)
    {str : S} (hstr : NULL_CHAR ∉ str) :
    (withValue values i fun v =>
        change values i ((v.assignString str) >>= fun v => .value (.ok v))).Safe fun vs =>
      List.Forall₂ Represents vs
        (if Admissible MIN MAX str then strings.set i str else strings) := by
  by_cases hadm : Admissible MIN MAX str
  · have hassign : ∀ v : CS MIN MAX cs as,
        ((v.assignString str) >>= fun v => .value (.ok v)) = .value (v.copy str) := by
      intro v
      unfold CS.assignString
      rw [copy_admissible v hadm]
      rfl
    simp only [hassign]
    exact withValue_copy_safe h i hstr
  · -- the exception leaves a `noexcept` function
    have hassign : ∀ v : CS MIN MAX cs as, v.assignString str = .terminated := by
      intro v
      obtain ⟨message, hcopy⟩ := copy_inadmissible v hadm true true
      unfold CS.assignString
      rw [hcopy]
    rw [if_neg hadm]
    unfold withValue
    cases hv : values[i]? with
    | none => exact h
    | some v =>
      simp only [hassign]
      exact trivial

theorem copy_safe_iff (h : List.Forall₂ Represents values strings) (i : ℕ)
    {str : S} (hstr : NULL_CHAR ∉ str) (addNullAtEnd fillNullBeforeCopy : Bool) :
    ((withValue values i fun v =>
        change values i (.value (v.copy str addNullAtEnd fillNullBeforeCopy))).Safe fun vs =>
      List.Forall₂ Represents vs
        (if Admissible MIN MAX str then strings.set i str else strings)) ↔
      (Admissible MIN MAX str → ∀ t, strings[i]? = some t →
        fillNullBeforeCopy = true ∨ t.length ≤ str.length + if addNullAtEnd then 1 else 0) := by
  unfold withValue
  rcases forall₂_getElem? h i with ⟨hv, hs⟩ | ⟨v, t, hv, ht, hvt⟩
  · have hset : strings.set i str = strings :=
      List.set_eq_of_length_le (List.getElem?_eq_none_iff.mp hs)
    rw [hv, hset, ite_self, hs]
    exact iff_of_true h fun _ t ht => by cases ht
  · have hi := (List.getElem?_eq_some_iff.mp hv).1
    rw [hv, ht]
    by_cases hadm : Admissible MIN MAX str
    · obtain ⟨u, hcopy, hu⟩ :=
        copy_represents_iff hvt hstr hadm addNullAtEnd fillNullBeforeCopy
      rw [if_pos hadm]
      simp only [hcopy]
      calc List.Forall₂ Represents (values.set i u) (strings.set i str)
          ↔ Represents u str := forall₂_set_iff h hi u str
        _ ↔ _ := by simp [hu, hadm]
    · obtain ⟨message, hcopy⟩ := copy_inadmissible v hadm addNullAtEnd fillNullBeforeCopy
      rw [if_neg hadm]
      simp only [hcopy]
      exact iff_of_true h fun hadm' => absurd hadm' hadm

theorem assign_other (v : CS MIN MAX cs as) {w : CS MIN MAX cs as} {t : S}
    (h : Represents w t) : v.assign w false = .value (v.copy t) := by
  have hsource : w.data.take t.length = t := by rw [h.data, List.take_left]
  unfold CS.assign
  rw [h.length]
  show Outcome.value (v.copy (w.data.take t.length)) = _
  rw [hsource]

/-- What a value copies from itself are the NULs that its array was filled with. -/
theorem assign_self {w : CS MIN MAX cs as} {t : S} (h : Represents w t)
    (hmin : MIN ≤ t.length) : w.assign w true = .value (.ok CS.new) := by
  obtain ⟨-, hmax, -⟩ := id h
  have hsource : w.fillNull.data.take t.length = List.replicate t.length NULL_CHAR := by
    show (List.replicate MAX NULL_CHAR).take t.length = _
    rw [List.take_replicate, Nat.min_eq_left (Nat.le_of_lt hmax)]
  have hadm : Admissible MIN MAX (List.replicate t.length NULL_CHAR) := by
    unfold Admissible
    rw [List.length_replicate]
    exact ⟨hmin, hmax⟩
  have hcleared : (CS.ofS (List.replicate t.length NULL_CHAR) hadm.2 : CS MIN MAX cs as) =
      CS.new := by
    apply CS.ext
    show List.replicate t.length NULL_CHAR ++ List.replicate _ NULL_CHAR =
      List.replicate MAX NULL_CHAR
    rw [List.length_replicate, List.replicate_append_replicate]
    congr 1
    omega
  unfold CS.assign
  rw [h.length]
  show Outcome.value (w.copy (w.fillNull.data.take t.length)) = _
  rw [hsource, copy_admissible w hadm, hcleared]

theorem assign_self_error {w : CS MIN MAX cs as} {t : S} (h : Represents w t)
    (hmin : ¬ MIN ≤ t.length) : ∃ message, w.assign w true = .value (.error message) := by
  obtain ⟨-, hmax, -⟩ := id h
  have hshort : ¬ Admissible MIN MAX (w.fillNull.data.take t.length) := by
    rintro ⟨hle, -⟩
    rw [List.length_take] at hle
    exact hmin (hle.trans (Nat.min_le_left _ _))
  obtain ⟨message, hcopy⟩ := copy_inadmissible w hshort true true
  refine ⟨message, ?_⟩
  unfold CS.assign
  rw [h.length]
  show Outcome.value (w.copy (w.fillNull.data.take t.length)) = _
  rw [hcopy]

theorem assign_self_safe_iff (h : List.Forall₂ Represents values strings) {i : ℕ}
    {w : CS MIN MAX cs as} (hw : values[i]? = some w) {t : S} (hwt : Represents w t) :
    ((change values i (w.assign w true)).Safe fun vs =>
      List.Forall₂ Represents vs
        (if Admissible MIN MAX t then strings.set i t else strings)) ↔
      (MIN ≤ t.length → t = []) := by
  obtain ⟨hfree, hmax, -⟩ := id hwt
  have hi := (List.getElem?_eq_some_iff.mp hw).1
  by_cases hmin : MIN ≤ t.length
  · rw [assign_self hwt hmin, if_pos (show Admissible MIN MAX t from ⟨hmin, hmax⟩)]
    calc List.Forall₂ Represents (values.set i CS.new) (strings.set i t)
        ↔ Represents CS.new t := forall₂_set_iff h hi _ _
      _ ↔ t = [] := by
          have hnew : Represents (CS.new : CS MIN MAX cs as) [] :=
            new_represents (Nat.zero_lt_of_lt hmax)
          constructor
          · intro hrep
            exact Option.some.inj (hrep.toString.symm.trans hnew.toString)
          · rintro rfl
            exact hnew
      _ ↔ (MIN ≤ t.length → t = []) := by simp [hmin]
  · obtain ⟨message, herror⟩ := assign_self_error hwt hmin
    rw [herror, if_neg (fun hadm : Admissible MIN MAX t => hmin hadm.1)]
    exact iff_of_true h fun hmin' => absurd hmin' hmin

theorem assign_safe_iff (h : List.Forall₂ Represents values strings) (i j : ℕ) :
    ((withValue values i fun v => withValue values j fun w =>
        change values i (v.assign w (i = j))).Safe fun vs =>
      List.Forall₂ Represents vs
        (logicalStep strings (.assign i j : CSCall MIN MAX cs as))) ↔
      (i = j → ∀ t, strings[j]? = some t → MIN ≤ t.length → t = []) := by
  unfold withValue logicalStep
  rcases forall₂_getElem? h j with ⟨hw, ht⟩ | ⟨w, t, hw, ht, hwt⟩
  · simp only [hw, ht]
    apply iff_of_true _ fun _ t ht => by cases ht
    cases values[i]? <;> exact h
  · simp only [ht]
    rcases forall₂_getElem? h i with ⟨hv, hs⟩ | ⟨v, s, hv, -, -⟩
    · have hset : strings.set i t = strings :=
        List.set_eq_of_length_le (List.getElem?_eq_none_iff.mp hs)
      simp only [hv, hset, ite_self]
      apply iff_of_true h
      rintro rfl
      rw [hv] at hw
      cases hw
    · simp only [hv, hw]
      by_cases hij : i = j
      · subst hij
        rw [hv] at hw
        cases hw
        simp only [decide_true]
        rw [assign_self_safe_iff h hv hwt]
        simp
      · simp only [hij, decide_false, assign_other v hwt]
        exact iff_of_true (change_copy_safe h (List.getElem?_eq_some_iff.mp hv).1 v hwt.1)
          fun hij' => hij'.elim

/-- `+=` and `+`: the two strings and the result. -/
theorem append_cases {v w : CS MIN MAX cs as} {s t : S} (hv : Represents v s)
    (hw : Represents w t) :
    (MAX < s.length + t.length ∧ ∃ message, v.append w = .value (.error message)) ∨
      (s.length + t.length = MAX ∧ v.append w = .undefined) ∨
      (s.length + t.length < MAX ∧
        ∃ u : CS MIN MAX cs as, v.append w = .value (.ok u) ∧ Represents u (s ++ t)) := by
  rcases Nat.lt_trichotomy (s.length + t.length) MAX with hlt | heq | hgt
  · exact Or.inr (Or.inr ⟨hlt, append_represents hv hw hlt⟩)
  · exact Or.inr (Or.inl ⟨heq, append_eq_undefined hv.length hw.length heq⟩)
  · exact Or.inl ⟨hgt, _, append_eq_error hv.length hw.length hgt⟩

/-- The two strings put together, wherever the result goes. -/
theorem concat_safe_iff (h : List.Forall₂ Represents values strings) (i j : ℕ)
    (store : Outcome (Except String (CS MIN MAX cs as)) → Outcome (List (CS MIN MAX cs as)))
    (stored : S → List S)
    (hok : i < values.length → ∀ (u : CS MIN MAX cs as) (s : S), Represents u s →
      (store (.value (.ok u))).Safe fun vs => List.Forall₂ Represents vs (stored s))
    (herror : ∀ message, store (.value (.error message)) = .value values)
    (hundefined : store .undefined = .undefined) :
    ((withValue values i fun v => withValue values j fun w => store (v.append w)).Safe fun vs =>
      List.Forall₂ Represents vs
        (match strings[i]?, strings[j]? with
          | some s, some t => if s.length + t.length < MAX then stored (s ++ t) else strings
          | _, _ => strings)) ↔
      ∀ s t, strings[i]? = some s → strings[j]? = some t → s.length + t.length ≠ MAX := by
  unfold withValue
  rcases forall₂_getElem? h i with ⟨hv, hs⟩ | ⟨v, s, hv, hs, hvs⟩
  · simp only [hv, hs]
    exact iff_of_true h fun s t hs' => by cases hs'
  · rcases forall₂_getElem? h j with ⟨hw, ht⟩ | ⟨w, t, hw, ht, hwt⟩
    · simp only [hv, hs, hw, ht]
      exact iff_of_true h fun s t _ ht' => by cases ht'
    · have hi := (List.getElem?_eq_some_iff.mp hv).1
      simp only [hv, hs, hw, ht, Option.some.injEq]
      rcases append_cases hvs hwt with ⟨hlen, message, happend⟩ | ⟨hlen, happend⟩ |
        ⟨hlen, u, happend, hu⟩
      · rw [happend, herror, if_neg (by omega)]
        apply iff_of_true h
        rintro s' t' rfl rfl
        omega
      · rw [happend, hundefined]
        exact iff_of_false (fun hsafe => hsafe) fun hne => hne s t rfl rfl hlen
      · rw [happend, if_pos hlen]
        apply iff_of_true (hok hi u (s ++ t) hu)
        rintro s' t' rfl rfl
        omega

theorem append_safe_iff (h : List.Forall₂ Represents values strings) (i j : ℕ) :
    ((withValue values i fun v => withValue values j fun w =>
        change values i (v.append w)).Safe fun vs =>
      List.Forall₂ Represents vs
        (logicalStep strings (.append i j : CSCall MIN MAX cs as))) ↔
      ∀ s t, strings[i]? = some s → strings[j]? = some t → s.length + t.length ≠ MAX := by
  apply concat_safe_iff h i j (change values i) (strings.set i)
  · intro hi u s hu
    exact (forall₂_set_iff h hi u s).mpr hu
  · intro message
    rfl
  · rfl

theorem plus_safe_iff (h : List.Forall₂ Represents values strings) (i j : ℕ) :
    ((withValue values i fun v => withValue values j fun w =>
        produce values (v.plus w)).Safe fun vs =>
      List.Forall₂ Represents vs
        (logicalStep strings (.plus i j : CSCall MIN MAX cs as))) ↔
      ∀ s t, strings[i]? = some s → strings[j]? = some t → s.length + t.length ≠ MAX := by
  apply concat_safe_iff h i j (produce values) (fun s => strings ++ [s])
  · intro _ u s hu
    exact (forall₂_concat_iff h u s).mpr hu
  · intro message
    rfl
  · rfl

/-- **One step** keeps every value with its string exactly when `KeepsPadding` allows it. -/
theorem csStep_represents_iff (h : List.Forall₂ Represents values strings)
    (call : CSCall MIN MAX cs as) (hfree : NulFree call) :
    ((csStep values call).Safe fun vs =>
      List.Forall₂ Represents vs (logicalStep strings call)) ↔ KeepsPadding strings call := by
  cases call with
  | constructDefault =>
    refine (forall₂_concat_iff h CS.new []).trans ⟨?_, new_represents⟩
    rintro ⟨-, hmax, -⟩
    exact hmax
  | construct storage str => exact iff_of_true (produce_copy_safe h storage hfree) trivial
  | constructC storage str =>
    exact iff_of_true (produce_copy_safe h storage str.property) trivial
  | constructCopy source =>
    apply iff_of_true _ trivial
    unfold csStep withValue logicalStep
    rcases forall₂_getElem? h source with ⟨hv, hs⟩ | ⟨v, s, hv, hs, hvs⟩
    · simp only [hv, hs, Option.toList_none, List.append_nil]
      exact h
    · simp only [hv, hs, Option.toList_some]
      exact (forall₂_concat_iff h v s).mpr hvs
  | copy value str addNullAtEnd fillNullBeforeCopy =>
    exact copy_safe_iff h value hfree addNullAtEnd fillNullBeforeCopy
  | copyC value str => exact iff_of_true (withValue_copy_safe h value str.property) trivial
  | assignString value str => exact iff_of_true (assignString_safe h value hfree) trivial
  | assignC value str => exact iff_of_true (withValue_copy_safe h value str.property) trivial
  | copyAssign value source =>
    apply iff_of_true _ trivial
    unfold csStep withValue logicalStep
    rcases forall₂_getElem? h source with ⟨hw, ht⟩ | ⟨w, t, hw, ht, hwt⟩
    · simp only [hw, ht]
      exact h
    · simp only [hw, ht]
      show List.Forall₂ Represents (values.set value w) (strings.set value t)
      by_cases hvalue : value < values.length
      · exact (forall₂_set_iff h hvalue w t).mpr hwt
      · have hlen := h.length_eq
        rwa [List.set_eq_of_length_le (by omega), List.set_eq_of_length_le (by omega)]
  | assign value source => exact assign_safe_iff h value source
  | read value is =>
    exact iff_of_true (withValue_copy_safe h value (extract_nulFree hfree)) trivial
  | append value source => exact append_safe_iff h value source
  | plus value source => exact plus_safe_iff h value source

end Step

/-- What is to hold of the values and the strings they stand for: each is padded, its
`to_string ()` is its string, and two of them have the same bytes exactly when they have
the same string. -/
def Canonical (state : List (CS MIN MAX cs as) × List S) : Prop :=
  List.Forall₂ (fun v s => Padded v ∧ v.toString? = some s) state.1 state.2 ∧
    ∀ v ∈ state.1, ∀ w ∈ state.1, v.data = w.data ↔ v.toString? = w.toString?

theorem represents_of_mem {values : List (CS MIN MAX cs as)} {strings : List S}
    (h : List.Forall₂ Represents values strings) {v : CS MIN MAX cs as} (hv : v ∈ values) :
    ∃ s, Represents v s := by
  obtain ⟨i, hi⟩ := List.getElem?_of_mem hv
  rcases forall₂_getElem? h i with ⟨hnone, -⟩ | ⟨v', s, hv', -, hvs⟩
  · rw [hnone] at hi
    cases hi
  · rw [hv'] at hi
    cases hi
    exact ⟨s, hvs⟩

theorem canonical_iff (state : List (CS MIN MAX cs as) × List S) :
    Canonical state ↔ List.Forall₂ Represents state.1 state.2 := by
  have hrelation : (fun (v : CS MIN MAX cs as) (s : S) => Padded v ∧ v.toString? = some s) =
      Represents := by
    funext v s
    exact propext (represents_iff v s).symm
  unfold Canonical
  rw [hrelation]
  constructor
  · intro h
    exact h.1
  · intro h
    refine ⟨h, ?_⟩
    intro v hv w hw
    obtain ⟨s, hs⟩ := represents_of_mem h hv
    obtain ⟨t, ht⟩ := represents_of_mem h hw
    exact data_eq_iff hs ht

/-- **Canonical padding.**  Along a history that is given strings without NUL, the values
are padded, stand for the strings they are meant to, and are compared by their bytes as by
their strings, exactly when every step is as `KeepsPadding` says. -/
theorem padded_along_iff (calls : List (CSCall MIN MAX cs as))
    (hfree : ∀ call ∈ calls, NulFree call) :
    MeetsAlong annotatedStep (fun state call => (annotatedStep state call).Safe Canonical)
        ([], []) calls ↔
      MeetsAlong annotatedStep (fun state call => KeepsPadding state.2 call) ([], []) calls := by
  have hstep : ∀ (state : List (CS MIN MAX cs as) × List S) (call : CSCall MIN MAX cs as),
      NulFree call → Canonical state →
      ((annotatedStep state call).Safe Canonical ↔ KeepsPadding state.2 call) := by
    intro state call hcall hstate
    unfold annotatedStep
    rw [Outcome.safe_bind]
    simp only [Outcome.safe_value, canonical_iff]
    exact csStep_represents_iff ((canonical_iff state).mp hstate) call hcall
  apply safe_along_iff annotatedStep Canonical Canonical (fun state call =>
    KeepsPadding state.2 call) NulFree (fun _ h => h)
  · intro state call hcall hstate hkeeps
    exact (hstep state call hcall hstate).mpr hkeeps
  · intro state call hcall hstate hsafe
    exact (hstep state call hcall hstate).mp hsafe
  · exact hfree
  · exact ⟨List.Forall₂.nil, by simp⟩

/-- A longer string, then a shorter one, and that twice. -/
theorem padded_along_overwrite :
    MeetsAlong annotatedStep (fun state call => (annotatedStep state call).Safe Canonical)
      ([], [])
      [.constructDefault, .assignString 0 (W "long"), .assignString 0 (W "ab"),
        (.append 0 0 : CSCall 0 8 false false)] := by
  refine (padded_along_iff _ ?_).mpr ?_
  · intro call hcall
    fin_cases hcall
    · exact trivial
    · exact (by decide : NULL_CHAR ∉ W "long")
    · exact (by decide : NULL_CHAR ∉ W "ab")
    · exact trivial
  · refine meetsAlong_cons _ rfl (by decide : 0 < 8) ?_
    refine meetsAlong_cons _ rfl trivial ?_
    refine meetsAlong_cons _ rfl trivial ?_
    refine meetsAlong_cons _ rfl ?_ trivial
    rintro s t ⟨⟩ ⟨⟩
    decide

/-- `"ab"` assigned to itself is the empty string. -/
theorem not_padded_along_assign_self :
    ¬ MeetsAlong annotatedStep (fun state call => (annotatedStep state call).Safe Canonical)
      ([], [])
      [.constructDefault, .assignString 0 (W "ab"),
        (.assign 0 0 : CSCall 0 8 false false)] := by
  intro h
  have hlast := ((h.2 _ rfl).2 _ rfl).1
  have hvalue := List.forall₂_cons.mp hlast.1
  exact absurd hvalue.1.2 (by decide)

end Pensar.Analysis
