import Pensar.Model.StringSplit

/-!
# What `split` appends

With a separator in the string, the loop appends the pieces between the separators, each with
the flags applied (`splitLoop_eq`); the invariant is on what is left of the string from the
index `i` on.  Without one, the string itself is appended as it is, whatever the flags say.

Main results: `split_join` and `split_flags_iff`.
-/

set_option autoImplicit false

namespace Pensar.Analysis

open Pensar.Computation
open Pensar.Model

variable (isWspace : C → Bool)

/-- The pieces after trimming and then dropping the empty ones, as the flags say. -/
def withFlags (trimElements includeEmptyFields : Bool) (pieces : List S) : List S :=
  let trimmed := if trimElements then pieces.map (trim isWspace) else pieces
  if includeEmptyFields then trimmed else trimmed.filter fun p => p.length > 0

/-! ## The loop -/

section Loop

variable (s : S) (ch : C) (trimElements includeEmptyFields : Bool)

theorem insertPiece_eq (c : List S) (aux : S) :
    insertPiece isWspace trimElements includeEmptyFields c aux =
      c ++ withFlags isWspace trimElements includeEmptyFields [aux] := by
  unfold insertPiece withFlags
  cases trimElements <;> cases includeEmptyFields <;>
    simp only [List.map_cons, List.map_nil, List.filter_cons, List.filter_nil, Bool.true_or,
      Bool.false_or, if_true, Bool.false_eq_true, if_false]
  · split <;> simp
  · split <;> simp

theorem withFlags_append (p q : List S) :
    withFlags isWspace trimElements includeEmptyFields (p ++ q) =
      withFlags isWspace trimElements includeEmptyFields p ++
        withFlags isWspace trimElements includeEmptyFields q := by
  unfold withFlags
  cases trimElements <;> cases includeEmptyFields <;>
    simp only [List.map_append, List.filter_append, if_true, Bool.false_eq_true, if_false]

/-- **The loop**: in front of a separator at `j`, it appends the pieces of what is left from
`i` on. -/
theorem splitLoop_eq (l r : S) (i : ℕ) (c : List S) (hdrop : s.drop i = l ++ ch :: r)
    (hl : ch ∉ l) :
    splitLoop isWspace s ch trimElements includeEmptyFields i (i + l.length) c =
      c ++ withFlags isWspace trimElements includeEmptyFields ((s.drop i).splitOn ch) := by
  induction hn : r.length using Nat.strong_induction_on generalizing l r i c with
  | _ n ih =>
    have htake : (s.drop i).take (i + l.length - i) = l := by
      rw [hdrop, Nat.add_sub_cancel_left, List.take_left']
      rfl
    have hrest : s.drop (i + l.length + 1) = r := by
      have hdd : s.drop (i + l.length + 1) = (s.drop i).drop (l.length + 1) := by
        rw [List.drop_drop, Nat.add_assoc]
      rw [hdd, hdrop, List.drop_append, List.drop_of_length_le (Nat.le_succ _),
        Nat.add_sub_cancel_left]
      rfl
    have hpieces : (s.drop i).splitOn ch = l :: r.splitOn ch := by
      rw [hdrop, splitOn_of_cut r hl]
    rw [splitLoop, htake, hpieces, ← List.singleton_append, withFlags_append,
      ← List.append_assoc, ← insertPiece_eq]
    split
    case h_1 hnone =>
      -- the last piece
      have hnot : ch ∉ r := by
        rw [← hrest]
        exact findFrom_eq_none_iff.mp hnone
      have hlen : r.length ≤ s.length := by
        rw [← hrest, List.length_drop]
        exact Nat.sub_le _ _
      rw [hrest, List.take_of_length_le hlen, List.splitOn_eq_singleton hnot, insertPiece_eq]
    case h_2 j' hsome =>
      rcases findFrom_cases s ch (i + l.length + 1) with ⟨hnone, -⟩ | ⟨l', r', hsome', hcut, hl'⟩
      · rw [hnone] at hsome
        cases hsome
      · obtain rfl : i + l.length + 1 + l'.length = j' := by
          rw [hsome'] at hsome
          exact Option.some.inj hsome
        have hlt : r'.length < n := by
          have hcount := congrArg List.length hcut
          rw [hrest, List.length_append, List.length_cons] at hcount
          omega
        rw [ih r'.length hlt l' r' (i + l.length + 1) _ hcut hl' rfl, hrest]

/-- **All of `split`**: the flags are honoured when there is a separator. -/
theorem split_eq (c : List S) :
    split isWspace s ch c trimElements includeEmptyFields =
      c ++ if ch ∈ s then withFlags isWspace trimElements includeEmptyFields (s.splitOn ch)
        else [s] := by
  unfold split
  rcases findFrom_cases s ch 0 with ⟨hnone, hnot⟩ | ⟨l, r, hsome, hcut, hl⟩
  · rw [List.drop_zero] at hnot
    rw [hnone, if_neg hnot]
  · have hmem : ch ∈ s := by
      rw [List.drop_zero] at hcut
      rw [hcut]
      exact List.mem_append_right l List.mem_cons_self
    rw [hsome, if_pos hmem]
    have hloop := splitLoop_eq isWspace s ch trimElements includeEmptyFields l r 0 c hcut hl
    rwa [List.drop_zero] at hloop

end Loop

/-- Without trimming and with empty fields, the pieces are those between the separators. -/
theorem split_plain (s : S) (ch : C) (c : List S) :
    split isWspace s ch c false true = c ++ s.splitOn ch := by
  rw [split_eq]
  split
  case isTrue h => rfl
  case isFalse h => rw [List.splitOn_eq_singleton h]

/-- **`split` undoes joining.** -/
theorem split_join (s : S) (ch : C) (c : List S) :
    ∃ pieces, split isWspace s ch c false true = c ++ pieces ∧
      pieces.length = s.count ch + 1 ∧
      (∀ p ∈ pieces, ch ∉ p) ∧
      [ch].intercalate pieces = s :=
  ⟨s.splitOn ch, split_plain isWspace s ch c, length_splitOn s ch,
    fun _ hp => not_mem_of_mem_splitOn hp, List.intercalate_splitOn ch⟩

/-! ## The flags -/

/-- No white space at either end. -/
def Trimmed (s : S) : Prop :=
  ∀ h : s ≠ [], isWspace (s.head h) = false ∧ isWspace (s.getLast h) = false

theorem trimmed_trim (s : S) : Trimmed isWspace (trim isWspace s) := by
  intro h
  have hsuffix : trim isWspace s <:+ rtrim isWspace s := List.dropWhile_suffix _
  have hne : rtrim isWspace s ≠ [] := hsuffix.ne_nil h
  refine ⟨List.head_dropWhile_not isWspace h, ?_⟩
  rw [hsuffix.getLast h]
  exact Bool.eq_false_iff.mpr (List.rdropWhile_last_not isWspace s hne)

theorem trim_eq_self {s : S} (h : Trimmed isWspace s) : trim isWspace s = s := by
  have hright : rtrim isWspace s = s := by
    apply List.rdropWhile_eq_self_iff.mpr
    intro hs
    exact Bool.eq_false_iff.mp (h hs).2
  have hleft : ltrim isWspace s = s := by
    apply List.dropWhile_eq_self_iff.mpr
    intro hs
    have hne : s ≠ [] := List.ne_nil_of_length_pos hs
    rw [← List.head_eq_getElem hne]
    exact Bool.eq_false_iff.mp (h hne).1
  rw [trim, hright, hleft]

/-- What was appended honours the flags: it is trimmed, or without empty pieces, as they say,
and it is the pieces of the plain split with the flags applied. -/
structure HonoursFlags (s : S) (ch : C) (trimElements includeEmptyFields : Bool)
    (pieces : List S) : Prop where
  trimmed : trimElements = true → ∀ p ∈ pieces, Trimmed isWspace p
  nonempty : includeEmptyFields = false → ∀ p ∈ pieces, p ≠ []
  plain : pieces = withFlags isWspace trimElements includeEmptyFields
    (split isWspace s ch [] false true)

theorem trimmed_of_mem_withFlags {includeEmptyFields : Bool} {pieces : List S} {p : S}
    (h : p ∈ withFlags isWspace true includeEmptyFields pieces) : Trimmed isWspace p := by
  have hmap : p ∈ pieces.map (trim isWspace) := by
    cases includeEmptyFields with
    | true => exact h
    | false => exact List.mem_of_mem_filter h
  obtain ⟨q, -, rfl⟩ := List.mem_map.mp hmap
  exact trimmed_trim isWspace q

theorem ne_nil_of_mem_withFlags {trimElements : Bool} {pieces : List S} {p : S}
    (h : p ∈ withFlags isWspace trimElements false pieces) : p ≠ [] := by
  have hpos := (List.mem_filter.mp h).2
  exact List.ne_nil_of_length_pos (of_decide_eq_true hpos)

/-- A string that needs neither trimming nor dropping. -/
theorem withFlags_singleton {trimElements includeEmptyFields : Bool} {s : S}
    (htrim : trimElements = true → Trimmed isWspace s)
    (hne : includeEmptyFields = true ∨ s ≠ []) :
    withFlags isWspace trimElements includeEmptyFields [s] = [s] := by
  have hmap : (if trimElements then [s].map (trim isWspace) else [s]) = [s] := by
    split
    case isTrue ht => rw [List.map_singleton, trim_eq_self isWspace (htrim ht)]
    case isFalse => rfl
  have hfilter : s ≠ [] → [s].filter (fun p => p.length > 0) = [s] := by
    intro hs
    exact List.filter_cons_of_pos (decide_eq_true (List.length_pos_of_ne_nil hs))
  simp only [withFlags, hmap]
  split
  case isTrue => rfl
  case isFalse he => exact hfilter (hne.resolve_left he)

/-- **When `split` honours its flags**: exactly when there is a separator in the string, or
the string needs none of what the flags ask for. -/
theorem split_flags_iff (s : S) (ch : C) (c : List S) (trimElements includeEmptyFields : Bool) :
    (∃ pieces, split isWspace s ch c trimElements includeEmptyFields = c ++ pieces ∧
      HonoursFlags isWspace s ch trimElements includeEmptyFields pieces) ↔
    ch ∈ s ∨
      ((trimElements = true → Trimmed isWspace s) ∧ (includeEmptyFields = true ∨ s ≠ [])) := by
  rw [split_eq]
  by_cases hmem : ch ∈ s
  · rw [if_pos hmem]
    refine iff_of_true ⟨_, rfl, ?_, ?_, ?_⟩ (Or.inl hmem)
    · rintro rfl p hp
      exact trimmed_of_mem_withFlags isWspace hp
    · rintro rfl p hp
      exact ne_nil_of_mem_withFlags isWspace hp
    · rw [split_plain, List.nil_append]
  · rw [if_neg hmem]
    constructor
    · rintro ⟨pieces, happ, hflags⟩
      obtain rfl : [s] = pieces := List.append_cancel_left happ
      refine Or.inr ⟨fun ht => hflags.trimmed ht s List.mem_cons_self, ?_⟩
      cases he : includeEmptyFields with
      | true => exact Or.inl rfl
      | false => exact Or.inr (hflags.nonempty he s List.mem_cons_self)
    · rintro (h | ⟨htrim, hne⟩)
      · exact absurd h hmem
      · refine ⟨[s], rfl, ?_, ?_, ?_⟩
        · intro ht p hp
          rw [List.mem_singleton.mp hp]
          exact htrim ht
        · rintro rfl p hp
          rw [List.mem_singleton.mp hp]
          exact hne.resolve_left Bool.false_ne_true
        · rw [split_plain, List.nil_append, List.splitOn_eq_singleton hmem,
            withFlags_singleton isWspace htrim hne]

/-- A string of one blank and the default flags: the blank is appended. -/
theorem split_blank : ¬ ∃ pieces, split isspace (W " ") (Wc ',') [] = [] ++ pieces ∧
    HonoursFlags isspace (W " ") (Wc ',') true false pieces := by
  have hsplit : split isspace (W " ") (Wc ',') [] = [] ++ [W " "] := by
    rw [split_eq]
    decide
  rintro ⟨pieces, happ, hflags⟩
  obtain rfl : [W " "] = pieces := List.append_cancel_left (hsplit.symm.trans happ)
  have htrimmed := hflags.trimmed rfl (W " ") List.mem_cons_self (by decide)
  exact absurd htrimmed.1 (by decide)

end Pensar.Analysis
