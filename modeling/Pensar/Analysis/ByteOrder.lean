import Pensar.Computation.BlockReversal
import Pensar.Model.ByteOrder

/-!
# Byte orders and the bounds of the span

Where only the byte order differs and neither the span nor an element is a single byte,
`convert` goes from element to element as long as there is a whole one.  The number of bytes
behind the last start of an element is `size - original_data_size`, which wraps around for a
span that is shorter than one element: the first exchange is then outside of it.  The counter of
the exchanges in an element is an `int`, which overflows for an element of `2 ^ 32` bytes and
more.

Main results: `convert_reverses_iff`, `convert_inside_iff`.
-/

set_option autoImplicit false

namespace Pensar.Analysis

open Pensar.Computation
open Pensar.Computation.Loop
open Pensar.Model

variable {data : Span} {k : UInt64} {from_ to_ : ByteOrder}

/-! ## One element -/

theorem swap_inside (data : Span) {a b : UInt64} (ha : a.toNat < data.bytes.length)
    (hb : b.toNat < data.bytes.length) :
    ∃ data', data.swap a b = .value data' ∧
      data'.bytes = exchange data.bytes a.toNat b.toNat ha hb := by
  rw [Span.swap, dif_pos ⟨ha, hb⟩]
  exact ⟨_, rfl, rfl⟩

theorem swap_outside {a b : UInt64} (hb : data.bytes.length ≤ b.toNat) :
    data.swap a b = .undefined := by
  rw [Span.swap, dif_neg (fun h => Nat.not_lt.mpr hb h.2)]

/-- The two positions that a round exchanges. -/
theorem toNat_positions {i : UInt64} {j : ℕ} (hi : i.toNat + k.toNat < 2 ^ 64)
    (hj : 2 * j + 1 < k.toNat) :
    (i + UInt64.ofNat j).toNat = i.toNat + j ∧
      (i - UInt64.ofNat j + k - 1).toNat = i.toNat + (k.toNat - 1 - j) := by
  have hofNat : (UInt64.ofNat j).toNat = j := by
    rw [UInt64.toNat_ofNat', Nat.mod_eq_of_lt (by omega)]
  have hone : (1 : UInt64).toNat = 1 := rfl
  constructor
  · rw [UInt64.toNat_add, hofNat]
    omega
  · rw [UInt64.toNat_sub, UInt64.toNat_add, UInt64.toNat_sub, hofNat, hone]
    omega

/-- The first rounds of the inner loop. -/
theorem convertSwap_rounds (data : Span) {i : UInt64}
    (hin : i.toNat + k.toNat ≤ data.bytes.length) (m : ℕ) (hm : m ≤ k.toNat / 2)
    (hint : m ≤ intMax) :
    ∃ data', (List.range m).foldlM (convertSwap i k) data = .value data' ∧
      PairsExchanged i.toNat k.toNat m data.bytes data'.bytes := by
  induction m with
  | zero => exact ⟨data, rfl, pairsExchanged_zero _ _ _⟩
  | succ m ih =>
    obtain ⟨data', hdata', hpairs⟩ := ih (by omega) (by omega)
    have hlt := data.size_lt
    have hlen := hpairs.length_eq
    obtain ⟨hfirst, hsecond⟩ := toNat_positions (i := i) (k := k) (j := m) (by omega) (by omega)
    obtain ⟨data'', hswap, hbytes⟩ := swap_inside data' (a := i + UInt64.ofNat m)
      (b := i - UInt64.ofNat m + k - 1) (by omega) (by omega)
    refine ⟨data'', ?_, ?_⟩
    · have hmax : m ≠ intMax := by omega
      rw [List.range_succ, List.foldlM_append, hdata', Outcome.value_bind, List.foldlM_cons,
        convertSwap, hswap, Outcome.value_bind, if_neg hmax]
      rfl
    · rw [hbytes]
      simp only [hfirst, hsecond]
      exact hpairs.exchange (by omega) (by omega) (by omega)

/-- Half the size of an element is the number of rounds. -/
theorem convertElement_eq (data : Span) (i k : UInt64) :
    convertElement i k data = (List.range (k.toNat / 2)).foldlM (convertSwap i k) data := by
  have hhalf : (k / 2).toNat = k.toNat / 2 := UInt64.toNat_div k 2
  rw [← hhalf]
  rfl

/-- An element that is in the span and not too large. -/
theorem convertElement_reverses (data : Span) {i : UInt64}
    (hin : i.toNat + k.toNat ≤ data.bytes.length) (hk : k.toNat < 2 ^ 32) :
    ∃ data', convertElement i k data = .value data' ∧
      PairsExchanged i.toNat k.toNat (k.toNat / 2) data.bytes data'.bytes := by
  have hint : k.toNat / 2 ≤ intMax := by
    unfold intMax
    omega
  rw [convertElement_eq]
  exact convertSwap_rounds data hin _ (Nat.le_refl _) hint

/-- The counter overflows. -/
theorem convertElement_overflow (hin : k.toNat ≤ data.bytes.length) (hk : 2 ^ 32 ≤ k.toNat) :
    convertElement 0 k data = .undefined := by
  have hint : intMax + 1 ≤ k.toNat / 2 := by
    unfold intMax
    omega
  obtain ⟨rest, hrest⟩ : ∃ rest, List.range (k.toNat / 2) = List.range (intMax + 1) ++ rest := by
    obtain ⟨d, hd⟩ := Nat.exists_eq_add_of_le hint
    rw [hd, List.range_add]
    exact ⟨_, rfl⟩
  obtain ⟨data', hdata', -⟩ := convertSwap_rounds data (i := 0) (k := k)
    (by rw [UInt64.toNat_zero, Nat.zero_add]; exact hin) intMax (by omega) (Nat.le_refl _)
  have hlast : convertSwap 0 k data' intMax = .undefined := by
    rw [convertSwap, Span.swap]
    split
    · rw [Outcome.value_bind, if_pos rfl]
    · rfl
  rw [convertElement_eq, hrest, List.foldlM_append, List.range_succ, List.foldlM_append, hdata',
    Outcome.value_bind, List.foldlM_cons, hlast]
  rfl

/-- The first exchange is outside the span. -/
theorem convertElement_outside (hout : data.bytes.length < k.toNat) (hk : 1 < k.toNat) :
    convertElement 0 k data = .undefined := by
  obtain ⟨m, hm⟩ : ∃ m, k.toNat / 2 = m + 1 := ⟨k.toNat / 2 - 1, by omega⟩
  have hklt := k.toNat_lt
  obtain ⟨-, hsecond⟩ := toNat_positions (i := 0) (k := k) (j := 0)
    (by rw [UInt64.toNat_zero]; omega) (by omega)
  have hfirst : convertSwap 0 k data 0 = .undefined := by
    rw [convertSwap, swap_outside]
    · rfl
    · omega
  rw [convertElement_eq, hm, List.range_succ_eq_map, List.foldlM_cons, hfirst]
  rfl

/-! ## The outer loop -/

theorem toNat_size (data : Span) : data.size.toNat = data.bytes.length := by
  rw [Span.size, UInt64.toNat_ofNat', Nat.mod_eq_of_lt data.size_lt]

/-- Where `convert` does something. -/
def Converts (data : Span) (k : UInt64) (from_ to_ : ByteOrder) : Prop :=
  from_.onlyEndianDiffers to_ = true ∧ 1 < data.bytes.length ∧ 1 < k.toNat

theorem convert_condition_iff :
    (!from_.equals to_ && decide (data.size > 1) && from_.onlyEndianDiffers to_ &&
      decide (k > 1)) = true ↔ Converts data k from_ to_ := by
  have hone : (1 : UInt64).toNat = 1 := rfl
  have hequals : from_.onlyEndianDiffers to_ = true → from_.equals to_ = false := by
    intro h
    unfold ByteOrder.onlyEndianDiffers at h
    unfold ByteOrder.equals
    simp only [Bool.and_eq_true, Bool.not_eq_true'] at h
    simp only [h.1, Bool.and_false, Bool.false_and]
  simp only [Bool.and_eq_true, Bool.not_eq_true', decide_eq_true_iff, gt_iff_lt,
    UInt64.lt_iff_toNat_lt, toNat_size, hone, Converts]
  constructor
  · rintro ⟨⟨⟨-, hsize⟩, hdiffers⟩, hk⟩
    exact ⟨hdiffers, hsize, hk⟩
  · rintro ⟨hdiffers, hsize, hk⟩
    exact ⟨⟨⟨hequals hdiffers, hsize⟩, hdiffers⟩, hk⟩

theorem convert_of_converts (h : Converts data k from_ to_) :
    convert data k from_ to_ = fun fuel =>
      (run (convertNext (data.size - k) k) fuel (0, .value data)).map Prod.snd := by
  funext fuel
  rw [convert, if_pos (convert_condition_iff.mpr h)]

theorem convert_of_not_converts (h : ¬ Converts data k from_ to_) :
    Returns (convert data k from_ to_) (.value data) := by
  refine ⟨0, fun fuel _ => ?_⟩
  rw [convert, if_neg (fun hcondition => h (convert_condition_iff.mp hcondition))]

/-- From the start of an element on, behind elements that are reversed. -/
theorem ends_convertNext {data' : Span} (hk : 1 < k.toNat) (hin : k.toNat ≤ data.bytes.length)
    (hint : k.toNat < 2 ^ 32) {i : UInt64} {m : ℕ} (hi : i.toNat = m * k.toNat)
    (hm : m ≤ data.bytes.length / k.toNat)
    (hdone : BlocksReversed k.toNat m data.bytes data'.bytes) :
    ∃ i' data'', Ends (convertNext (data.size - k) k) (i, .value data') (i', .value data'') ∧
      BlocksReversed k.toNat (data.bytes.length / k.toNat) data.bytes data''.bytes := by
  have hlt := data.size_lt
  have hlen := hdone.length_eq
  have hbehind : (data.size - k).toNat = data.bytes.length - k.toNat := by
    rw [UInt64.toNat_sub, toNat_size]
    omega
  have hmul : m * k.toNat ≤ data.bytes.length :=
    (Nat.le_div_iff_mul_le (Nat.zero_lt_of_lt hk)).mp hm
  induction hd : data.bytes.length / k.toNat - m generalizing i m data' with
  | zero =>
    have hlast : m = data.bytes.length / k.toNat := by omega
    have hmore : data.bytes.length < (m + 1) * k.toNat := by
      rw [hlast, Nat.mul_comm]
      exact Nat.lt_mul_div_succ _ (Nat.zero_lt_of_lt hk)
    have hstop : ¬ i ≤ data.size - k := by
      rw [UInt64.le_iff_toNat_le, hbehind, hi]
      rw [Nat.succ_mul] at hmore
      omega
    refine ⟨i, data', (ends_of_none ?_).mpr rfl, hlast ▸ hdone⟩
    rw [convertNext, if_neg hstop]
  | succ d ih =>
    have hmul' : (m + 1) * k.toNat ≤ data.bytes.length :=
      (Nat.le_div_iff_mul_le (Nat.zero_lt_of_lt hk)).mp (by omega)
    rw [Nat.succ_mul] at hmul'
    have hgo : i ≤ data.size - k := by
      rw [UInt64.le_iff_toNat_le, hbehind, hi]
      omega
    obtain ⟨next, hnext, hpairs⟩ := convertElement_reverses data' (i := i) (k := k)
      (by omega) hint
    rw [hi] at hpairs
    have hi' : (i + k).toNat = (m + 1) * k.toNat := by
      rw [UInt64.toNat_add, Nat.succ_mul, hi, Nat.mod_eq_of_lt (by omega)]
    obtain ⟨i', data'', hends, hall⟩ := ih hi' (by omega) (hdone.succ hpairs)
      (hdone.succ hpairs).length_eq (by rw [Nat.succ_mul]; exact hmul') (by omega)
    refine ⟨i', data'', ?_, hall⟩
    have hround : convertNext (data.size - k) k (i, .value data') = some (i + k, .value next) := by
      rw [convertNext, if_pos hgo, hnext]
    exact (ends_of_some hround).mpr hends

theorem convert_reverses (h : Converts data k from_ to_) (hin : k.toNat ≤ data.bytes.length)
    (hint : k.toNat < 2 ^ 32) :
    ∃ data', Returns (convert data k from_ to_) (.value data') ∧
      BlocksReversed k.toNat (data.bytes.length / k.toNat) data.bytes data'.bytes := by
  obtain ⟨i', data', hends, hall⟩ := ends_convertNext (i := 0) (m := 0) h.2.2 hin hint
    (by rw [UInt64.toNat_zero, Nat.zero_mul]) (Nat.zero_le _)
    (blocksReversed_zero k.toNat data.bytes)
  refine ⟨data', ?_, hall⟩
  rw [convert_of_converts h]
  exact hends.returns_map Prod.snd

/-- The first element already is not exchanged. -/
theorem convert_undefined (h : Converts data k from_ to_)
    (hbad : data.bytes.length < k.toNat ∨ 2 ^ 32 ≤ k.toNat) :
    Returns (convert data k from_ to_) .undefined := by
  have helement : convertElement 0 k data = .undefined := by
    by_cases hout : data.bytes.length < k.toNat
    · exact convertElement_outside hout h.2.2
    · exact convertElement_overflow (Nat.not_lt.mp hout) (hbad.resolve_left hout)
  have hround : convertNext (data.size - k) k (0, .value data) = some (0 + k, .undefined) := by
    rw [convertNext, if_pos (UInt64.zero_le), helement]
  have hends : Ends (convertNext (data.size - k) k) (0, .value data) (0 + k, .undefined) :=
    (ends_of_some hround).mpr ((ends_of_none rfl).mpr rfl)
  rw [convert_of_converts h]
  exact hends.returns_map Prod.snd

/-! ## Both ways -/

/-- `convert` reverses every one of the complete elements in its place, leaves what is behind
them alone, and is undone by converting the other way. -/
def ReversesElements (data : Span) (k : UInt64) (from_ to_ : ByteOrder) : Prop :=
  ∃ data', Returns (convert data k from_ to_) (.value data') ∧
    BlocksReversed k.toNat (data.bytes.length / k.toNat) data.bytes data'.bytes ∧
    Returns (convert data' k to_ from_) (.value data)

theorem onlyEndianDiffers_comm (from_ to_ : ByteOrder) :
    from_.onlyEndianDiffers to_ = to_.onlyEndianDiffers from_ := by
  simp only [ByteOrder.onlyEndianDiffers, ByteOrder.equalsEndian, ByteOrder.equalsInvariance,
    ByteOrder.equalsAddressSize, eq_comm]

/-- **Conversion and back**, for elements in the span: right if an element has fewer than
`2 ^ 32` bytes. -/
theorem convert_reverses_iff (data : Span) (k : UInt64) (from_ to_ : ByteOrder)
    (hdiffers : from_.onlyEndianDiffers to_ = true) (hk : 1 < k.toNat)
    (hin : k.toNat ≤ data.bytes.length) :
    ReversesElements data k from_ to_ ↔ k.toNat < 2 ^ 32 := by
  have hconverts : Converts data k from_ to_ := ⟨hdiffers, Nat.lt_of_lt_of_le hk hin, hk⟩
  constructor
  · rintro ⟨data', hreturns, -, -⟩
    by_contra hlarge
    have hundefined := convert_undefined hconverts (Or.inr (Nat.not_lt.mp hlarge))
    cases hundefined.unique hreturns
  · intro hint
    obtain ⟨data', hreturns, hall⟩ := convert_reverses hconverts hin hint
    have hback : Converts data' k to_ from_ := by
      rw [Converts, hall.length_eq, onlyEndianDiffers_comm]
      exact hconverts
    obtain ⟨data'', hreturns', hall'⟩ := convert_reverses hback (by rw [hall.length_eq]; exact hin)
      hint
    rw [hall.length_eq] at hall'
    obtain rfl : data'' = data := by
      cases data''
      cases data
      congr 1
      exact hall'.unique hall.symm
    exact ⟨data', hreturns, hall, hreturns'⟩

/-- Two elements of two bytes, and a fifth byte. -/
theorem convert_reverses_five :
    ReversesElements ⟨[1, 2, 3, 4, 5], by decide⟩ 2 ⟨.little, .ADDRESS_INVARIANCE, 8⟩
      ⟨.big, .ADDRESS_INVARIANCE, 8⟩ :=
  (convert_reverses_iff _ 2 _ _ (by decide) (by decide) (by decide)).mpr (by decide)

/-- A span of 4 GiB with a single element. -/
theorem not_reverses_large :
    ¬ ∀ (data : Span) (k : UInt64) (from_ to_ : ByteOrder),
      from_.onlyEndianDiffers to_ = true → 1 < k.toNat → k.toNat ≤ data.bytes.length →
        ReversesElements data k from_ to_ := by
  intro h
  obtain ⟨data, hlen⟩ : ∃ data : Span, data.bytes.length = 2 ^ 32 :=
    ⟨⟨List.replicate (2 ^ 32) 0, by rw [List.length_replicate]; norm_num⟩, List.length_replicate⟩
  have hk : (4294967296 : UInt64).toNat = 2 ^ 32 := by decide
  have hconverts : Converts data 4294967296 ⟨.little, .ADDRESS_INVARIANCE, 8⟩
      ⟨.big, .ADDRESS_INVARIANCE, 8⟩ := ⟨by decide, by rw [hlen]; norm_num, by decide⟩
  obtain ⟨data', hreturns, -, -⟩ := h data _ _ _ hconverts.1 hconverts.2.2 (by rw [hk, hlen])
  have hundefined := convert_undefined hconverts (Or.inr hk.ge)
  cases hundefined.unique hreturns

/-- **Within the span**: `convert` ends, and everything that it does on the way is defined. -/
theorem convert_inside_iff (data : Span) (k : UInt64) (from_ to_ : ByteOrder) :
    (∃ data', Returns (convert data k from_ to_) (.value data')) ↔
      (Converts data k from_ to_ → k.toNat ≤ data.bytes.length ∧ k.toNat < 2 ^ 32) := by
  constructor
  · rintro ⟨data', hreturns⟩ hconverts
    by_contra hbad
    have hundefined := convert_undefined hconverts (by omega)
    cases hundefined.unique hreturns
  · intro h
    by_cases hconverts : Converts data k from_ to_
    · obtain ⟨hin, hint⟩ := h hconverts
      obtain ⟨data', hreturns, -⟩ := convert_reverses hconverts hin hint
      exact ⟨data', hreturns⟩
    · exact ⟨data, convert_of_not_converts hconverts⟩

/-- Two bytes that should be one half of an element of four. -/
theorem not_inside_short :
    ¬ ∀ (data : Span) (k : UInt64) (from_ to_ : ByteOrder),
      ∃ data', Returns (convert data k from_ to_) (.value data') := by
  intro h
  have hconverts : Converts ⟨[1, 2], by decide⟩ 4 ⟨.little, .ADDRESS_INVARIANCE, 8⟩
      ⟨.big, .ADDRESS_INVARIANCE, 8⟩ := ⟨by decide, by decide, by decide⟩
  obtain ⟨data', hreturns⟩ := h _ _ _ _
  have hundefined := convert_undefined hconverts (Or.inl (by decide))
  cases hundefined.unique hreturns

end Pensar.Analysis
