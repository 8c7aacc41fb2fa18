import Pensar.Model.CArray

/-!
# The comparison of a range

`compare_range` refuses a range that starts or ends behind the array, but the sum of `start` and
`count` wraps around: a count that is large enough passes, and `memcmp` is then called for more
bytes than there are.

Main result: `compareRange_iff`.
-/

set_option autoImplicit false

namespace Pensar.Analysis

open Pensar.Computation
open Pensar.Model

variable {SIZE : UInt64} {T : Type} {L : Layout T}

/-- `compare_range` stays within both arrays and answers whether the range is one of the arrays
and its elements are equal. -/
def ComparesRange (self other : CArray SIZE L) (start count : UInt64) : Prop :=
  (self.compareRange other start count).Decides
    (start.toNat < SIZE.toNat ∧ start.toNat + count.toNat ≤ SIZE.toNat ∧
      ∀ p, start.toNat ≤ p → p < start.toNat + count.toNat → self.array[p]? = other.array[p]?)

variable (self other : CArray SIZE L) (start count : UInt64)

/-! ## Bytes -/

theorem length_from : (self.from_ start).length = (SIZE.toNat - start.toNat) * L.width := by
  rw [CArray.from_, L.length_encodeAll, List.length_drop, self.length_eq]

theorem toNat_sizeof {start : UInt64} (self : CArray SIZE L) (hstart : start.toNat < SIZE.toNat) :
    (UInt64.ofNat L.width).toNat = L.width := by
  have hle : 1 * L.width ≤ SIZE.toNat * L.width := Nat.mul_le_mul_right _ (by omega)
  have hlt := self.sizeof_lt
  rw [UInt64.toNat_ofNat', Nat.mod_eq_of_lt (by omega)]

/-- A range of both arrays. -/
theorem memcmp_inside (hstart : start.toNat < SIZE.toNat)
    (hend : start.toNat + count.toNat ≤ SIZE.toNat) :
    memcmpEqual (self.from_ start) (other.from_ start) (count * UInt64.ofNat L.width) =
      .value (decide ((self.from_ start).take (count.toNat * L.width) =
        (other.from_ start).take (count.toNat * L.width))) := by
  have hle : count.toNat * L.width ≤ (SIZE.toNat - start.toNat) * L.width :=
    Nat.mul_le_mul_right _ (by omega)
  have hle' : (SIZE.toNat - start.toNat) * L.width ≤ SIZE.toNat * L.width :=
    Nat.mul_le_mul_right _ (by omega)
  have hlt := self.sizeof_lt
  have hbytes : (count * UInt64.ofNat L.width).toNat = count.toNat * L.width := by
    rw [UInt64.toNat_mul, toNat_sizeof self hstart, Nat.mod_eq_of_lt (by omega)]
  rw [memcmpEqual, hbytes, length_from, length_from, if_pos ⟨hle, hle⟩]

/-- A count that makes the sum wrap around asks for more bytes than there are. -/
theorem memcmp_outside (hstart : start.toNat < SIZE.toNat)
    (hwrap : 2 ^ 64 ≤ start.toNat + count.toNat) :
    memcmpEqual (self.from_ start) (other.from_ start) (count * UInt64.ofNat L.width) =
      .undefined := by
  obtain ⟨d, hd⟩ : ∃ d, count.toNat + d = 2 ^ 64 :=
    ⟨2 ^ 64 - count.toNat, Nat.add_sub_cancel' count.toNat_lt.le⟩
  have hcount := count.toNat_lt
  have hpos : 1 * L.width ≤ d * L.width := Nat.mul_le_mul_right _ (by omega)
  have hsum : (SIZE.toNat - start.toNat) * L.width + d * L.width ≤ SIZE.toNat * L.width := by
    rw [← Nat.add_mul]
    exact Nat.mul_le_mul_right _ (by omega)
  have hsizeof := self.sizeof_pos
  have hlt := self.sizeof_lt
  have hproduct : count.toNat * L.width + d * L.width = 2 ^ 64 * L.width := by
    rw [← Nat.add_mul, hd]
  have hbytes : (count * UInt64.ofNat L.width).toNat = 2 ^ 64 - d * L.width := by
    rw [UInt64.toNat_mul, toNat_sizeof self hstart]
    omega
  rw [memcmpEqual, hbytes, length_from, if_neg]
  rintro ⟨hle, -⟩
  omega

/-- The bytes of the range are those of its elements. -/
theorem take_from_eq_iff :
    (self.from_ start).take (count.toNat * L.width) =
        (other.from_ start).take (count.toNat * L.width) ↔
      ∀ p, start.toNat ≤ p → p < start.toNat + count.toNat →
        self.array[p]? = other.array[p]? := by
  rw [CArray.from_, CArray.from_, L.take_encodeAll, L.take_encodeAll]
  have hlen : ((self.array.drop start.toNat).take count.toNat).length =
      ((other.array.drop start.toNat).take count.toNat).length := by
    rw [List.length_take, List.length_take, List.length_drop, List.length_drop, self.length_eq,
      other.length_eq]
  constructor
  · intro h p hge hlt
    have helement := congrArg (fun l : List T => l[p - start.toNat]?) (L.encodeAll_inj hlen h)
    simp only [List.getElem?_take, List.getElem?_drop] at helement
    rw [if_pos (by omega), if_pos (by omega), Nat.add_sub_cancel' hge] at helement
    exact helement
  · intro h
    congr 1
    apply List.ext_getElem?
    intro r
    rw [List.getElem?_take, List.getElem?_take, List.getElem?_drop, List.getElem?_drop]
    split
    case isTrue hr => exact h _ (Nat.le_add_right _ r) (by omega)
    case isFalse => rfl

/-! ## The guards -/

theorem compareRange_of_ge (hstart : SIZE.toNat ≤ start.toNat) :
    self.compareRange other start count = .value false := by
  have hguard : start ≥ SIZE := UInt64.le_iff_toNat_le.mpr hstart
  rw [CArray.compareRange, if_pos hguard]

/-- The second guard tests the sum as it is modulo `2 ^ 64`. -/
theorem compareRange_of_lt (hstart : start.toNat < SIZE.toNat) :
    self.compareRange other start count =
      if SIZE.toNat < (start.toNat + count.toNat) % 2 ^ 64 then .value false
      else memcmpEqual (self.from_ start) (other.from_ start) (count * UInt64.ofNat L.width) := by
  have hguard : ¬ start ≥ SIZE := by
    rw [ge_iff_le, UInt64.le_iff_toNat_le]
    exact Nat.not_le.mpr hstart
  have hsum : start + count > SIZE ↔ SIZE.toNat < (start.toNat + count.toNat) % 2 ^ 64 := by
    rw [gt_iff_lt, UInt64.lt_iff_toNat_lt, UInt64.toNat_add]
  rw [CArray.compareRange, if_neg hguard]
  simp only [hsum]

/-- **Comparison of a range**: exact and within the arrays if `start` is behind them or the sum
does not wrap around. -/
theorem compareRange_iff :
    ComparesRange self other start count ↔
      SIZE.toNat ≤ start.toNat ∨ start.toNat + count.toNat < 2 ^ 64 := by
  have hsize := SIZE.toNat_lt
  have hcount := count.toNat_lt
  rw [ComparesRange]
  by_cases hstart : start.toNat < SIZE.toNat
  · rw [compareRange_of_lt self other start count hstart]
    by_cases hwrap : 2 ^ 64 ≤ start.toNat + count.toNat
    · rw [if_neg (by omega), memcmp_outside self other start count hstart hwrap]
      apply iff_of_false
      · rintro ⟨b, hb, -⟩
        cases hb
      · omega
    · rw [Nat.mod_eq_of_lt (by omega)]
      refine iff_of_true ?_ (by omega)
      by_cases hend : start.toNat + count.toNat ≤ SIZE.toNat
      · rw [if_neg (Nat.not_lt.mpr hend), memcmp_inside self other start count hstart hend,
          Outcome.decides_value, decide_eq_true_iff, take_from_eq_iff self other start count]
        exact ⟨fun h => ⟨hstart, hend, h⟩, fun h => h.2.2⟩
      · rw [if_pos (Nat.not_le.mp hend), Outcome.decides_value]
        exact ⟨fun h => absurd h Bool.false_ne_true, fun h => absurd h.2.1 hend⟩
  · have hge : SIZE.toNat ≤ start.toNat := Nat.not_lt.mp hstart
    rw [compareRange_of_ge self other start count hge, Outcome.decides_value]
    exact iff_of_true ⟨fun h => absurd h Bool.false_ne_true, fun h => absurd h.1 hstart⟩
      (Or.inl hge)

/-- From the second of three bytes on, `2 ^ 64 - 1` of them. -/
theorem not_comparesRange_wrap :
    ¬ ∀ (self other : CArray 3 Layout.byte) (start count : UInt64),
      ComparesRange self other start count := by
  intro h
  let bytes : CArray 3 Layout.byte := ⟨[1, 2, 3], rfl, by decide, by decide⟩
  have hundefined : bytes.compareRange bytes 1 18446744073709551615 = .undefined := by decide
  obtain ⟨b, hb, -⟩ := h bytes bytes 1 18446744073709551615
  rw [hundefined] at hb
  cases hb

end Pensar.Analysis
