import Pensar.Model.StringBinary

/-!
# Strings packed into numbers and unpacked again

A round of `string_to_binary` reads as many characters as a number takes, whether or not there
are as many left.  Where there are, the number has them as its bytes, and `binary_to_string`
gives them back (`stringToBinary_inverts`).  Where there are not, the round reads the NUL behind
the string or beyond it.

Main result: `stringToBinary_roundTrips_iff`.
-/

set_option autoImplicit false

namespace Pensar.Analysis

open Pensar.Computation
open Pensar.Computation.Layout
open Pensar.Model

variable (T : DataType) {read : ℕ → Outcome C} {in_ : S}

/-- Reading that is undefined outside of the string. -/
def within (in_ : S) (k : ℕ) : Outcome C :=
  if h : k < in_.length then .value in_[k] else .undefined

/-- In the string, the characters of the string are read. -/
def Reads (read : ℕ → Outcome C) (in_ : S) : Prop :=
  ∀ k (h : k < in_.length), read k = .value in_[k]

theorem reads_subscript (in_ : S) : Reads (subscript in_) in_ := fun _ h => dif_pos h

theorem reads_within (in_ : S) : Reads (within in_) in_ := fun _ h => dif_pos h

/-! ## One number -/

theorem getElem_eq_of_append {pre post : S} {j : ℕ} {bytes : S} (h : in_ = pre ++ bytes ++ post)
    (hj : j < bytes.length) :
    ∃ hlt : pre.length + j < in_.length, in_[pre.length + j] = bytes[j] := by
  subst h
  refine ⟨by simp only [List.length_append]; omega, ?_⟩
  rw [List.getElem_append_left (by rw [List.length_append]; omega),
    List.getElem_append_right (Nat.le_add_right _ _)]
  simp only [Nat.add_sub_cancel_left]

/-- The first rounds of the inner loop. -/
theorem packNumber_rounds (hread : Reads read in_) {pre bytes post : S}
    (h : in_ = pre ++ bytes ++ post) (hlen : bytes.length = T.sizeof) (m : ℕ) (hm : m ≤ T.sizeof) :
    ∃ byte : T.Number,
      (List.range m).foldlM (fun (byte : T.Number) j => do
        let c ← read (pre.length + j)
        pure (byte ||| c.toBitVec.setWidth (8 * T.sizeof) <<< (j * 8))) 0 = .value byte ∧
      byte.toNat = leValue (bytes.take m) := by
  induction m with
  | zero => exact ⟨0, rfl, BitVec.toNat_zero⟩
  | succ m ih =>
    obtain ⟨byte, hbyte, hvalue⟩ := ih (by omega)
    obtain ⟨hlt, hchar⟩ := getElem_eq_of_append h (j := m) (by omega)
    have hmlt : m < bytes.length := by omega
    have htake : (bytes.take m).length = m := by
      rw [List.length_take, Nat.min_eq_left hmlt.le]
    refine ⟨byte ||| (bytes[m].toBitVec.setWidth (8 * T.sizeof) <<< (m * 8)), ?_, ?_⟩
    · rw [List.range_succ, List.foldlM_append, hbyte, Outcome.value_bind, List.foldlM_cons,
        hread _ hlt, hchar]
      rfl
    · have hnext := toNat_or_shiftLeft hvalue (by omega) bytes[m]
      rw [htake] at hnext
      rw [hnext, List.take_succ_eq_append_getElem hmlt]

/-- **A round inside the string** packs the characters that come next. -/
theorem packNumber_inside (hread : Reads read in_) {pre bytes post : S}
    (h : in_ = pre ++ bytes ++ post) (hlen : bytes.length = T.sizeof) :
    ∃ byte, packNumber T read pre.length = .value byte ∧ binaryToString T [byte] = bytes := by
  obtain ⟨byte, hbyte, hvalue⟩ := packNumber_rounds T hread h hlen T.sizeof (Nat.le_refl _)
  refine ⟨byte, hbyte, ?_⟩
  rw [List.take_of_length_le hlen.le] at hvalue
  have hbytes := leBytes_leValue bytes
  rw [hlen, ← hvalue, leBytes_eq_map] at hbytes
  rw [binaryToString, List.flatMap_singleton]
  conv_rhs => rw [← hbytes]
  apply List.map_congr_left
  intro i _
  apply UInt8.toNat_inj.mp
  rw [UInt8.toNat_ofBitVec, BitVec.toNat_setWidth, BitVec.toNat_ushiftRight, UInt8.toNat_ofNat']

/-- A round that reads nothing outside of the string. -/
theorem le_length_of_packNumber {i : ℕ} {byte : T.Number}
    (h : packNumber T (within in_) i = .value byte) : i + T.sizeof ≤ in_.length := by
  obtain ⟨m, hm⟩ : ∃ m, T.sizeof = m + 1 := ⟨T.sizeof - 1, by have := T.sizeof_pos; omega⟩
  have hrange : List.range T.sizeof = List.range m ++ [m] := by rw [hm, List.range_succ]
  rw [packNumber, hrange, List.foldlM_append, Outcome.bind_eq_value_iff] at h
  obtain ⟨byte', -, hlast⟩ := h
  rw [List.foldlM_cons, bind_assoc, Outcome.bind_eq_value_iff] at hlast
  obtain ⟨c, hc, -⟩ := hlast
  by_contra hle
  rw [within, dif_neg (by omega)] at hc
  cases hc

/-! ## All numbers -/

theorem binaryToString_append (data data' : List T.Number) :
    binaryToString T (data ++ data') = binaryToString T data ++ binaryToString T data' :=
  List.flatMap_append

/-- From the index behind `pre` on, with as many characters left as some numbers take. -/
theorem stringToBinaryLoop_inside (hread : Reads read in_) {pre post : S} (h : in_ = pre ++ post)
    (hdvd : T.sizeof ∣ post.length) (out : List T.Number) :
    ∃ data, stringToBinaryLoop T read in_.length pre.length out = .value (out ++ data) ∧
      binaryToString T data = post := by
  obtain ⟨n, hn⟩ := hdvd
  induction n generalizing pre post out with
  | zero =>
    obtain rfl : post = [] := List.length_eq_zero_iff.mp hn
    refine ⟨[], ?_, rfl⟩
    rw [stringToBinaryLoop, if_neg (by rw [h, List.append_nil]; exact Nat.lt_irrefl _),
      List.append_nil]
  | succ n ih =>
    have hpos := T.sizeof_pos
    rw [Nat.mul_succ] at hn
    have hbytes : (post.take T.sizeof).length = T.sizeof := by
      rw [List.length_take]
      omega
    have hsplit : in_ = pre ++ post.take T.sizeof ++ post.drop T.sizeof := by
      rw [List.append_assoc, List.take_append_drop, h]
    obtain ⟨byte, hbyte, hunpack⟩ := packNumber_inside T hread hsplit hbytes
    obtain ⟨data, hdata, hrest⟩ := ih hsplit (out ++ [byte]) (by rw [List.length_drop]; omega)
    rw [List.length_append, hbytes, List.append_assoc] at hdata
    refine ⟨byte :: data, ?_, ?_⟩
    · rw [stringToBinaryLoop, if_pos (by rw [h, List.length_append]; omega), hbyte,
        Outcome.value_bind, hdata]
      rfl
    · rw [← List.singleton_append, binaryToString_append, hunpack, hrest, List.take_append_drop]

/-- The loop reads nothing outside of the string only if the string ends with a number. -/
theorem dvd_of_stringToBinaryLoop {i : ℕ} (hi : i ≤ in_.length) {out data : List T.Number}
    (h : stringToBinaryLoop T (within in_) in_.length i out = .value data) :
    T.sizeof ∣ in_.length - i := by
  have hpos := T.sizeof_pos
  induction hd : in_.length - i using Nat.strong_induction_on generalizing i out with
  | _ d ih =>
    rw [stringToBinaryLoop] at h
    split at h
    case isFalse hge =>
      obtain rfl : d = 0 := by omega
      exact Nat.dvd_zero _
    case isTrue hlt =>
      obtain ⟨byte, hbyte, hrest⟩ := (Outcome.bind_eq_value_iff _ _ _).mp h
      have hle := le_length_of_packNumber T hbyte
      have hdvd := ih (in_.length - (i + T.sizeof)) (by omega) hle hrest rfl
      obtain rfl : d = in_.length - (i + T.sizeof) + T.sizeof := by omega
      exact (Nat.dvd_add_left (Nat.dvd_refl _)).mpr hdvd

/-- **The inverse**, of the packing of a string that numbers fill. -/
theorem stringToBinary_inverts (hread : Reads read in_) (hdvd : T.sizeof ∣ in_.length) :
    ∃ data, stringToBinaryLoop T read in_.length 0 [] = .value data ∧
      binaryToString T data = in_ := by
  obtain ⟨data, hdata, hstring⟩ := stringToBinaryLoop_inside T hread
    (show in_ = [] ++ in_ from rfl) hdvd []
  exact ⟨data, hdata, hstring⟩

/-- `string_to_binary` does not read outside of the string, and `binary_to_string` undoes it. -/
def RoundTrips (in_ : S) : Prop :=
  (∃ data, stringToBinaryLoop T (within in_) in_.length 0 [] = .value data) ∧
    ∃ data, stringToBinary T in_ = .value data ∧ binaryToString T data = in_

/-- **Packing and unpacking**: right for the strings whose length is a multiple of the width. -/
theorem stringToBinary_roundTrips_iff (in_ : S) : RoundTrips T in_ ↔ T.sizeof ∣ in_.length := by
  constructor
  · rintro ⟨⟨data, hdata⟩, -⟩
    exact dvd_of_stringToBinaryLoop T (Nat.zero_le _) hdata
  · intro hdvd
    obtain ⟨data, hdata, -⟩ := stringToBinary_inverts T (reads_within in_) hdvd
    exact ⟨⟨data, hdata⟩, stringToBinary_inverts T (reads_subscript in_) hdvd⟩

/-- One character in a number of two. -/
theorem not_roundTrips_letter : ¬ ∀ (T : DataType) (in_ : S), RoundTrips T in_ := by
  intro h
  obtain ⟨⟨data, hdata⟩, -⟩ := h .uint16 (W "a")
  exact absurd (dvd_of_stringToBinaryLoop .uint16 (Nat.zero_le _) hdata) (by decide)

end Pensar.Analysis
