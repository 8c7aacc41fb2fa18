import Mathlib.Tactic

/-!
# Decimal numerals

`numeral n` is the number as bytes of text, most significant digit first.  It is the text that
has `n` as its value and does not start with a `0` unless it is `0` (`isNumeral_numeral`).  In
front of anything but a digit it is the longest text of digits (`takeWhile_numeral`).
-/

set_option autoImplicit false

namespace Pensar.Computation.Decimal

def isDecimal (c : UInt8) : Bool := 48 ≤ c && c ≤ 57

def numeral (n : ℕ) : List UInt8 := (Nat.toDigits 10 n).map fun c => UInt8.ofNat c.toNat

/-- The number with a sign in front of it if it is negative. -/
def integer (n : ℤ) : List UInt8 := if n < 0 then 45 :: numeral n.natAbs else numeral n.natAbs

/-- The value of a text of digits, after digits with the value `v`. -/
def valueFrom (v : ℕ) (cs : List UInt8) : ℕ := cs.foldl (fun v c => 10 * v + (c.toNat - 48)) v

def value (cs : List UInt8) : ℕ := valueFrom 0 cs

/-- The text is the way in which the number is written. -/
structure IsNumeral (cs : List UInt8) (n : ℕ) : Prop where
  ne_nil : cs ≠ []
  digits : ∀ c ∈ cs, isDecimal c = true
  head : cs.head? = some 48 → cs = [48]
  value : value cs = n

variable {n : ℕ}

theorem isDecimal_iff {c : UInt8} : isDecimal c = true ↔ 48 ≤ c.toNat ∧ c.toNat ≤ 57 := by
  rw [isDecimal, Bool.and_eq_true, decide_eq_true_iff, decide_eq_true_iff, UInt8.le_iff_toNat_le,
    UInt8.le_iff_toNat_le]
  exact Iff.rfl

theorem toNat_digitChar (h : n < 10) : (UInt8.ofNat n.digitChar.toNat).toNat = 48 + n := by
  rw [Nat.toNat_digitChar_of_lt_ten h, UInt8.toNat_ofNat', Nat.mod_eq_of_lt (by omega)]

theorem numeral_of_lt (h : n < 10) : numeral n = [UInt8.ofNat n.digitChar.toNat] := by
  rw [numeral, Nat.toDigits_of_lt_base h]
  rfl

theorem numeral_of_ge (h : 10 ≤ n) :
    numeral n = numeral (n / 10) ++ [UInt8.ofNat (n % 10).digitChar.toNat] := by
  rw [numeral, Nat.toDigits_of_base_le (by omega) h, List.map_append]
  rfl

theorem numeral_ne_nil : numeral n ≠ [] := fun h => Nat.toDigits_ne_nil (List.map_eq_nil_iff.mp h)

theorem valueFrom_append (v : ℕ) (cs ds : List UInt8) :
    valueFrom v (cs ++ ds) = valueFrom (valueFrom v cs) ds := List.foldl_append

/-- The digits from the last one on. -/
theorem numeral_induction {P : ℕ → Prop} (last : ∀ n < 10, P n) (more : ∀ n ≥ 10, P (n / 10) → P n)
    (n : ℕ) : P n := by
  induction n using Nat.strong_induction_on with
  | _ n ih =>
    by_cases h : n < 10
    · exact last n h
    · exact more n (by omega) (ih (n / 10) (by omega))

theorem isDecimal_of_mem_numeral {c : UInt8} (hc : c ∈ numeral n) : isDecimal c = true := by
  have hdigit (d : ℕ) (hd : d < 10) : isDecimal (UInt8.ofNat d.digitChar.toNat) = true := by
    rw [isDecimal_iff, toNat_digitChar hd]
    omega
  induction n using numeral_induction with
  | last n h =>
    rw [numeral_of_lt h, List.mem_singleton] at hc
    exact hc ▸ hdigit n h
  | more n h ih =>
    rw [numeral_of_ge h, List.mem_append, List.mem_singleton] at hc
    rcases hc with hc | hc
    · exact ih hc
    · exact hc ▸ hdigit (n % 10) (Nat.mod_lt n (by omega))

@[simp] theorem value_numeral (n : ℕ) : value (numeral n) = n := by
  induction n using numeral_induction with
  | last n h =>
    rw [numeral_of_lt h, value, valueFrom, List.foldl_cons, List.foldl_nil, toNat_digitChar h]
    omega
  | more n h ih =>
    rw [value] at ih
    rw [numeral_of_ge h, value, valueFrom_append, ih, valueFrom, List.foldl_cons, List.foldl_nil,
      toNat_digitChar (Nat.mod_lt n (by omega))]
    omega

theorem head?_numeral (h : 0 < n) : (numeral n).head? ≠ some 48 := by
  induction n using numeral_induction with
  | last n hlt =>
    rw [numeral_of_lt hlt, List.head?_cons, ne_eq, Option.some.injEq]
    intro heq
    have hnat := congrArg UInt8.toNat heq
    rw [toNat_digitChar hlt] at hnat
    change 48 + n = 48 at hnat
    omega
  | more n hge ih =>
    rw [numeral_of_ge hge, List.head?_append_of_ne_nil _ numeral_ne_nil]
    exact ih (by omega)

/-- **The text of a number.** -/
theorem isNumeral_numeral (n : ℕ) : IsNumeral (numeral n) n where
  ne_nil := numeral_ne_nil
  digits _ := isDecimal_of_mem_numeral
  head h := by
    rcases Nat.eq_zero_or_pos n with rfl | hn
    · rfl
    · exact absurd h (head?_numeral hn)
  value := value_numeral n

theorem takeWhile_of_head {rest : List UInt8}
    (h : ∀ c, rest.head? = some c → isDecimal c = false) :
    rest.takeWhile isDecimal = [] ∧ rest.dropWhile isDecimal = rest := by
  cases rest with
  | nil => exact ⟨rfl, rfl⟩
  | cons c rest =>
    have hc : ¬ isDecimal c = true := by rw [h c rfl]; decide
    exact ⟨List.takeWhile_cons_of_neg hc, List.dropWhile_cons_of_neg hc⟩

/-- **Reading a numeral back.** -/
theorem takeWhile_numeral (n : ℕ) {rest : List UInt8}
    (h : ∀ c, rest.head? = some c → isDecimal c = false) :
    (numeral n ++ rest).takeWhile isDecimal = numeral n ∧
      (numeral n ++ rest).dropWhile isDecimal = rest := by
  obtain ⟨htake, hdrop⟩ := takeWhile_of_head h
  have hall : ∀ c ∈ numeral n, isDecimal c = true := fun _ => isDecimal_of_mem_numeral
  rw [List.takeWhile_append_of_pos hall, List.dropWhile_append_of_pos hall, htake, hdrop,
    List.append_nil]
  exact ⟨rfl, rfl⟩

/-! ## Numerals of a fixed width -/

/-- With zeros in front, where the numeral is shorter than `width`. -/
def padded (width n : ℕ) : List UInt8 :=
  List.replicate (width - (numeral n).length) 48 ++ numeral n

theorem length_numeral_le {width : ℕ} (hpos : 0 < width) (h : n < 10 ^ width) :
    (numeral n).length ≤ width := by
  rw [numeral, List.length_map]
  exact (Nat.length_toDigits_le_iff (by decide) hpos).mpr h

theorem isDecimal_of_mem_padded {width : ℕ} {c : UInt8} (hc : c ∈ padded width n) :
    isDecimal c = true := by
  rcases List.mem_append.mp hc with hc | hc
  · rw [List.eq_of_mem_replicate hc]
    decide
  · exact isDecimal_of_mem_numeral hc

theorem le_length_padded (width n : ℕ) : width ≤ (padded width n).length := by
  rw [padded, List.length_append, List.length_replicate]
  omega

theorem length_padded {width : ℕ} (hpos : 0 < width) (h : n < 10 ^ width) :
    (padded width n).length = width := by
  have hle := length_numeral_le hpos h
  rw [padded, List.length_append, List.length_replicate]
  omega

theorem valueFrom_zeros (k : ℕ) : valueFrom 0 (List.replicate k 48) = 0 := by
  induction k with
  | zero => rfl
  | succ k ih =>
    rw [List.replicate_succ, valueFrom, List.foldl_cons]
    exact ih

@[simp] theorem value_padded (width n : ℕ) : value (padded width n) = n := by
  rw [padded, value, valueFrom_append, valueFrom_zeros]
  exact value_numeral n

end Pensar.Computation.Decimal
