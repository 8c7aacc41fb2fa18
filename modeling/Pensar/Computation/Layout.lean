import Mathlib.Tactic

/-!
# Fixed-width byte layouts

A `Layout α` is a type seen as a block of memory: every value is a byte string of
one width, every byte string of that width is a value, and the two directions undo
each other.  Layouts are closed under products (`Layout.prod`) and under renaming
the values (`Layout.map`), so the layout of a record is assembled from the layouts
of its fields in the order they lie in memory.

The leaves are single bytes, byte strings of a fixed length and little-endian words.
-/

set_option autoImplicit false

namespace Pensar.Computation

/-- One addressable unit of memory. -/
abbrev Byte := UInt8

/-- A type whose values are exactly the byte strings of one width: trivially
copyable, without padding, every object representation unique. -/
structure Layout (α : Type) where
  width : ℕ
  encode : α → List Byte
  decode : List Byte → α
  encode_length : ∀ x, (encode x).length = width
  decode_encode : ∀ x, decode (encode x) = x
  encode_decode : ∀ bytes, bytes.length = width → encode (decode bytes) = bytes

namespace Layout

attribute [simp] encode_length decode_encode

variable {α β : Type}

/-- On byte strings of the right length, decoding to `x` and being the bytes of `x`
are the same thing. -/
theorem decode_eq_iff (L : Layout α) {bytes : List Byte} (h : bytes.length = L.width) (x : α) :
    L.decode bytes = x ↔ bytes = L.encode x := by
  constructor
  · rintro rfl
    exact (L.encode_decode bytes h).symm
  · rintro rfl
    exact L.decode_encode x

/-- The same memory, its values renamed along a bijection. -/
def map (L : Layout α) (e : α ≃ β) : Layout β where
  width := L.width
  encode y := L.encode (e.symm y)
  decode bytes := e (L.decode bytes)
  encode_length y := L.encode_length _
  decode_encode y := by simp
  encode_decode bytes h := by simpa using L.encode_decode bytes h

@[simp] theorem map_width (L : Layout α) (e : α ≃ β) : (L.map e).width = L.width := rfl

/-- Two members, one after the other, with no padding in between. -/
def prod (L : Layout α) (M : Layout β) : Layout (α × β) where
  width := L.width + M.width
  encode x := L.encode x.1 ++ M.encode x.2
  decode bytes := (L.decode (bytes.take L.width), M.decode (bytes.drop L.width))
  encode_length x := by simp
  decode_encode x := by
    have hl : (L.encode x.1).length = L.width := L.encode_length _
    rw [← hl]
    simp
  encode_decode bytes h := by
    have ht : (bytes.take L.width).length = L.width := by simp; omega
    have hd : (bytes.drop L.width).length = M.width := by simp; omega
    rw [L.encode_decode _ ht, M.encode_decode _ hd, List.take_append_drop]

@[simp] theorem prod_width (L : Layout α) (M : Layout β) :
    (L.prod M).width = L.width + M.width := rfl

def byte : Layout Byte where
  width := 1
  encode b := [b]
  decode bytes := bytes.headD 0
  encode_length _ := rfl
  decode_encode _ := rfl
  encode_decode bytes h := by
    match bytes, h with
    | [b], _ => rfl

@[simp] theorem byte_width : byte.width = 1 := rfl

def bytes (n : ℕ) : Layout { l : List Byte // l.length = n } where
  width := n
  encode a := a.val
  decode l := if h : l.length = n then ⟨l, h⟩ else ⟨List.replicate n 0, by simp⟩
  encode_length a := a.property
  decode_encode a := by simp [a.property]
  encode_decode l h := by simp [h]

@[simp] theorem bytes_width (n : ℕ) : (bytes n).width = n := rfl

/-! ## Arrays -/

section Arrays

variable (L : Layout α)

/-- The elements one after the other. -/
def encodeAll (xs : List α) : List Byte := xs.flatMap L.encode

theorem encodeAll_nil : L.encodeAll [] = [] := rfl

theorem encodeAll_cons (x : α) (xs : List α) :
    L.encodeAll (x :: xs) = L.encode x ++ L.encodeAll xs := rfl

theorem length_encodeAll (xs : List α) : (L.encodeAll xs).length = xs.length * L.width := by
  induction xs with
  | nil => rw [encodeAll_nil, List.length_nil, List.length_nil, Nat.zero_mul]
  | cons x xs ih =>
    rw [encodeAll_cons, List.length_append, L.encode_length, ih, List.length_cons, Nat.succ_mul,
      Nat.add_comm]

/-- The bytes of the first elements. -/
theorem take_encodeAll (n : ℕ) (xs : List α) :
    (L.encodeAll xs).take (n * L.width) = L.encodeAll (xs.take n) := by
  induction n generalizing xs with
  | zero => rw [Nat.zero_mul, List.take_zero, List.take_zero, encodeAll_nil]
  | succ n ih =>
    cases xs with
    | nil => rw [List.take_nil, encodeAll_nil, List.take_nil]
    | cons x xs =>
      have hlen : (n + 1) * L.width = (L.encode x).length + n * L.width := by
        rw [L.encode_length, Nat.succ_mul, Nat.add_comm]
      rw [List.take_succ_cons, encodeAll_cons, encodeAll_cons, hlen, List.take_length_add_append,
        ih]

theorem encodeAll_inj {xs ys : List α} (hlen : xs.length = ys.length)
    (h : L.encodeAll xs = L.encodeAll ys) : xs = ys := by
  induction xs generalizing ys with
  | nil => exact (List.length_eq_zero_iff.mp hlen.symm).symm
  | cons x xs ih =>
    cases ys with
    | nil => cases hlen
    | cons y ys =>
      have hwidth : (L.encode x).length = (L.encode y).length := by
        rw [L.encode_length, L.encode_length]
      obtain ⟨hhead, htail⟩ := List.append_inj h hwidth
      have hxy : x = y := by rw [← L.decode_encode x, hhead, L.decode_encode]
      rw [hxy, ih (Nat.succ.inj hlen) htail]

end Arrays

/-! ## Little-endian words -/

/-- The low `k` bytes of a number, least significant first. -/
def leBytes : ℕ → ℕ → List Byte
  | 0, _ => []
  | k + 1, v => UInt8.ofNat v :: leBytes k (v / 256)

/-- The number that little-endian bytes spell. -/
def leValue : List Byte → ℕ
  | [] => 0
  | b :: bs => b.toNat + 256 * leValue bs

@[simp] theorem leBytes_length (k v : ℕ) : (leBytes k v).length = k := by
  induction k generalizing v with
  | zero => rfl
  | succ k ih => simp [leBytes, ih]

theorem leValue_lt (bs : List Byte) : leValue bs < 256 ^ bs.length := by
  induction bs with
  | nil => simp [leValue]
  | cons b bs ih =>
    have hb : b.toNat < 256 := b.toNat_lt
    simp only [leValue, List.length_cons, pow_succ]
    omega

theorem leValue_leBytes (k v : ℕ) : leValue (leBytes k v) = v % 256 ^ k := by
  induction k generalizing v with
  | zero => simp [leBytes, leValue, Nat.mod_one]
  | succ k ih =>
    have hb : (UInt8.ofNat v).toNat = v % 256 := by simp
    rw [leBytes, leValue, ih, hb, pow_succ, mul_comm (256 ^ k) 256, Nat.mod_mul]

theorem leBytes_leValue (bs : List Byte) : leBytes bs.length (leValue bs) = bs := by
  induction bs with
  | nil => rfl
  | cons b bs ih =>
    have hb : b.toNat < 256 := b.toNat_lt
    have hhead : UInt8.ofNat (b.toNat + 256 * leValue bs) = b := by
      apply UInt8.toNat_inj.mp
      simp only [UInt8.toNat_ofNat']
      omega
    have htail : (b.toNat + 256 * leValue bs) / 256 = leValue bs := by omega
    simp only [List.length_cons, leBytes, leValue, hhead, htail, ih]

theorem bytes_pow {w n : ℕ} (h : w = 8 * n) : 256 ^ n = 2 ^ w := by
  rw [h, pow_mul]
  norm_num

/-- Every byte of a number by a shift. -/
theorem leBytes_eq_map (k v : ℕ) :
    leBytes k v = (List.range k).map fun i => UInt8.ofNat (v >>> (i * 8)) := by
  induction k generalizing v with
  | zero => rfl
  | succ k ih =>
    rw [leBytes, ih, List.range_succ_eq_map, List.map_cons, List.map_map]
    congr 1
    apply List.map_congr_left
    intro i _
    have hshift : v / 256 = v >>> 8 := (Nat.shiftRight_eq_div_pow v 8).symm
    rw [hshift, ← Nat.shiftRight_add, Function.comp_apply, Nat.succ_mul, Nat.add_comm]

theorem leValue_append (bs cs : List Byte) :
    leValue (bs ++ cs) = leValue bs + 256 ^ bs.length * leValue cs := by
  induction bs with
  | nil => rw [List.nil_append, leValue, List.length_nil, pow_zero, Nat.one_mul, Nat.zero_add]
  | cons b bs ih =>
    rw [List.cons_append, leValue, leValue, ih, List.length_cons, pow_succ]
    ring

/-- One more byte, shifted to its place. -/
theorem leValue_or_shiftLeft (bs : List Byte) (b : Byte) :
    leValue bs ||| b.toNat <<< (bs.length * 8) = leValue (bs ++ [b]) := by
  have hlt : leValue bs < 2 ^ (bs.length * 8) := by
    rw [Nat.mul_comm, ← bytes_pow rfl]
    exact leValue_lt bs
  rw [Nat.or_comm, ← Nat.shiftLeft_add_eq_or_of_lt hlt, leValue_append, Nat.shiftLeft_eq,
    Nat.mul_comm bs.length, ← bytes_pow rfl, leValue, leValue]
  ring

/-- The same in a word that has room for the byte. -/
theorem toNat_or_shiftLeft {n : ℕ} {v : BitVec (8 * n)} {bs : List Byte}
    (hv : v.toNat = leValue bs) (hlen : bs.length < n) (b : Byte) :
    (v ||| b.toBitVec.setWidth (8 * n) <<< (bs.length * 8)).toNat = leValue (bs ++ [b]) := by
  have hor := leValue_or_shiftLeft bs b
  have hbound : leValue (bs ++ [b]) < 2 ^ (8 * n) := by
    have hlt := leValue_lt (bs ++ [b])
    rw [List.length_append, List.length_singleton] at hlt
    rw [← bytes_pow rfl]
    exact hlt.trans_le (Nat.pow_le_pow_right (by norm_num) hlen)
  have hcast : b.toNat % 2 ^ (8 * n) = b.toNat := by
    have hb : b.toNat < 2 ^ 8 := b.toNat_lt
    exact Nat.mod_eq_of_lt (hb.trans_le (Nat.pow_le_pow_right (by norm_num) (by omega)))
  have hshift : b.toNat <<< (bs.length * 8) < 2 ^ (8 * n) := by
    rw [← hor] at hbound
    exact lt_of_le_of_lt Nat.right_le_or hbound
  rw [BitVec.toNat_or, BitVec.toNat_shiftLeft, BitVec.toNat_setWidth, UInt8.toNat_toBitVec, hcast,
    Nat.mod_eq_of_lt hshift, hv, hor]

/-- Byte strings of one length are told apart by their values. -/
theorem leValue_inj {bs cs : List Byte} (hlen : bs.length = cs.length) :
    leValue bs = leValue cs ↔ bs = cs := by
  constructor
  · intro h
    rw [← leBytes_leValue bs, h, hlen, leBytes_leValue]
  · rintro rfl
    rfl

/-- A word of `w = 8 * n` bits, least significant byte first. -/
def littleEndian (w n : ℕ) (h : w = 8 * n) : Layout (BitVec w) where
  width := n
  encode v := leBytes n v.toNat
  decode l := BitVec.ofNat w (leValue l)
  encode_length v := leBytes_length n _
  decode_encode v := by
    have hv : v.toNat < 256 ^ n := bytes_pow h ▸ v.isLt
    simp [leValue_leBytes, Nat.mod_eq_of_lt hv]
  encode_decode l hl := by
    have hv : leValue l < 2 ^ w := by
      rw [← bytes_pow h, ← hl]
      exact leValue_lt l
    rw [BitVec.toNat_ofNat, Nat.mod_eq_of_lt hv, ← hl, leBytes_leValue]

@[simp] theorem littleEndian_width (w n : ℕ) (h : w = 8 * n) :
    (littleEndian w n h).width = n := rfl

def int16 : Layout (BitVec 16) := littleEndian 16 2 rfl

def int64 : Layout (BitVec 64) := littleEndian 64 8 rfl

end Layout

end Pensar.Computation
