import Pensar.Model.MacAddress

/-!
# MAC addresses on two systems

The Linux back end copies the octets into memory, where the first one is the least significant;
the macOS back end shifts them, the first one to the most significant place.  The string form
starts with the most significant octet.  So the two agree on the addresses that are the same
from back to front, and on the others Linux shows the octets from back to front.

Main result: `macAddress_same_iff`.
-/

set_option autoImplicit false

namespace Pensar.Analysis

open Pensar.Computation
open Pensar.Computation.Layout
open Pensar.Model

/-! ## The string form -/

def hexDigit (d : ℕ) : C := (W "0123456789abcdef").getD d 0

/-- The octets as two-digit hexadecimal numbers, separated by colons. -/
def listOctets (octets : List Byte) : S :=
  (W ":").intercalate (octets.map fun b => [hexDigit (b.toNat / 16), hexDigit (b.toNat % 16)])

theorem digitChar_eq_hexDigit {d : ℕ} (h : d < 16) :
    UInt8.ofNat d.digitChar.toNat = hexDigit d := by
  interval_cases d <;> decide

theorem formatHex02_eq {n : BitVec 64} (h : n.toNat < 256) :
    formatHex02 n = [hexDigit (n.toNat / 16), hexDigit (n.toNat % 16)] := by
  have hlast : n.toNat % 16 < 16 := Nat.mod_lt _ (by decide)
  rw [formatHex02]
  by_cases hn : n.toNat < 16
  · have hfirst : hexDigit (n.toNat / 16) = Wc '0' := by
      rw [Nat.div_eq_of_lt hn]
      decide
    rw [Nat.toDigits_of_lt_base hn, Nat.mod_eq_of_lt hn, hfirst, ← digitChar_eq_hexDigit hn]
    rfl
  · have hfirst : n.toNat / 16 < 16 := by omega
    rw [Nat.toDigits_of_base_le (by decide) (Nat.not_lt.mp hn), Nat.toDigits_of_lt_base hfirst,
      ← digitChar_eq_hexDigit hfirst, ← digitChar_eq_hexDigit hlast]
    rfl

/-- An octet of an address of 48 bits. -/
theorem toNat_octet {mac : BitVec 64} (h : mac.toNat < 2 ^ 48) (s : ℕ) :
    (mac.sshiftRight s &&& 0xff).toNat = mac.toNat / 2 ^ s % 256 := by
  have hmsb : mac.msb = false := by
    rw [BitVec.msb_eq_false_iff_two_mul_lt]
    omega
  rw [BitVec.sshiftRight_eq_of_msb_false hmsb, BitVec.toNat_and, BitVec.toNat_ushiftRight,
    Nat.shiftRight_eq_div_pow]
  exact Nat.and_two_pow_sub_one_eq_mod _ 8

/-- The most significant octet comes first. -/
theorem toString_eq {self : MacAddress} {octets : List Byte} (hlen : octets.length = 6)
    (h : self.mac.toNat = leValue octets.reverse) : self.toString = listOctets octets := by
  match octets, hlen with
  | [a, b, c, d, e, f], _ =>
    have hvalue : self.mac.toNat = f.toNat + 256 * (e.toNat + 256 * (d.toNat + 256 * (c.toNat +
        256 * (b.toNat + 256 * (a.toNat + 256 * 0))))) := h
    have ha := a.toNat_lt
    have hb := b.toNat_lt
    have hc := c.toNat_lt
    have hd := d.toNat_lt
    have he := e.toNat_lt
    have hf := f.toNat_lt
    have hlt : self.mac.toNat < 2 ^ 48 := by omega
    have hformat : ∀ (s : ℕ) (x : Byte), self.mac.toNat / 2 ^ s % 256 = x.toNat →
        formatHex02 (self.mac.sshiftRight s &&& 0xff) =
          [hexDigit (x.toNat / 16), hexDigit (x.toNat % 16)] := by
      intro s x hx
      have hoctet := toNat_octet hlt s
      rw [formatHex02_eq (by rw [hoctet, hx]; exact x.toNat_lt), hoctet, hx]
    have hzero : self.mac.sshiftRight 0 = self.mac := BitVec.sshiftRight_zero
    rw [MacAddress.toString, hformat 40 a (by omega), hformat 32 b (by omega),
      hformat 24 c (by omega), hformat 16 d (by omega), hformat 8 e (by omega)]
    rw [← hzero, hformat 0 f (by omega)]
    rfl

/-! ## The addresses -/

/-- On Linux the first octet is the least significant. -/
theorem toNat_linux (uninitialized : BitVec 64) (octets : Vector Byte 6) :
    (Linux.macAddress uninitialized octets).mac.toNat = leValue octets.toList := by
  have hlen : octets.toList.length = 6 := Vector.length_toList
  obtain ⟨rest, hrest⟩ : ∃ rest, rest = (Layout.int64.encode uninitialized).drop 6 := ⟨_, rfl⟩
  have hrestlen : rest.length = 2 := by
    rw [hrest, List.length_drop, Layout.int64.encode_length]
    rfl
  have hbytes : memcpyAt (Layout.int64.encode uninitialized) 0 octets.toList =
      octets.toList ++ rest := by
    rw [memcpyAt, List.take_zero, List.nil_append, hlen, hrest]
  have hvalue := leValue_lt (octets.toList ++ rest)
  rw [List.length_append, hlen, hrestlen] at hvalue
  have hoctets := leValue_lt octets.toList
  rw [hlen] at hoctets
  have hdecode : (Layout.int64.decode (octets.toList ++ rest)).toNat =
      leValue (octets.toList ++ rest) := by
    change (BitVec.ofNat 64 (leValue (octets.toList ++ rest))).toNat = _
    rw [BitVec.toNat_ofNat, Nat.mod_eq_of_lt (by omega)]
  have hmask : (leValue (octets.toList ++ rest)) &&& (2 ^ 48 - 1) = leValue octets.toList := by
    rw [Nat.and_two_pow_sub_one_eq_mod, leValue_append, hlen]
    omega
  rw [Linux.macAddress]
  simp only [hbytes]
  rw [BitVec.toNat_and, hdecode]
  exact hmask

/-- One more octet behind those that are shifted. -/
theorem shift_or (a s : ℕ) (b : Byte) :
    a <<< (s + 8) ||| b.toNat <<< s = (a * 256 + b.toNat) <<< s := by
  have hor := Nat.shiftLeft_add_eq_or_of_lt b.toNat_lt a
  rw [Nat.add_comm s 8, Nat.shiftLeft_add, ← Nat.shiftLeft_or_distrib, ← hor,
    Nat.shiftLeft_eq a 8]

theorem toNat_shifted (b : Byte) {s : ℕ} (hs : s ≤ 40) :
    (b.toBitVec.setWidth 64 <<< s).toNat = b.toNat <<< s := by
  have hb : b.toNat < 2 ^ 8 := b.toNat_lt
  have hlt : b.toNat <<< s < 2 ^ 64 := by
    rw [Nat.shiftLeft_eq]
    calc b.toNat * 2 ^ s ≤ 2 ^ 8 * 2 ^ 40 :=
          Nat.mul_le_mul hb.le (Nat.pow_le_pow_right (by decide) hs)
      _ < 2 ^ 64 := by decide
  have hcast : b.toNat % 2 ^ 64 = b.toNat := Nat.mod_eq_of_lt (by omega)
  rw [BitVec.toNat_shiftLeft, BitVec.toNat_setWidth, UInt8.toNat_toBitVec, hcast,
    Nat.mod_eq_of_lt hlt]

/-- On macOS the first octet is the most significant. -/
theorem toNat_macOS {octets : Vector Byte 6} (h : ∃ b ∈ octets.toList, b ≠ 0) :
    ∃ self, MacOS.macAddress octets = some self ∧
      self.mac.toNat = leValue octets.toList.reverse := by
  have hlist : octets.toList =
      [octets[0], octets[1], octets[2], octets[3], octets[4], octets[5]] := by
    apply List.ext_getElem
    · rw [Vector.length_toList]
      rfl
    · intro i hi _
      rw [Vector.length_toList] at hi
      rw [Vector.getElem_toList]
      interval_cases i <;> rfl
  have hnonzero : (octets[0] ≠ 0 || octets[1] ≠ 0 || octets[2] ≠ 0 || octets[3] ≠ 0 ||
      octets[4] ≠ 0 || octets[5] ≠ 0) = true := by
    obtain ⟨b, hb, hne⟩ := h
    rw [hlist] at hb
    simp only [List.mem_cons, List.not_mem_nil, or_false] at hb
    simp only [Bool.or_eq_true, decide_eq_true_iff]
    rcases hb with rfl | rfl | rfl | rfl | rfl | rfl <;> simp [hne]
  rw [MacOS.macAddress, if_pos hnonzero]
  refine ⟨_, rfl, ?_⟩
  have hlast : (octets[5].toBitVec.setWidth 64).toNat = octets[5].toNat <<< 0 := by
    rw [← toNat_shifted octets[5] (Nat.zero_le 40), BitVec.shiftLeft_zero]
  rw [BitVec.toNat_or, BitVec.toNat_or, BitVec.toNat_or, BitVec.toNat_or, BitVec.toNat_or,
    toNat_shifted _ (by norm_num), toNat_shifted _ (by norm_num), toNat_shifted _ (by norm_num),
    toNat_shifted _ (by norm_num), toNat_shifted _ (by norm_num), hlast]
  rw [shift_or _ 32, shift_or _ 24, shift_or _ 16, shift_or _ 8, shift_or _ 0, hlist]
  simp only [List.reverse_cons, List.reverse_nil, List.nil_append, List.cons_append, leValue,
    Nat.shiftLeft_zero]
  omega

/-! ## Both systems -/

/-- An interface that is not the loopback. -/
def onLinux (octets : Vector Byte 6) (uninitialized : BitVec 64) : Linux.Ifreq :=
  ⟨some false, some octets, uninitialized⟩

/-- An Ethernet interface. -/
def onMacOS (octets : Vector Byte 6) : MacOS.IfMsghdr := ⟨true, 6, octets⟩

theorem macAddresses_onMacOS {octets : Vector Byte 6} {self : MacAddress}
    (h : MacOS.macAddress octets = some self) : MacOS.macAddresses [onMacOS octets] = [self] := by
  simp only [MacOS.macAddresses, onMacOS, List.filterMap_cons, List.filterMap_nil, h,
    Bool.true_and, decide_true, if_true]

/-- The back ends build one address from the octets, and its string form lists them. -/
def SameEverywhere (octets : Vector Byte 6) : Prop :=
  ∀ uninitialized, ∃ self,
    Linux.macAddresses [onLinux octets uninitialized] = [self] ∧
      MacOS.macAddresses [onMacOS octets] = [self] ∧ self.toString = listOctets octets.toList

/-- What the back ends build is the same for octets that are the same from back to front
only. -/
theorem reverse_eq_of_same {octets : Vector Byte 6} (h : ∃ b ∈ octets.toList, b ≠ 0)
    (hsame : SameEverywhere octets) : octets.toList.reverse = octets.toList := by
  obtain ⟨macOS, hmacOS, hvalue⟩ := toNat_macOS h
  obtain ⟨self, hself, hself', -⟩ := hsame 0
  have hlinux : Linux.macAddress 0 octets = self := (List.cons.inj hself).1
  rw [macAddresses_onMacOS hmacOS, ← hlinux] at hself'
  rw [(List.cons.inj hself').1, toNat_linux] at hvalue
  exact ((leValue_inj List.length_reverse.symm).mp hvalue).symm

/-- **MAC addresses**: the same on both systems if the octets are the same from back to
front. -/
theorem macAddress_same_iff (octets : Vector Byte 6) (h : ∃ b ∈ octets.toList, b ≠ 0) :
    SameEverywhere octets ↔ octets.toList.reverse = octets.toList := by
  constructor
  · exact reverse_eq_of_same h
  · intro hpalindrome uninitialized
    obtain ⟨self, hself, hvalue⟩ := toNat_macOS h
    have hlinux : Linux.macAddress uninitialized octets = self := by
      have hmac : (Linux.macAddress uninitialized octets).mac = self.mac := by
        apply BitVec.eq_of_toNat_eq
        rw [toNat_linux, hvalue, hpalindrome]
      exact congrArg MacAddress.mk hmac
    refine ⟨self, ?_, macAddresses_onMacOS hself, toString_eq Vector.length_toList hvalue⟩
    exact congrArg (fun self => [self]) hlinux

/-- An address of equal octets. -/
theorem macAddress_same_broadcast : SameEverywhere #v[0xFF, 0xFF, 0xFF, 0xFF, 0xFF, 0xFF] :=
  (macAddress_same_iff _ ⟨0xFF, by decide, by decide⟩).mpr (by decide)

theorem not_same_vendor :
    ¬ ∀ octets : Vector Byte 6, (∃ b ∈ octets.toList, b ≠ 0) → SameEverywhere octets := by
  intro h
  have hnonzero : ∃ b ∈ (#v[0x00, 0x1B, 0x44, 0x11, 0x3A, 0xB7] : Vector Byte 6).toList, b ≠ 0 :=
    ⟨0x1B, by decide, by decide⟩
  exact absurd (reverse_eq_of_same hnonzero (h _ hnonzero)) (by decide)

end Pensar.Analysis
