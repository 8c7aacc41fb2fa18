import Pensar.Model.Encoding

/-!
# Byte-order marks

Each of the three branches of `check_bom` knows only the marks of its own length, and every one
answers that there is a mark.  So a shorter mark is found in a buffer of exactly its length
only, and whatever else has two bytes or more passes for a mark that leaves the encoding as it
was (`checkBom_kept`).

Main result: `checkBom_detects_iff`.
-/

set_option autoImplicit false

namespace Pensar.Analysis

open Pensar.Computation
open Pensar.Model

def MARK_UTF_32_BE : List Byte := [0x00, 0x00, 0xFE, 0xFF]
def MARK_UTF_32_LE : List Byte := [0xFF, 0xFE, 0x00, 0x00]
def MARK_UTF_8 : List Byte := [0xEF, 0xBB, 0xBF]
def MARK_UTF_16_BE : List Byte := [0xFE, 0xFF]
def MARK_UTF_16_LE : List Byte := [0xFF, 0xFE]

/-- The byte-order marks and what they stand for. -/
def marks : List (List Byte × Encoding) :=
  [(MARK_UTF_8, UTF_8_BOM), (MARK_UTF_16_BE, UTF_16_BE_BOM), (MARK_UTF_16_LE, UTF_16_LE_BOM),
    (MARK_UTF_32_BE, UTF_32_BE_BOM), (MARK_UTF_32_LE, UTF_32_LE_BOM)]

/-- The longest mark with which the buffer starts. -/
structure LongestMark (buffer : List Byte) (mark : List Byte × Encoding) : Prop where
  mem : mark ∈ marks
  starts : mark.1 <+: buffer
  longest : ∀ other ∈ marks, other.1 <+: buffer → other.1.length ≤ mark.1.length

/-- What the detection is meant to do. -/
structure BomDetected (buffer : List Byte) (encoding : Encoding) : Prop where
  detected_iff : (checkBom buffer encoding).1 = true ↔ ∃ mark ∈ marks, mark.1 <+: buffer
  set_of_detected : (checkBom buffer encoding).1 = true →
    ∃ mark, LongestMark buffer mark ∧ (checkBom buffer encoding).2 = mark.2
  kept_of_not_detected : (checkBom buffer encoding).1 = false →
    (checkBom buffer encoding).2 = encoding

/-- Nothing that could be a mark, one of the long marks in front, or a short one alone. -/
inductive Recognised (buffer : List Byte) : Prop where
  | short (h : buffer.length < 2)
  | utf32be (h : MARK_UTF_32_BE <+: buffer)
  | utf32le (h : MARK_UTF_32_LE <+: buffer)
  | utf8 (h : buffer = MARK_UTF_8)
  | utf16be (h : buffer = MARK_UTF_16_BE)
  | utf16le (h : buffer = MARK_UTF_16_LE)

variable {buffer : List Byte} {mark : List Byte × Encoding}

theorem encoding_ne_new (h : mark ∈ marks) : mark.2 ≠ Encoding.new := by
  revert mark
  decide

theorem two_le_of_mark (h : mark ∈ marks) : 2 ≤ mark.1.length := by
  revert mark
  decide

/-- A mark that is found and that no longer one starts with. -/
theorem bomDetected_of_mark (mark : List Byte × Encoding) (hmark : LongestMark buffer mark)
    (hfound : ∀ encoding, checkBom buffer encoding = (true, mark.2)) (encoding : Encoding) :
    BomDetected buffer encoding := by
  refine ⟨⟨fun _ => ⟨mark, hmark.mem, hmark.starts⟩, fun _ => by rw [hfound]⟩,
    fun _ => ⟨mark, hmark, by rw [hfound]⟩, ?_⟩
  intro h
  rw [hfound] at h
  cases h

theorem longest_of_length_four (hmem : mark ∈ marks) (hstarts : mark.1 <+: buffer)
    (hfour : mark.1.length = 4) : LongestMark buffer mark where
  mem := hmem
  starts := hstarts
  longest other hother _ := by
    have hall : ∀ other ∈ marks, other.1.length ≤ 4 := by decide
    rw [hfour]
    exact hall other hother

theorem longest_of_eq (hmem : mark ∈ marks) (heq : buffer = mark.1) : LongestMark buffer mark where
  mem := hmem
  starts := by rw [heq]
  longest other _ hstarts := by
    rw [← heq]
    exact hstarts.length_le

theorem bomDetected_of_recognised (h : Recognised buffer) (encoding : Encoding) :
    BomDetected buffer encoding := by
  cases h with
  | short h =>
    have hnone : ∀ e, checkBom buffer e = (false, e) := by
      intro e
      rw [checkBom, if_neg (by omega), if_neg (by omega), if_neg (by omega)]
    refine ⟨⟨fun hdetected => ?_, ?_⟩, fun hdetected => ?_, fun _ => by rw [hnone]⟩
    · rw [hnone] at hdetected
      cases hdetected
    · rintro ⟨mark, hmem, hstarts⟩
      have htwo := two_le_of_mark hmem
      have hle := hstarts.length_le
      omega
    · rw [hnone] at hdetected
      cases hdetected
  | utf32be h =>
    have hlen : 4 ≤ buffer.length := h.length_le
    have htake : buffer.take 4 = [0x00, 0x00, 0xFE, 0xFF] := (List.prefix_iff_eq_take.mp h).symm
    apply bomDetected_of_mark (MARK_UTF_32_BE, UTF_32_BE_BOM)
      (longest_of_length_four (by decide) h rfl)
    intro e
    rw [checkBom, if_pos hlen, if_pos htake]
  | utf32le h =>
    have hlen : 4 ≤ buffer.length := h.length_le
    have htake : buffer.take 4 = [0xFF, 0xFE, 0x00, 0x00] := (List.prefix_iff_eq_take.mp h).symm
    apply bomDetected_of_mark (MARK_UTF_32_LE, UTF_32_LE_BOM)
      (longest_of_length_four (by decide) h rfl)
    intro e
    rw [checkBom, if_pos hlen, if_neg (by rw [htake]; decide), if_pos htake]
  | utf8 h =>
    subst h
    exact bomDetected_of_mark (MARK_UTF_8, UTF_8_BOM) (longest_of_eq (by decide) rfl)
      (fun _ => rfl) encoding
  | utf16be h =>
    subst h
    exact bomDetected_of_mark (MARK_UTF_16_BE, UTF_16_BE_BOM)
      (longest_of_eq (by decide) rfl) (fun _ => rfl) encoding
  | utf16le h =>
    subst h
    exact bomDetected_of_mark (MARK_UTF_16_LE, UTF_16_LE_BOM)
      (longest_of_eq (by decide) rfl) (fun _ => rfl) encoding

/-- Every other buffer passes for one with a mark, and the encoding stays as it was. -/
theorem checkBom_kept (h : ¬ Recognised buffer) (encoding : Encoding) :
    checkBom buffer encoding = (true, encoding) := by
  rw [checkBom]
  by_cases hfour : buffer.length ≥ 4
  · have hbe : ¬ buffer.take 4 = [0x00, 0x00, 0xFE, 0xFF] := fun htake =>
      h (.utf32be (List.prefix_iff_eq_take.mpr htake.symm))
    have hle : ¬ buffer.take 4 = [0xFF, 0xFE, 0x00, 0x00] := fun htake =>
      h (.utf32le (List.prefix_iff_eq_take.mpr htake.symm))
    rw [if_pos hfour, if_neg hbe, if_neg hle]
  · rw [if_neg hfour]
    by_cases hthree : buffer.length ≥ 3
    · have hutf8 : ¬ buffer.take 3 = [0xEF, 0xBB, 0xBF] := by
        rw [List.take_of_length_le (by omega)]
        exact fun heq => h (.utf8 heq)
      rw [if_pos hthree, if_neg hutf8]
    · have htwo : buffer.length ≥ 2 := by
        by_contra hshort
        exact h (.short (by omega))
      have htake : buffer.take 2 = buffer := List.take_of_length_le (by omega)
      have hbe : ¬ buffer = [0xFE, 0xFF] := fun heq => h (.utf16be heq)
      have hle : ¬ buffer = [0xFF, 0xFE] := fun heq => h (.utf16le heq)
      rw [if_neg hthree, if_pos htwo, htake, if_neg hbe, if_neg hle]

theorem bomDetected_iff (buffer : List Byte) :
    (∀ encoding, BomDetected buffer encoding) ↔ Recognised buffer := by
  constructor
  · intro h
    by_contra hnot
    have hkept := checkBom_kept hnot Encoding.new
    obtain ⟨mark, hmark, hset⟩ := (h Encoding.new).set_of_detected (by rw [hkept])
    rw [hkept] at hset
    exact encoding_ne_new hmark.mem hset.symm
  · exact bomDetected_of_recognised

/-! ## Files -/

theorem length_fileBuffer (contents : List Byte) : (fileBuffer contents).length = MAX_BYTES := by
  rw [fileBuffer, List.length_append, List.length_take, List.length_replicate]
  omega

theorem checkBom_fileBuffer (contents : List Byte) (encoding : Encoding) :
    (checkBom (fileBuffer contents) encoding).1 = true := by
  rw [checkBom, if_pos (by rw [length_fileBuffer]; decide)]
  split
  · rfl
  · split <;> rfl

/-- The charset detector is never asked. -/
theorem detectEncoding_bytes (ucsdet : List Byte → Except Ucsdet String) (fileName : String)
    (contents : List Byte) :
    detectEncoding ucsdet fileName (.bytes contents) =
      .ok (checkBom (fileBuffer contents) Encoding.new).2 := by
  have hdetected := checkBom_fileBuffer contents Encoding.new
  rw [detectEncoding]
  generalize checkBom (fileBuffer contents) Encoding.new = result at hdetected
  obtain ⟨detected, encoding⟩ := result
  obtain rfl : detected = true := hdetected
  rfl

/-- The file is not read, or its buffer starts with one of the long marks. -/
def LongMarkInFront : StreamRead → Prop
  | .notOpen => True
  | .bad => True
  | .bytes contents =>
    MARK_UTF_32_BE <+: fileBuffer contents ∨ MARK_UTF_32_LE <+: fileBuffer contents

theorem detectEncoding_set_iff (ucsdet : List Byte → Except Ucsdet String) (fileName : String)
    (file : StreamRead) :
    detectEncoding ucsdet fileName file ≠ .ok Encoding.new ↔ LongMarkInFront file := by
  cases file with
  | notOpen => exact iff_of_true nofun trivial
  | bad => exact iff_of_true nofun trivial
  | bytes contents =>
    rw [detectEncoding_bytes]
    have hlength := length_fileBuffer contents
    constructor
    · intro hset
      have hrecognised : Recognised (fileBuffer contents) := by
        by_contra hnot
        exact hset (by rw [checkBom_kept hnot])
      cases hrecognised with
      | short h => rw [hlength] at h; exact absurd h (by decide)
      | utf32be h => exact Or.inl h
      | utf32le h => exact Or.inr h
      | utf8 h => rw [h] at hlength; exact absurd hlength (by decide)
      | utf16be h => rw [h] at hlength; exact absurd hlength (by decide)
      | utf16le h => rw [h] at hlength; exact absurd hlength (by decide)
    · rintro hlong heq
      have hrecognised : Recognised (fileBuffer contents) :=
        hlong.elim Recognised.utf32be Recognised.utf32le
      have hdetected := bomDetected_of_recognised hrecognised Encoding.new
      obtain ⟨mark, hmark, hset⟩ :=
        hdetected.set_of_detected (checkBom_fileBuffer contents Encoding.new)
      exact encoding_ne_new hmark.mem (by rw [← hset]; exact Except.ok.inj heq)

/-- **Detection**: of a buffer it is right exactly for those that are recognised; of a file it
gives an encoding that was set exactly if one of the long marks is in front of the buffer. -/
theorem checkBom_detects_iff (buffer : List Byte) (ucsdet : List Byte → Except Ucsdet String)
    (fileName : String) (file : StreamRead) :
    ((∀ encoding, BomDetected buffer encoding) ↔ Recognised buffer) ∧
      (detectEncoding ucsdet fileName file ≠ .ok Encoding.new ↔ LongMarkInFront file) :=
  ⟨bomDetected_iff buffer, detectEncoding_set_iff ucsdet fileName file⟩

/-- A file in UTF-8 with its mark and a letter. -/
theorem not_bomDetected_utf8 :
    ¬ ∀ buffer encoding, BomDetected buffer encoding := by
  intro h
  obtain ⟨mark, hmark, hset⟩ := (h [0xEF, 0xBB, 0xBF, 0x41] Encoding.new).set_of_detected rfl
  exact encoding_ne_new hmark.mem hset.symm

end Pensar.Analysis
