import Pensar.Model.CS

/-!
# Encodings and their detection (`cpp/src/encoding.hpp`, `cpp/src/icu_util.hpp`)

The charset detector of ICU is a parameter.
-/

set_option autoImplicit false

namespace Pensar.Model

open Pensar.Computation

/-- SOURCE: cpp/src/endian.hpp:17-20 -/
inductive Endian where
  | notApplicable | unknown | little | big
  deriving DecidableEq, Repr

/-- SOURCE: cpp/src/encoding.hpp:14-20 -/
abbrev BomBytes := Vector Byte 4

def NO_BOM : BomBytes := #v[0, 0, 0, 0]
def BOM_UTF_8 : BomBytes := #v[0xEF, 0xBB, 0xBF, 0x00]
def BOM_UTF_16_BE : BomBytes := #v[0xFE, 0xFF, 0x00, 0x00]
def BOM_UTF_16_LE : BomBytes := #v[0xFF, 0xFE, 0x00, 0x00]
def BOM_UTF_32_BE : BomBytes := #v[0x00, 0x00, 0xFE, 0xFF]
def BOM_UTF_32_LE : BomBytes := #v[0xFF, 0xFE, 0x00, 0x00]

/-- SOURCE: cpp/src/encoding.hpp:24-30 -/
structure Encoding where
  name : CS 0 20
  bom : BomBytes
  endian : Endian
  hasBom : Bool
  bomSize : Byte
  deriving DecidableEq

namespace Encoding

/-- The default constructor.
SOURCE: cpp/src/encoding.hpp:32-34 -/
def new : Encoding := ⟨CS.ofS [] (by decide), NO_BOM, .notApplicable, false, 0⟩

end Encoding

/-! The constants.
SOURCE: cpp/src/encoding.hpp:52-62 -/

def ASCII : Encoding := ⟨CS.ofS (W "ASCII") (by decide), NO_BOM, .notApplicable, false, 0⟩
def UTF_8 : Encoding := ⟨CS.ofS (W "UTF-8") (by decide), NO_BOM, .notApplicable, false, 0⟩
def UTF_8_BOM : Encoding :=
  ⟨CS.ofS (W "UTF-8-BOM") (by decide), BOM_UTF_8, .notApplicable, true, 3⟩
def UTF_16_BE : Encoding := ⟨CS.ofS (W "UTF-16-BE") (by decide), NO_BOM, .big, false, 2⟩
def UTF_16_BE_BOM : Encoding :=
  ⟨CS.ofS (W "UTF-16-BE-BOM") (by decide), BOM_UTF_16_BE, .big, true, 2⟩
def UTF_16_LE : Encoding := ⟨CS.ofS (W "UTF-16-LE") (by decide), NO_BOM, .little, false, 2⟩
-- `Bool::F` here, unlike the other encodings with a mark
def UTF_16_LE_BOM : Encoding :=
  ⟨CS.ofS (W "UTF-16-LE-BOM") (by decide), BOM_UTF_16_LE, .little, false, 2⟩
def UTF_32_BE : Encoding := ⟨CS.ofS (W "UTF-32-BE") (by decide), NO_BOM, .big, false, 4⟩
def UTF_32_BE_BOM : Encoding :=
  ⟨CS.ofS (W "UTF-32-BE-BOM") (by decide), BOM_UTF_32_BE, .big, true, 4⟩
def UTF_32_LE : Encoding := ⟨CS.ofS (W "UTF-32-LE") (by decide), NO_BOM, .little, false, 4⟩
def UTF_32_LE_BOM : Encoding :=
  ⟨CS.ofS (W "UTF-32-LE-BOM") (by decide), BOM_UTF_32_LE, .little, true, 4⟩

/-- The answer, and the encoding behind the reference.
SOURCE: cpp/src/icu_util.hpp:301-338 -/
def checkBom (buffer : List Byte) (encoding : Encoding) : Bool × Encoding :=
  if buffer.length ≥ 4 then
    if buffer.take 4 = [0x00, 0x00, 0xFE, 0xFF] then (true, UTF_32_BE_BOM)
    else if buffer.take 4 = [0xFF, 0xFE, 0x00, 0x00] then (true, UTF_32_LE_BOM)
    else (true, encoding)
  else if buffer.length ≥ 3 then
    if buffer.take 3 = [0xEF, 0xBB, 0xBF] then (true, UTF_8_BOM)
    else (true, encoding)
  else if buffer.length ≥ 2 then
    if buffer.take 2 = [0xFE, 0xFF] then (true, UTF_16_BE_BOM)
    else if buffer.take 2 = [0xFF, 0xFE] then (true, UTF_16_LE_BOM)
    else (true, encoding)
  else (false, encoding)

/-- SOURCE: cpp/src/icu_util.hpp:340-391 -/
def sEncodingToEncoding (sEncoding : String) : Except String Encoding :=
  match sEncoding with
  | "ASCII" => .ok ASCII
  | "UTF-8" => .ok UTF_8
  | "UTF-8-BOM" => .ok UTF_8_BOM
  | "UTF-16-BE" => .ok UTF_16_BE
  | "UTF-16-BE-BOM" => .ok UTF_16_BE_BOM
  | "UTF-16-LE" => .ok UTF_16_LE
  | "UTF-16-LE-BOM" => .ok UTF_16_LE_BOM
  | "UTF-32-BE" => .ok UTF_32_BE
  | "UTF-32-BE-BOM" => .ok UTF_32_BE_BOM
  | "UTF-32-LE" => .ok UTF_32_LE
  | "UTF-32-LE-BOM" => .ok UTF_32_LE_BOM
  | _ => .error ("Error: Unknown encoding " ++ sEncoding)

/-- The calls of the charset detector that can fail. -/
inductive Ucsdet where
  | openDetector | setText | detect | getName

def Ucsdet.message : Ucsdet → String
  | openDetector => "Error: Could not open ICU charset detector"
  | setText => "Error: Could not set text for ICU charset detector"
  | detect => "Error: Could not detect charset"
  | getName => "Error: Could not get detected charset name"

/-- How the file stream reads a file. -/
inductive StreamRead where
  | notOpen
  | bad
  | bytes (contents : List Byte)

def MAX_BYTES : ℕ := 10000

/-- The buffer, which has zeros before the file is read into it. -/
def fileBuffer (contents : List Byte) : List Byte :=
  contents.take MAX_BYTES ++ List.replicate (MAX_BYTES - contents.length) 0

/-- SOURCE: cpp/src/icu_util.hpp:470-533 -/
def detectEncoding (ucsdet : List Byte → Except Ucsdet String) (fileName : String) :
    StreamRead → Except String Encoding
  | .notOpen => .error ("Error: Could not open file " ++ fileName)
  | .bad => .error ("Error: Could not read file " ++ fileName)
  | .bytes contents =>
    let buffer := fileBuffer contents
    match checkBom buffer Encoding.new with
    | (true, bomEncoding) => .ok bomEncoding
    | (false, _) =>
      match ucsdet buffer with
      | .error call => .error call.message
      | .ok detectedEncoding => sEncodingToEncoding detectedEncoding

end Pensar.Model
