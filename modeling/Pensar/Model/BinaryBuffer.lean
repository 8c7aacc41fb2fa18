import Pensar.Computation.Layout
import Pensar.Computation.Queue

/-!
# `BinaryBuffer` (`cpp/src/binary_buffer.hpp`)

The growable byte buffer that all binary serialization goes through: a
`std::vector<std::byte>` with one position for writing and one for reading.

Lengths and positions are natural numbers: spans and vectors are shorter than
`2 ^ 63` bytes, so the sums the code forms do not wrap around.  Reporting on
`std::cerr` and through `LOG` is kept as a `Log`, since the functions give their
callers no other sign of a failure.
-/

set_option autoImplicit false

namespace Pensar.Model

open Pensar.Computation

/-- What a call reports on `std::cerr` or through `LOG`, oldest first. -/
abbrev Log := List String

/-- `std::vector::resize`: cut off the end, or append zero bytes. -/
def resize (buffer : List Byte) (n : ℕ) : List Byte :=
  buffer.take n ++ List.replicate (n - buffer.length) 0

/-- `std::memcpy` of `src` to the position `i` of a block that has room for it. -/
def memcpyAt (buffer : List Byte) (i : ℕ) (src : List Byte) : List Byte :=
  buffer.take i ++ src ++ buffer.drop (i + src.length)

theorem memcpyAt_length {buffer src : List Byte} {i : ℕ} (h : i + src.length ≤ buffer.length) :
    (memcpyAt buffer i src).length = buffer.length := by
  simp only [memcpyAt, List.length_append, List.length_take, List.length_drop]
  omega

/-- class `BinaryBuffer`.
SOURCE: cpp/src/binary_buffer.hpp:42-46 -/
@[ext] structure BinaryBuffer where
  buffer : List Byte
  writePos : ℕ
  readPos : ℕ
  deriving DecidableEq, Repr

/-- What the C library delivers when a file is read: `fopen` fails, `ftell` fails, or
a size is announced and `fread` finds these bytes. -/
inductive FileRead where
  | openFailed
  | sizeUnknown
  | content (fileSize : ℕ) (available : List Byte)

/-- What the C library does when a file is written: whether `fopen` succeeds and how
many bytes `fwrite` gets onto the disk. -/
structure FileWrite where
  opened : Bool
  accepted : ℕ

abbrev FileSystem := String → Option (List Byte)

namespace BinaryBuffer

/-- A new buffer; `reserve` sets the capacity only.
SOURCE: cpp/src/binary_buffer.hpp:49-51 -/
def new : BinaryBuffer := ⟨[], 0, 0⟩

/-- The span over the first `write_pos` bytes of the vector; `none` when it reaches
past the vector's end.
SOURCE: cpp/src/binary_buffer.hpp:55-57 -/
def data (bb : BinaryBuffer) : Option (List Byte) :=
  if bb.writePos ≤ bb.buffer.length then some (bb.buffer.take bb.writePos) else none

/-- SOURCE: cpp/src/binary_buffer.hpp:59 -/
def size (bb : BinaryBuffer) : ℕ := bb.writePos

/-- Both positions go back to the start; the bytes stay in the vector.
SOURCE: cpp/src/binary_buffer.hpp:61-64 -/
def clear (bb : BinaryBuffer) : BinaryBuffer :=
  { bb with writePos := 0, readPos := 0 }

/-- SOURCE: cpp/src/binary_buffer.hpp:71-84 -/
def write (bb : BinaryBuffer) (src : List Byte) : BinaryBuffer :=
  let required := bb.writePos + src.length
  let buffer := if required > bb.buffer.length then resize bb.buffer required else bb.buffer
  { bb with buffer := memcpyAt buffer bb.writePos src, writePos := required }

/-- Write an object of a trivially copyable type.
SOURCE: cpp/src/binary_buffer.hpp:98-105 -/
def writePod {α : Type} (bb : BinaryBuffer) (L : Layout α) (pod : α) : BinaryBuffer :=
  bb.write (L.encode pod)

/-- SOURCE: cpp/src/binary_buffer.hpp:162 -/
def underflow : String := "Error: Buffer underflow while reading!"

/-- The destination span after the call, the buffer, and what was reported.  The bound
is the length of the vector, not `write_pos`.
SOURCE: cpp/src/binary_buffer.hpp:159-171 -/
def read (bb : BinaryBuffer) (dest : List Byte) : List Byte × BinaryBuffer × Log :=
  if bb.readPos + dest.length > bb.buffer.length then
    (dest, bb, [underflow])
  else
    ((bb.buffer.drop bb.readPos).take dest.length,
      { bb with readPos := bb.readPos + dest.length }, [])

/-- Read over an object of a trivially copyable type.
SOURCE: cpp/src/binary_buffer.hpp:183-191 -/
def readPod {α : Type} (bb : BinaryBuffer) (L : Layout α) (pod : α) : α × BinaryBuffer × Log :=
  let (bytes, bb, log) := bb.read (L.encode pod)
  (L.decode bytes, bb, log)

/-- `none`: `fwrite` is asked for bytes past the end of the vector.
SOURCE: cpp/src/binary_buffer.hpp:108-120 -/
def saveToFile (bb : BinaryBuffer) (w : FileWrite) (fs : FileSystem) (filename : String) :
    Option (Except String Unit × FileSystem) :=
  if !w.opened then
    some (.error "Failed to open file for writing", fs)
  else do
    let bytes ← bb.data
    let written := bytes.take w.accepted
    let fs := Function.update fs filename (some written)
    if written.length ≠ bb.writePos then
      some (.error "Failed to write all bytes to disk", fs)
    else
      some (.ok (), fs)

/-- SOURCE: cpp/src/binary_buffer.hpp:127-156 -/
def loadFromFile (bb : BinaryBuffer) : FileRead → Except String Unit × BinaryBuffer
  | .openFailed => (.error "Failed to open file for reading", bb)
  | .sizeUnknown => (.error "Could not determine file size", bb)
  | .content fileSize available =>
    let delivered := available.take fileSize
    let buffer := memcpyAt (resize bb.buffer fileSize) 0 delivered
    if delivered.length ≠ fileSize then
      (.error "Read mismatch: read less bytes than expected", { bb with buffer })
    else
      (.ok (), { buffer, writePos := fileSize, readPos := 0 })

/-! ## Runs -/

inductive Op where
  | write (src : List Byte)
  | read (dest : List Byte)
  | clear
  | loadFromFile (file : FileRead)

/-- A buffer under a sequence of calls; the answer is what the call hands back. -/
def machine : Machine BinaryBuffer Op (Queue.Reply Byte) where
  step bb
    | .write src => (bb.write src, .done)
    | .read dest =>
      match bb.read dest with
      | (bytes, bb, []) => (bb, .taken bytes)
      | (_, bb, _) => (bb, .failed)
    | .clear => (bb.clear, .done)
    | .loadFromFile file =>
      match bb.loadFromFile file with
      | (.ok (), bb) => (bb, .done)
      | (.error _, bb) => (bb, .failed)

end BinaryBuffer

end Pensar.Model
