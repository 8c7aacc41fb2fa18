import Pensar.Model.BinaryBuffer

/-!
# What a `BinaryBuffer` is for

To its callers a `BinaryBuffer` is a queue of bytes: `write` puts bytes in, `read` takes
the oldest ones out, `clear` and a successful load start again, from nothing or from the
file.  `toQueue` is this reading of a call, and `Queue.machine` and `Queue.content`
say what a history of calls should answer and what `data()` should hold after it.

`NotStale` is the one thing the buffer's own code does not see to: that a read which
asks for more than the unread bytes is not met by bytes left over beyond `write_pos`.
-/

set_option autoImplicit false

namespace Pensar.Interface

open Pensar.Computation
open Pensar.Model
open Pensar.Model.BinaryBuffer (Op)

/-- The bytes of a load that succeeds. -/
def loaded : FileRead → Option (List Byte)
  | .content fileSize available =>
    if fileSize ≤ available.length then some (available.take fileSize) else none
  | _ => none

def LoadSucceeds : Op → Prop
  | .loadFromFile file => (loaded file).isSome
  | _ => True

def toQueue : Op → Queue.Op Byte
  | .write src => .put src
  | .read dest => .take dest.length
  | .clear => .refill []
  | .loadFromFile file => .refill ((loaded file).getD [])

/-- If the call is a read of more than the unread bytes, it is also one of more than the
vector holds beyond `read_pos`. -/
def NotStale (bb : BinaryBuffer) : Op → Prop
  | .read dest =>
    bb.writePos < bb.readPos + dest.length → bb.buffer.length < bb.readPos + dest.length
  | _ => True

end Pensar.Interface
