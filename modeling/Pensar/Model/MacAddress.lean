import Pensar.Model.CS

/-!
# MAC addresses (`cpp/src/mac_address.hpp`, `cpp/src/linux/system_linux.hpp`,
`cpp/src/macos/system_macos.hpp`)

What the operating system says about an interface is a parameter.  An `int64_t` is its 64 bits,
and the machine is little-endian.
-/

set_option autoImplicit false

namespace Pensar.Model

open Pensar.Computation

/-- SOURCE: cpp/src/mac_address.hpp:23-28 -/
structure MacAddress where
  mac : BitVec 64
  deriving DecidableEq, Repr

/-- `"%02" PRIx64`. -/
def formatHex02 (n : BitVec 64) : S :=
  let digits : S := (Nat.toDigits 16 n.toNat).map fun c => UInt8.ofNat c.toNat
  List.replicate (2 - digits.length) (Wc '0') ++ digits

/-- `operator std::string`, through a buffer of 18 characters with a NUL at the end.
SOURCE: cpp/src/mac_address.hpp:30-37 -/
def MacAddress.toString (self : MacAddress) : S :=
  let mac := self.mac
  let text :=
    formatHex02 (mac.sshiftRight 40 &&& 0xff) ++ W ":" ++
    formatHex02 (mac.sshiftRight 32 &&& 0xff) ++ W ":" ++
    formatHex02 (mac.sshiftRight 24 &&& 0xff) ++ W ":" ++
    formatHex02 (mac.sshiftRight 16 &&& 0xff) ++ W ":" ++
    formatHex02 (mac.sshiftRight 8 &&& 0xff) ++ W ":" ++
    formatHex02 (mac &&& 0xff)
  text.take 17

namespace Linux

/-- What `ioctl` answers for an interface: whether it is the loopback, and its hardware
address, where the call succeeds.  `uninitialized` is what the variable holds before. -/
structure Ifreq where
  loopback : Option Bool
  hwaddr : Option (Vector Byte 6)
  uninitialized : BitVec 64

/-- SOURCE: cpp/src/linux/system_linux.hpp:66-72 -/
def macAddress (uninitialized : BitVec 64) (macAddress : Vector Byte 6) : MacAddress :=
  let mac := Layout.int64.decode
    (memcpyAt (Layout.int64.encode uninitialized) 0 macAddress.toList)
  ⟨mac &&& 0xFFFFFFFFFFFF⟩

/-- SOURCE: cpp/src/linux/system_linux.hpp:60-80 -/
def macAddresses (interfaces : List Ifreq) : List MacAddress :=
  interfaces.filterMap fun it =>
    if it.loopback = some false then it.hwaddr.map (macAddress it.uninitialized) else none

end Linux

namespace MacOS

/-- A message of the routing list. -/
structure IfMsghdr where
  isIfinfo : Bool
  sdlAlen : ℕ
  lladdr : Vector Byte 6

/-- SOURCE: cpp/src/macos/system_macos.hpp:65-76 -/
def macAddress (mac : Vector Byte 6) : Option MacAddress :=
  if mac[0] ≠ 0 || mac[1] ≠ 0 || mac[2] ≠ 0 || mac[3] ≠ 0 || mac[4] ≠ 0 || mac[5] ≠ 0 then
    let cast (b : Byte) : BitVec 64 := b.toBitVec.setWidth 64
    some ⟨cast mac[0] <<< 40 ||| cast mac[1] <<< 32 ||| cast mac[2] <<< 24 |||
      cast mac[3] <<< 16 ||| cast mac[4] <<< 8 ||| cast mac[5]⟩
  else
    none

/-- SOURCE: cpp/src/macos/system_macos.hpp:56-82 -/
def macAddresses (messages : List IfMsghdr) : List MacAddress :=
  messages.filterMap fun ifm =>
    if ifm.isIfinfo && ifm.sdlAlen = 6 then macAddress ifm.lladdr else none

end MacOS

end Pensar.Model
