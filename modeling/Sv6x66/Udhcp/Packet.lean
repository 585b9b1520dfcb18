import Mathlib.Tactic

/-! A DHCP packet in the memory of `udhcp`, and the search for one of its
options. -/
namespace Sv6x66.Udhcp.Packet

/-- The memory from the start of a `struct dhcp_packet` on. Behind the struct the
heap holds whatever it holds. -/
abbrev DhcpPacket := Nat → UInt8

abbrev Mac := Vector UInt8 6

def dhcpSize : Nat := 548

def dhcpOptionsBufsize : Nat := 308

def snameOffset : Nat := 44

def dhcpPktSnameLen : Nat := 64

def fileOffset : Nat := 108

def dhcpPktFileLen : Nat := 128

def cookieOffset : Nat := 236

def optionsOffset : Nat := 240

def bootrequest : UInt8 := 1

def dhcpPadding : UInt8 := 0x00

def dhcpHostName : UInt8 := 0x0c

def dhcpRequestedIp : UInt8 := 0x32

def dhcpLeaseTime : UInt8 := 0x33

def dhcpOptionOverload : UInt8 := 0x34

def dhcpMessageType : UInt8 := 0x35

def dhcpServerId : UInt8 := 0x36

def dhcpEnd : UInt8 := 0xff

/-- `move_from_unaligned32` on a little-endian machine. -/
def moveFromUnaligned32 (memory : Nat → UInt8) (addr : Nat) : UInt32 :=
  (memory addr).toUInt32 ||| ((memory (addr + 1)).toUInt32 <<< 8) |||
    ((memory (addr + 2)).toUInt32 <<< 16) ||| ((memory (addr + 3)).toUInt32 <<< 24)

def ntohl (x : UInt32) : UInt32 :=
  (x <<< 24) ||| ((x &&& (0xff00 : UInt32)) <<< 8) |||
    ((x >>> 8) &&& (0xff00 : UInt32)) ||| (x >>> 24)

def htonl (x : UInt32) : UInt32 := ntohl x

namespace DhcpPacket

variable (packet : DhcpPacket)

def op : UInt8 := packet 0

def hlen : UInt8 := packet 2

def xid : UInt32 := moveFromUnaligned32 packet 4

def flags : UInt16 := (packet 10).toUInt16 ||| ((packet 11).toUInt16 <<< 8)

def ciaddr : UInt32 := moveFromUnaligned32 packet 12

def gatewayNip : UInt32 := moveFromUnaligned32 packet 24

def chaddr : Vector UInt8 16 := Vector.ofFn fun i => packet (28 + i)

/-- The six bytes of `chaddr` the server looks at. -/
def mac : Mac := Vector.ofFn fun i => packet (28 + i)

end DhcpPacket

/-- The fields `file` and `sname` the search has not looked at yet. -/
def unlooked (overload : Nat) : Nat :=
  (if overload.testBit 8 then 0 else 1) + if overload.testBit 9 then 0 else 1

theorem unlooked_file {overload : Nat} (h : overload &&& 0x101 = 1) :
    unlooked (overload ||| 0x101) < unlooked overload := by
  have hbit : overload.testBit 8 = false := by
    have h8 := congrArg (Nat.testBit · 8) h
    simpa [Nat.testBit_and, show (257 : Nat).testBit 8 = true from rfl,
      show (1 : Nat).testBit 8 = false from rfl] using h8
  unfold unlooked
  rw [Nat.testBit_or, Nat.testBit_or, hbit, show (0x101 : Nat).testBit 8 = true from rfl,
    show (0x101 : Nat).testBit 9 = false from rfl, Bool.or_false]
  simp

theorem unlooked_sname {overload : Nat} (h : overload &&& 0x202 = 2) :
    unlooked (overload ||| 0x202) < unlooked overload := by
  have hbit : overload.testBit 9 = false := by
    have h9 := congrArg (Nat.testBit · 9) h
    simpa [Nat.testBit_and, show (514 : Nat).testBit 9 = true from rfl,
      show (2 : Nat).testBit 9 = false from rfl] using h9
  unfold unlooked
  rw [Nat.testBit_or, Nat.testBit_or, hbit, show (0x202 : Nat).testBit 9 = true from rfl,
    show (0x202 : Nat).testBit 8 = false from rfl, Bool.or_false]
  simp

theorem unlooked_byte (overload : Nat) (byte : UInt8) :
    unlooked (overload ||| byte.toNat) = unlooked overload := by
  have hlow (i : Nat) (hi : 8 ≤ i) : byte.toNat.testBit i = false := by
    refine Nat.testBit_lt_two_pow (byte.toNat_lt.trans_le ?_)
    exact Nat.pow_le_pow_right (by decide) hi
  unfold unlooked
  rw [Nat.testBit_or, Nat.testBit_or, hlow 8 (by decide), hlow 9 (by decide), Bool.or_false,
    Bool.or_false]

/-- The loop of `udhcp_get_option`; the result is the address of the option's
data. `file` and `sname` are searched when the overload option says so. -/
def findOption (packet : DhcpPacket) (code : UInt8) (optionptr : Nat) (rem : Int)
    (overload : Nat) : Option Nat :=
  if rem ≤ 0 then none
  else if packet optionptr = dhcpPadding then
    findOption packet code (optionptr + 1) (rem - 1) overload
  else if packet optionptr = dhcpEnd then
    if overload &&& 0x101 = 1 then
      findOption packet code fileOffset dhcpPktFileLen (overload ||| 0x101)
    else if overload &&& 0x202 = 2 then
      findOption packet code snameOffset dhcpPktSnameLen (overload ||| 0x202)
    else none
  else
    let len := 2 + (packet (optionptr + 1)).toNat
    if rem - len < 0 then none
    else if packet optionptr = code then some (optionptr + 2)
    else if packet optionptr = dhcpOptionOverload then
      findOption packet code (optionptr + len) (rem - len)
        (overload ||| (packet (optionptr + 2)).toNat)
    else findOption packet code (optionptr + len) (rem - len) overload
termination_by (unlooked overload, rem.toNat)
decreasing_by
  · exact Prod.Lex.right _ (by omega)
  · exact Prod.Lex.left _ _ (unlooked_file ‹_›)
  · exact Prod.Lex.left _ _ (unlooked_sname ‹_›)
  · rw [unlooked_byte]
    exact Prod.Lex.right _ (by omega)
  · exact Prod.Lex.right _ (by omega)

/-- The first `fuel` turns of the loop, for concrete packets; `none` when they do not
settle it. -/
def findOptionFuel (packet : DhcpPacket) (code : UInt8) :
    (fuel optionptr : Nat) → (rem : Int) → (overload : Nat) → Option (Option Nat)
  | 0, _, _, _ => none
  | fuel + 1, optionptr, rem, overload =>
    if rem ≤ 0 then some none
    else if packet optionptr = dhcpPadding then
      findOptionFuel packet code fuel (optionptr + 1) (rem - 1) overload
    else if packet optionptr = dhcpEnd then
      if overload &&& 0x101 = 1 then
        findOptionFuel packet code fuel fileOffset dhcpPktFileLen (overload ||| 0x101)
      else if overload &&& 0x202 = 2 then
        findOptionFuel packet code fuel snameOffset dhcpPktSnameLen (overload ||| 0x202)
      else some none
    else
      let len := 2 + (packet (optionptr + 1)).toNat
      if rem - len < 0 then some none
      else if packet optionptr = code then some (some (optionptr + 2))
      else if packet optionptr = dhcpOptionOverload then
        findOptionFuel packet code fuel (optionptr + len) (rem - len)
          (overload ||| (packet (optionptr + 2)).toNat)
      else findOptionFuel packet code fuel (optionptr + len) (rem - len) overload

theorem findOption_of_fuel (fuel : Nat) {packet : DhcpPacket} {code : UInt8}
    {optionptr overload : Nat} {rem : Int} {found : Option Nat}
    (h : findOptionFuel packet code fuel optionptr rem overload = some found) :
    findOption packet code optionptr rem overload = found := by
  induction fuel generalizing optionptr rem overload with
  | zero => cases h
  | succ fuel ih =>
    unfold findOptionFuel at h
    rw [findOption]
    dsimp only at h ⊢
    split_ifs at h ⊢
    all_goals first
      | exact ih h
      | exact Option.some.inj h

def udhcpGetOption (packet : DhcpPacket) (code : UInt8) : Option Nat :=
  findOption packet code optionsOffset dhcpOptionsBufsize 0

/-- The packet a read of the socket leaves behind: zeros behind a short datagram.
`none` for a read error and for a bad magic. -/
def udhcpRecvKernelPacket (heap : Nat → UInt8) (datagram : Option (List UInt8)) :
    Option DhcpPacket :=
  match datagram with
  | none => none
  | some bytes =>
    let packet : DhcpPacket := fun i => if i < dhcpSize then bytes.getD i 0 else heap i
    -- htonl(DHCP_MAGIC)
    if moveFromUnaligned32 packet cookieOffset ≠ htonl 0x63825363 then none else some packet

end Sv6x66.Udhcp.Packet
