import Sv6x66.Lib.ByteMap
import Sv6x66.Udhcp.Dhcpd

/-! The bytes of the packets that the server builds: the options as `common.c` adds and finds
them, and the reply that a client reads out of the datagram. -/
namespace Sv6x66.Udhcp.OptionCodec
open Sv6x66.Lib.ByteMap
open Sv6x66.Udhcp.Packet
open Sv6x66.Udhcp.Leases
open Sv6x66.Udhcp.Dhcpd

def bootreply : UInt8 := 2

def dhcpMagic : UInt32 := 0x63825363

/-- The types of `dhcp_optflags` that are compiled in. -/
inductive OptionType where
  | ip | ipPair | string | stringHost | u8 | u16 | u32 | s32 | bin | staticRoutes | sixRd
  deriving DecidableEq

/-- `dhcp_option_lengths` -/
def dhcpOptionLengths : OptionType → UInt8
  | .ip => 4
  | .ipPair => 8
  | .string => 1
  | .stringHost => 1
  | .u8 => 1
  | .u16 => 2
  | .u32 => 4
  | .s32 => 4
  | .bin => 0
  | .staticRoutes => 5
  | .sixRd => 22

def dhcpOptflags : List (OptionType × UInt8) :=
  [(.ip, 0x01), (.s32, 0x02), (.ip, 0x03), (.ip, 0x06), (.ip, 0x09), (.stringHost, 0x0c),
    (.u16, 0x0d), (.stringHost, 0x0f), (.ip, 0x10), (.string, 0x11), (.u8, 0x17), (.u16, 0x1a),
    (.ip, 0x1c), (.ipPair, 0x21), (.stringHost, 0x28), (.ip, 0x29), (.ip, 0x2a), (.ip, 0x2c),
    (.u32, 0x33), (.ip, 0x36), (.string, 0x38), (.stringHost, 0x42), (.string, 0x43),
    (.staticRoutes, 0x79), (.string, 0xd1), (.sixRd, 0xd4), (.staticRoutes, 0xf9),
    (.string, 0xfc), (.ip, 0x32), (.u8, 0x35), (.u16, 0x39)]

/-- The loop of `udhcp_end_option`, as long as it is in the options. -/
def endOption (packet : DhcpPacket) : (fuel i : Nat) → Option Nat
  | 0, _ => none
  | fuel + 1, i =>
    if packet (optionsOffset + i) = dhcpEnd then some i
    else if packet (optionsOffset + i) = dhcpPadding then endOption packet fuel (i + 1)
    else endOption packet fuel (i + (packet (optionsOffset + i + 1)).toNat + 2)

def udhcpEndOption (packet : DhcpPacket) : Option Nat := endOption packet dhcpOptionsBufsize 0

/-- `addopt` is the memory from the option on. -/
def udhcpAddBinaryOption (packet : DhcpPacket) (addopt : Nat → UInt8) : Option DhcpPacket :=
  (udhcpEndOption packet).map fun endPos =>
    let len := 2 + (addopt 1).toNat
    if endPos + len + 1 ≥ dhcpOptionsBufsize then packet
    else
      let packet := store packet (optionsOffset + endPos) ((List.range len).map addopt)
      store packet (optionsOffset + endPos + len) [dhcpEnd]

/-- A code that is not in the table is not added. -/
def udhcpAddSimpleOption (packet : DhcpPacket) (code : UInt8) (data : UInt32) :
    Option DhcpPacket :=
  match dhcpOptflags.find? (·.2 = code) with
  | none => some packet
  | some dh =>
    let option := [code, dhcpOptionLengths dh.1] ++ bytes32 data
    udhcpAddBinaryOption packet (option.getD · 0)

/-- `heap` is the memory of the packet before it is cleared. -/
def udhcpInitHeader (heap : Nat → UInt8) (type : UInt8) : Option DhcpPacket :=
  let packet := store heap 0 (List.replicate dhcpSize 0)
  let packet := store packet 0
    [if type = dhcpOffer ∨ type = dhcpAck ∨ type = dhcpNak then bootreply else bootrequest]
  let packet := store packet 1 [1]
  let packet := store packet 2 [6]
  let packet := store packet cookieOffset (bytes32 (htonl dhcpMagic))
  let packet := store packet optionsOffset [dhcpEnd]
  udhcpAddSimpleOption packet dhcpMessageType type.toUInt32

def initPacket (heap : Nat → UInt8) (config : ServerConfig) (oldpacket : DhcpPacket)
    (type : UInt8) : Option DhcpPacket :=
  (udhcpInitHeader heap type).bind fun packet =>
    let packet := store packet 4 (bytes32 oldpacket.xid)
    let packet := store packet 28 oldpacket.chaddr.toList
    let packet := store packet 10 [oldpacket.flags.toUInt8, (oldpacket.flags >>> 8).toUInt8]
    let packet := store packet 24 (bytes32 oldpacket.gatewayNip)
    let packet := store packet 12 (bytes32 oldpacket.ciaddr)
    udhcpAddSimpleOption packet dhcpServerId config.serverNip

/-- The list of options is empty, and `sname` and `boot_file` are `NULL`. -/
def addServerOptions (config : ServerConfig) (packet : DhcpPacket) : DhcpPacket :=
  store packet 20 (bytes32 config.siaddrNip)

/-- The lines that `send_offer` and `send_ACK` share. -/
def addLeaseOptions (config : ServerConfig) (packet : DhcpPacket) (yiaddr leaseTimeSec : UInt32) :
    Option DhcpPacket :=
  (udhcpAddSimpleOption (store packet 16 (bytes32 yiaddr)) dhcpLeaseTime
      (htonl leaseTimeSec)).bind fun packet =>
    (udhcpAddSimpleOption packet 0x01 (htonl config.subnet)).bind fun packet =>
      (udhcpAddSimpleOption packet 0x03 (htonl config.gw)).bind fun packet =>
        (udhcpAddSimpleOption packet 0x06 (htonl config.dns)).map (addServerOptions config)

/-! ### What the options stand for -/

/-- An option in the packet. -/
def encode (option : UInt8 × List UInt8) : List UInt8 :=
  [option.1, UInt8.ofNat option.2.length] ++ option.2

/-- Neither a mark nor the option that leads the search to other fields. -/
structure Plain (option : UInt8 × List UInt8) : Prop where
  padding : option.1 ≠ dhcpPadding
  notEnd : option.1 ≠ dhcpEnd
  overload : option.1 ≠ dhcpOptionOverload
  length : option.2.length < 256

/-- The bytes the options take. -/
def size (options : List (UInt8 × List UInt8)) : Nat := (options.flatMap encode).length

structure Carries (packet : DhcpPacket) (options : List (UInt8 × List UInt8)) : Prop where
  bytes : Holds packet optionsOffset (options.flatMap encode ++ [dhcpEnd])
  room : size options + 1 < dhcpOptionsBufsize
  plain : ∀ option ∈ options, Plain option

/-- An option is taken if its end mark is not the last byte. -/
def accept (options : List (UInt8 × List UInt8)) (option : UInt8 × List UInt8) :
    List (UInt8 × List UInt8) :=
  if size options + (2 + option.2.length) + 1 ≥ dhcpOptionsBufsize then options
  else options ++ [option]

/-- Every code is found where its first option is. -/
def Reads (packet : DhcpPacket) (options : List (UInt8 × List UInt8)) : Prop :=
  ∀ code, match options.find? (·.1 = code) with
    | none => udhcpGetOption packet code = none
    | some option => ∃ addr, udhcpGetOption packet code = some (addr + 2) ∧
      Holds packet addr (encode option)

/-- The packet is the one that the reply stands for. -/
structure Represents (packet : DhcpPacket) (r : Reply) : Prop where
  op : packet.op = bootreply
  hlen : packet.hlen = 6
  xid : packet.xid = r.xid
  flags : packet.flags = r.flags
  ciaddr : packet.ciaddr = r.ciaddr
  yiaddr : moveFromUnaligned32 packet 16 = r.yiaddr
  siaddrNip : moveFromUnaligned32 packet 20 = r.siaddrNip
  gatewayNip : packet.gatewayNip = r.gatewayNip
  chaddr : packet.chaddr = r.chaddr
  cookie : moveFromUnaligned32 packet cookieOffset = htonl dhcpMagic
  options : Carries packet r.options

/-! ### Numbers in memory -/

variable {packet packet' : DhcpPacket} {options : List (UInt8 × List UInt8)}
  {option : UInt8 × List UInt8} {addr : Nat}

theorem moveFromUnaligned32_bytes32 {memory : Nat → UInt8} {x : UInt32}
    (h : Holds memory addr (bytes32 x)) : moveFromUnaligned32 memory addr = x := by
  have h₀ : memory addr = x.toUInt8 := h 0 (by simp [bytes32])
  have h₁ : memory (addr + 1) = (x >>> 8).toUInt8 := h 1 (by simp [bytes32])
  have h₂ : memory (addr + 2) = (x >>> 16).toUInt8 := h 2 (by simp [bytes32])
  have h₃ : memory (addr + 3) = (x >>> 24).toUInt8 := h 3 (by simp [bytes32])
  rw [moveFromUnaligned32, h₀, h₁, h₂, h₃]
  apply UInt32.toBitVec_inj.mp
  apply BitVec.eq_of_getLsbD_eq
  intro i hi
  simp only [UInt32.toBitVec_or, UInt32.toBitVec_shiftLeft, UInt8.toBitVec_toUInt32,
    UInt32.toBitVec_toUInt8, UInt32.toBitVec_shiftRight, BitVec.getLsbD_or]
  interval_cases i <;> simp

theorem flags_of_bytes {x : UInt16} (h₀ : packet 10 = x.toUInt8)
    (h₁ : packet 11 = (x >>> 8).toUInt8) : packet.flags = x := by
  rw [DhcpPacket.flags, h₀, h₁]
  apply UInt16.toBitVec_inj.mp
  apply BitVec.eq_of_getLsbD_eq
  intro i hi
  simp only [UInt16.toBitVec_or, UInt16.toBitVec_shiftLeft, UInt8.toBitVec_toUInt16,
    UInt16.toBitVec_toUInt8, UInt16.toBitVec_shiftRight, BitVec.getLsbD_or]
  interval_cases i <;> simp

/-! ### The options -/

theorem length_encode (option : UInt8 × List UInt8) :
    (encode option).length = 2 + option.2.length := by
  rw [encode, List.length_append]
  rfl

theorem size_cons (option : UInt8 × List UInt8) (options : List (UInt8 × List UInt8)) :
    size (option :: options) = 2 + option.2.length + size options := by
  rw [size, List.flatMap_cons, List.length_append, length_encode]
  rfl

theorem size_append (options later : List (UInt8 × List UInt8)) :
    size (options ++ later) = size options + size later := by
  rw [size, List.flatMap_append, List.length_append]
  rfl

theorem Plain.toNat_length (h : Plain option) :
    (UInt8.ofNat option.2.length).toNat = option.2.length := by
  rw [UInt8.toNat_ofNat']
  exact Nat.mod_eq_of_lt h.length

/-- The walk over the options ends at their end. -/
theorem endOption_eq {i fuel : Nat} (hplain : ∀ option ∈ options, Plain option)
    (h : Holds packet (optionsOffset + i) (options.flatMap encode ++ [dhcpEnd]))
    (hfuel : options.length < fuel) : endOption packet fuel i = some (i + size options) := by
  induction options generalizing i fuel with
  | nil =>
    obtain ⟨fuel, rfl⟩ : ∃ n, fuel = n + 1 := ⟨fuel - 1, by rw [List.length_nil] at hfuel; omega⟩
    have hmark : packet (optionsOffset + i) = dhcpEnd := h 0 Nat.one_pos
    rw [endOption, if_pos hmark]
    rfl
  | cons option later ih =>
    rw [List.length_cons] at hfuel
    obtain ⟨fuel, rfl⟩ : ∃ n, fuel = n + 1 := ⟨fuel - 1, by omega⟩
    have hoption := hplain option List.mem_cons_self
    rw [List.flatMap_cons, List.append_assoc, holds_append] at h
    obtain ⟨hthis, hlater⟩ := h
    have hcode : packet (optionsOffset + i) = option.1 := hthis 0 (by simp [encode])
    have hlen : packet (optionsOffset + i + 1) = UInt8.ofNat option.2.length :=
      hthis 1 (by simp [encode])
    rw [length_encode] at hlater
    rw [endOption, hcode, if_neg hoption.notEnd, if_neg hoption.padding, hlen,
      hoption.toNat_length, size_cons]
    rw [ih (fun option hmem => hplain option (List.mem_cons_of_mem _ hmem))
      (by rwa [show optionsOffset + (i + option.2.length + 2) =
        optionsOffset + i + (2 + option.2.length) by omega]) (by omega)]
    congr 1
    omega

theorem length_le_size (options : List (UInt8 × List UInt8)) :
    2 * options.length ≤ size options := by
  induction options with
  | nil => exact le_rfl
  | cons option later ih =>
    rw [size_cons, List.length_cons]
    omega

theorem Carries.endOption (h : Carries packet options) :
    udhcpEndOption packet = some (size options) := by
  have hroom := h.room
  have hlength := length_le_size options
  rw [udhcpEndOption, endOption_eq (i := 0) h.plain h.bytes (by omega), Nat.zero_add]

theorem Plain.addopt_len {addopt : Nat → UInt8} (hplain : Plain option)
    (hopt : Holds addopt 0 (encode option)) : (addopt 1).toNat = option.2.length := by
  have hbyte : addopt 1 = UInt8.ofNat option.2.length := hopt 1 (by simp [encode])
  rw [hbyte, hplain.toNat_length]

theorem Carries.refused {addopt : Nat → UInt8} (h : Carries packet options)
    (hplain : Plain option) (hopt : Holds addopt 0 (encode option))
    (hfull : size options + (2 + option.2.length) + 1 ≥ dhcpOptionsBufsize) :
    udhcpAddBinaryOption packet addopt = some packet := by
  rw [udhcpAddBinaryOption, h.endOption, Option.map_some, hplain.addopt_len hopt]
  exact congrArg some (if_pos hfull)

/-- An option that is added stands behind the others, or the packet is as it was. -/
theorem Carries.add {addopt : Nat → UInt8} (h : Carries packet options) (hplain : Plain option)
    (hopt : Holds addopt 0 (encode option)) :
    ∃ packet', udhcpAddBinaryOption packet addopt = some packet' ∧
      Carries packet' (accept options option) ∧
      ∀ i, i < optionsOffset ∨ dhcpSize ≤ i → packet' i = packet i := by
  rw [accept]
  by_cases hfull : size options + (2 + option.2.length) + 1 ≥ dhcpOptionsBufsize
  · rw [if_pos hfull]
    exact ⟨packet, h.refused hplain hopt hfull, h, fun _ _ => rfl⟩
  have hlen := hplain.addopt_len hopt
  have hcopy : (List.range (2 + (addopt 1).toNat)).map addopt = encode option := by
    apply List.ext_getElem
    · rw [List.length_map, List.length_range, length_encode, hlen]
    · intro i hi hi'
      rw [List.getElem_map, List.getElem_range, ← hopt i hi', Nat.zero_add]
  rw [udhcpAddBinaryOption, h.endOption, Option.map_some]
  dsimp only
  rw [hcopy, hlen, if_neg hfull, if_neg hfull]
  have hmax : dhcpOptionsBufsize = 308 := rfl
  have hstart : optionsOffset = 240 := rfl
  have hend : dhcpSize = 548 := rfl
  have hencode := length_encode option
  have hsize : (options.flatMap encode).length = size options := rfl
  obtain ⟨hbefore, -⟩ := holds_append.mp h.bytes
  refine ⟨_, rfl, ⟨?_, ?_, ?_⟩, fun i hi => ?_⟩
  · rw [List.flatMap_append, List.flatMap_singleton, List.append_assoc]
    refine holds_append.mpr ⟨?_, holds_append.mpr ⟨?_, ?_⟩⟩
    · refine (hbefore.store (.inl le_rfl)).store (.inl ?_)
      rw [hsize]
      exact Nat.le_add_right _ _
    · refine (holds_store _ _ _).store (.inl ?_)
      rw [hencode]
    · rw [hencode, hsize]
      exact holds_store _ _ _
  · rw [size_append, size_cons]
    change size options + (2 + option.2.length + 0) + 1 < _
    omega
  · intro option' hmem
    obtain hold | hnew := List.mem_append.mp hmem
    · exact h.plain option' hold
    · rwa [List.mem_singleton.mp hnew]
  · obtain hlow | hhigh := hi
    · rw [store_before _ _ (by omega), store_before _ _ (by omega)]
    · rw [store_behind _ (by rw [List.length_singleton]; omega),
        store_behind _ (by rw [hencode]; omega)]

/-- The search finds the first option of the code. -/
theorem findOption_eq (hplain : ∀ option ∈ options, Plain option) {rem : Nat}
    (h : Holds packet addr (options.flatMap encode ++ [dhcpEnd]))
    (hrem : size options + 1 ≤ rem) (code : UInt8) :
    match options.find? (·.1 = code) with
    | none => findOption packet code addr rem 0 = none
    | some option => ∃ found, findOption packet code addr rem 0 = some (found + 2) ∧
      Holds packet found (encode option) := by
  induction options generalizing addr rem with
  | nil =>
    have hmark : packet addr = dhcpEnd := h 0 Nat.one_pos
    rw [List.find?_nil]
    dsimp only
    rw [findOption, if_neg (by omega), hmark, if_neg (by decide), if_pos rfl,
      if_neg (by decide), if_neg (by decide)]
  | cons option later ih =>
    have hoption := hplain option List.mem_cons_self
    rw [List.flatMap_cons, List.append_assoc, holds_append] at h
    obtain ⟨hthis, hlater⟩ := h
    have hcode : packet addr = option.1 := hthis 0 (by simp [encode])
    have hlen : packet (addr + 1) = UInt8.ofNat option.2.length := hthis 1 (by simp [encode])
    rw [size_cons] at hrem
    rw [length_encode] at hlater
    have hstep : findOption packet code addr rem 0 = if option.1 = code then some (addr + 2)
        else findOption packet code (addr + (2 + option.2.length))
          (rem - (2 + option.2.length) : Nat) 0 := by
      rw [findOption, if_neg (by omega), hcode, if_neg hoption.padding, if_neg hoption.notEnd, hlen,
        hoption.toNat_length]
      dsimp only
      rw [if_neg (by omega), if_neg hoption.overload]
      congr 2
      omega
    rw [hstep]
    by_cases hfound : option.1 = code
    · rw [List.find?_cons_of_pos (by simpa using hfound), if_pos hfound]
      exact ⟨addr, rfl, hthis⟩
    · rw [List.find?_cons_of_neg (by simpa using hfound), if_neg hfound]
      exact ih (fun option hmem => hplain option (List.mem_cons_of_mem _ hmem)) hlater (by omega)

theorem Carries.reads (h : Carries packet options) : Reads packet options := by
  intro code
  have hroom := h.room
  exact findOption_eq h.plain h.bytes (by omega) code

/-- The calls one after the other. -/
def addOptions (packet : DhcpPacket) : List (UInt8 × List UInt8) → Option DhcpPacket
  | [] => some packet
  | option :: later =>
    (udhcpAddBinaryOption packet ((encode option).getD · 0)).bind fun packet =>
      addOptions packet later

theorem holds_getD (bytes : List UInt8) : Holds (bytes.getD · 0) 0 bytes := by
  intro i hi
  dsimp only
  rw [Nat.zero_add]
  exact List.getD_eq_getElem _ _ hi

theorem Carries.addOptions (h : Carries packet options) {adds : List (UInt8 × List UInt8)}
    (hplain : ∀ option ∈ adds, Plain option) :
    ∃ packet', OptionCodec.addOptions packet adds = some packet' ∧
      Carries packet' (adds.foldl accept options) ∧
      ∀ i, i < optionsOffset ∨ dhcpSize ≤ i → packet' i = packet i := by
  induction adds generalizing packet options with
  | nil => exact ⟨packet, rfl, h, fun _ _ => rfl⟩
  | cons option later ih =>
    obtain ⟨middle, hadd, hmiddle, hsame⟩ :=
      h.add (hplain option List.mem_cons_self) (holds_getD (encode option))
    obtain ⟨packet', hall, hcarries, hrest⟩ :=
      ih hmiddle fun option hmem => hplain option (List.mem_cons_of_mem _ hmem)
    refine ⟨packet', ?_, hcarries, fun i hi => (hrest i hi).trans (hsame i hi)⟩
    rw [OptionCodec.addOptions, hadd, Option.bind_some, hall]

theorem carries_nil (h : packet optionsOffset = dhcpEnd) : Carries packet [] where
  bytes := by
    intro i hi
    obtain rfl : i = 0 := Nat.lt_one_iff.mp hi
    exact h
  room := by decide
  plain := fun _ hmem => absurd hmem List.not_mem_nil

/-- The options that are accepted stand one behind the other with the end behind them, and are
found as they were added, the first one of each code. -/
theorem options_round_trip (hend : packet optionsOffset = dhcpEnd)
    {adds : List (UInt8 × List UInt8)} (hplain : ∀ option ∈ adds, Plain option) :
    ∃ packet', addOptions packet adds = some packet' ∧ Carries packet' (adds.foldl accept []) ∧
      udhcpEndOption packet' = some (size (adds.foldl accept [])) ∧
      Reads packet' (adds.foldl accept []) ∧
      (∀ option, Plain option →
        dhcpOptionsBufsize ≤ size (adds.foldl accept []) + (2 + option.2.length) + 1 →
        udhcpAddBinaryOption packet' ((encode option).getD · 0) = some packet') ∧
      ∀ i, i < optionsOffset ∨ dhcpSize ≤ i → packet' i = packet i := by
  obtain ⟨packet', hadds, hcarries, hsame⟩ := (carries_nil hend).addOptions hplain
  refine ⟨packet', hadds, hcarries, hcarries.endOption, hcarries.reads, ?_, hsame⟩
  intro option hoption hfull
  exact hcarries.refused hoption (holds_getD (encode option)) hfull

/-- Two options of the same code, and one that does not fit behind them. -/
theorem options_round_trip_three :
    let adds : List (UInt8 × List UInt8) :=
      [(0x0c, [0x61, 0x62]), (0x0c, [0x63]), (0x11, List.replicate 250 0x2f),
        (0x0f, List.replicate 60 0x61)]
    let packet : DhcpPacket := fun i => if i = optionsOffset then dhcpEnd else 0
    ∃ packet', addOptions packet adds = some packet' ∧ Carries packet' (adds.foldl accept []) ∧
      udhcpEndOption packet' = some (size (adds.foldl accept [])) ∧
      Reads packet' (adds.foldl accept []) ∧
      (∀ option, Plain option →
        dhcpOptionsBufsize ≤ size (adds.foldl accept []) + (2 + option.2.length) + 1 →
        udhcpAddBinaryOption packet' ((encode option).getD · 0) = some packet') ∧
      ∀ i, i < optionsOffset ∨ dhcpSize ≤ i → packet' i = packet i :=
  options_round_trip rfl (by
    intro option hmem
    simp only [List.mem_cons, List.not_mem_nil, or_false] at hmem
    obtain rfl | rfl | rfl | rfl := hmem
    · exact ⟨by decide, by decide, by decide, by decide⟩
    · exact ⟨by decide, by decide, by decide, by decide⟩
    · exact ⟨by decide, by decide, by decide, List.length_replicate.trans_lt (by decide)⟩
    · exact ⟨by decide, by decide, by decide, List.length_replicate.trans_lt (by decide)⟩)

/-! ### The replies -/

variable {r : Reply} {config : ServerConfig} {oldpacket : DhcpPacket} {heap : Nat → UInt8}
  {type : UInt8}

theorem plain {code : UInt8} {data : List UInt8} (hpadding : code ≠ dhcpPadding)
    (hend : code ≠ dhcpEnd) (hoverload : code ≠ dhcpOptionOverload) (hlen : data.length < 256) :
    Plain (code, data) := ⟨hpadding, hend, hoverload, hlen⟩

theorem Carries.addSimple {dh : OptionType × UInt8} {n : Nat} (h : Carries packet options)
    (code : UInt8) (data : UInt32) (hfind : dhcpOptflags.find? (·.2 = code) = some dh)
    (hlen : dhcpOptionLengths dh.1 = UInt8.ofNat n) (hn : n ≤ 4)
    (hplain : Plain (code, (bytes32 data).take n)) :
    ∃ packet', udhcpAddSimpleOption packet code data = some packet' ∧
      Carries packet' (accept options (code, (bytes32 data).take n)) ∧
      ∀ i, i < optionsOffset ∨ dhcpSize ≤ i → packet' i = packet i := by
  rw [udhcpAddSimpleOption, hfind]
  refine h.add hplain ?_
  have htake : ((bytes32 data).take n).length = n := by
    rw [List.length_take]
    exact Nat.min_eq_left hn
  have hpre : [code, dhcpOptionLengths dh.1] ++ bytes32 data =
      encode (code, (bytes32 data).take n) ++ (bytes32 data).drop n := by
    rw [encode, List.append_assoc, List.take_append_drop, htake, hlen]
  rw [hpre]
  exact (holds_append.mp (holds_getD _)).1

/-- The fields are in front of the options. -/
theorem Represents.congr (h : Represents packet r) (hcarries : Carries packet' options)
    (hsame : ∀ i < optionsOffset, packet' i = packet i) :
    Represents packet' { r with options := options } := by
  have hstart : optionsOffset = 240 := rfl
  have hword {addr : Nat} (haddr : addr + 3 < optionsOffset) :
      moveFromUnaligned32 packet' addr = moveFromUnaligned32 packet addr := by
    rw [moveFromUnaligned32, hsame _ (by omega), hsame _ (by omega), hsame _ (by omega),
      hsame _ haddr]
    rfl
  constructor
  · exact (hsame 0 (by decide)).trans h.op
  · exact (hsame 2 (by decide)).trans h.hlen
  · exact (hword (by decide)).trans h.xid
  · rw [← h.flags, DhcpPacket.flags, hsame 10 (by decide), hsame 11 (by decide)]
    rfl
  · exact (hword (by decide)).trans h.ciaddr
  · exact (hword (by decide)).trans h.yiaddr
  · exact (hword (by decide)).trans h.siaddrNip
  · exact (hword (by decide)).trans h.gatewayNip
  · rw [← h.chaddr, DhcpPacket.chaddr, DhcpPacket.chaddr]
    congr 1
    funext i
    exact hsame _ (by omega)
  · exact (hword (by decide)).trans h.cookie
  · exact hcarries

theorem Represents.addSimple {dh : OptionType × UInt8} (h : Represents packet r) (code : UInt8)
    (data : UInt32) (hfind : dhcpOptflags.find? (·.2 = code) = some dh)
    (hlen : dhcpOptionLengths dh.1 = 4) (hplain : Plain (code, bytes32 data))
    (hroom : size r.options + 7 < dhcpOptionsBufsize) :
    ∃ packet', udhcpAddSimpleOption packet code data = some packet' ∧
      Represents packet' (Dhcpd.udhcpAddSimpleOption r code data) := by
  obtain ⟨packet', hadd, hcarries, hsame⟩ :=
    h.options.addSimple (n := 4) code data hfind hlen le_rfl hplain
  refine ⟨packet', hadd, ?_⟩
  have haccept : accept r.options (code, (bytes32 data).take 4) =
      r.options ++ [(code, bytes32 data)] := by
    have hfour : ((bytes32 data).take 4).length = 4 := rfl
    rw [accept, hfour, if_neg (by omega)]
    rfl
  rw [haccept] at hcarries
  exact h.congr hcarries fun i hi => hsame i (.inl hi)

/-- What `udhcp_init_header` leaves. -/
structure Header (type : UInt8) (packet : DhcpPacket) : Prop where
  op : packet 0 = bootreply
  hlen : packet 2 = 6
  cookie : Holds packet cookieOffset (bytes32 (htonl dhcpMagic))
  zero : ∀ i, 3 ≤ i → i < cookieOffset → packet i = 0
  options : Carries packet [(dhcpMessageType, [type])]

theorem udhcpInitHeader_eq (heap : Nat → UInt8)
    (htype : type = dhcpOffer ∨ type = dhcpAck ∨ type = dhcpNak) :
    ∃ packet, udhcpInitHeader heap type = some packet ∧ Header type packet := by
  rw [udhcpInitHeader, if_pos htype]
  generalize hstart : store (store (store (store (store (store heap 0
    (List.replicate dhcpSize 0)) 0 [bootreply]) 1 [1]) 2 [6]) cookieOffset
    (bytes32 (htonl dhcpMagic))) optionsOffset [dhcpEnd] = start
  have hend : start optionsOffset = dhcpEnd := by
    rw [← hstart]
    exact (holds_store _ optionsOffset [dhcpEnd]) 0 Nat.one_pos
  have hdata : (bytes32 type.toUInt32).take 1 = [type] := by
    rw [bytes32, List.take_succ_cons, List.take_zero, UInt8.toUInt8_toUInt32]
  obtain ⟨packet, hadd, hcarries, hsame⟩ := (carries_nil hend).addSimple (n := 1)
    dhcpMessageType type.toUInt32 rfl rfl (by decide)
    (by rw [hdata]; exact plain (by decide) (by decide) (by decide) (by simp))
  refine ⟨packet, hadd, ?_, ?_, ?_, ?_, ?_⟩
  · rw [hsame 0 (.inl (by decide)), ← hstart]
    rfl
  · rw [hsame 2 (.inl (by decide)), ← hstart]
    rfl
  · have hcookie : Holds start cookieOffset (bytes32 (htonl dhcpMagic)) := by
      rw [← hstart]
      exact (holds_store _ _ _).store (.inl (by simp [cookieOffset, optionsOffset, bytes32]))
    refine hcookie.congr fun i _ hi => hsame i (.inl (hi.trans_le ?_))
    simp [cookieOffset, optionsOffset, bytes32]
  · intro i hlow hhigh
    have hcookie : cookieOffset = 236 := rfl
    have hoptions : optionsOffset = 240 := rfl
    have hsize : dhcpSize = 548 := rfl
    rw [hsame i (.inl (by omega)), ← hstart, store_before _ _ (by omega),
      store_before _ _ (by omega), store_behind _ hlow,
      store_behind _ (by rw [List.length_singleton]; omega),
      store_behind _ (by rw [List.length_singleton]; omega)]
    have hin : i < (List.replicate dhcpSize (0 : UInt8)).length := by
      rw [List.length_replicate]
      omega
    have hzero := holds_store heap 0 (List.replicate dhcpSize 0) i hin
    rw [Nat.zero_add, List.getElem_replicate] at hzero
    exact hzero
  · rw [accept, hdata] at hcarries
    exact hcarries

theorem initPacket_eq (heap : Nat → UInt8) (config : ServerConfig) (oldpacket : DhcpPacket)
    (htype : type = dhcpOffer ∨ type = dhcpAck ∨ type = dhcpNak) :
    ∃ packet, initPacket heap config oldpacket type = some packet ∧
      Represents packet (Dhcpd.initPacket config oldpacket type) := by
  obtain ⟨header, hheader, hinit⟩ := udhcpInitHeader_eq heap htype
  rw [initPacket, hheader, Option.bind_some]
  dsimp only
  generalize hfields : store (store (store (store (store header 4 (bytes32 oldpacket.xid)) 28
    oldpacket.chaddr.toList) 10 [oldpacket.flags.toUInt8, (oldpacket.flags >>> 8).toUInt8]) 24
    (bytes32 oldpacket.gatewayNip)) 12 (bytes32 oldpacket.ciaddr) = fields
  have hchaddr : oldpacket.chaddr.toList.length = 16 := Vector.length_toList
  have hword (x : UInt32) : (bytes32 x).length = 4 := rfl
  have hzero (addr : Nat) (hlow : 3 ≤ addr) (hhigh : addr + 4 ≤ cookieOffset) :
      Holds header addr (bytes32 0) := by
    intro i hi
    have hcell : (bytes32 0)[i] = 0 := by
      rw [hword] at hi
      interval_cases i <;> rfl
    rw [hcell]
    exact hinit.zero _ (by omega) (by rw [hword] at hi; omega)
  have hrepresents : Represents fields { Dhcpd.initPacket config oldpacket type with
      options := [(dhcpMessageType, [type])] } := by
    constructor
    · rw [DhcpPacket.op, ← hfields, store_before _ _ (by decide), store_before _ _ (by decide),
        store_before _ _ (by decide), store_before _ _ (by decide), store_before _ _ (by decide)]
      exact hinit.op
    · rw [DhcpPacket.hlen, ← hfields, store_before _ _ (by decide), store_before _ _ (by decide),
        store_before _ _ (by decide), store_before _ _ (by decide), store_before _ _ (by decide)]
      exact hinit.hlen
    · refine moveFromUnaligned32_bytes32 ?_
      rw [← hfields]
      refine ((((holds_store _ _ _).store (.inl ?_)).store (.inl ?_)).store (.inl ?_)).store
        (.inl ?_) <;> simp [bytes32]
    · have hflags : Holds fields 10
          [oldpacket.flags.toUInt8, (oldpacket.flags >>> 8).toUInt8] := by
        rw [← hfields]
        refine ((holds_store _ _ _).store (.inl ?_)).store (.inl ?_) <;> simp
      exact flags_of_bytes (hflags 0 (by simp)) (hflags 1 (by simp))
    · refine moveFromUnaligned32_bytes32 ?_
      rw [← hfields]
      exact holds_store _ _ _
    · refine moveFromUnaligned32_bytes32 ?_
      rw [← hfields]
      refine (((((hzero 16 (by decide) (by decide)).store (.inr ?_)).store (.inl ?_)).store
        (.inr ?_)).store (.inl ?_)).store (.inr ?_) <;> simp [bytes32]
    · refine moveFromUnaligned32_bytes32 ?_
      rw [← hfields]
      refine (((((hzero 20 (by decide) (by decide)).store (.inr ?_)).store (.inl ?_)).store
        (.inr ?_)).store (.inl ?_)).store (.inr ?_) <;> simp [bytes32]
    · refine moveFromUnaligned32_bytes32 ?_
      rw [← hfields]
      refine (holds_store _ _ _).store (.inr ?_)
      simp [bytes32]
    · have hall : Holds fields 28 oldpacket.chaddr.toList := by
        rw [← hfields]
        refine (((holds_store _ _ _).store (.inr ?_)).store (.inr ?_)).store (.inr ?_) <;>
          simp [bytes32]
      apply Vector.ext
      intro i hi
      have hbyte := hall i (by rwa [hchaddr])
      rw [DhcpPacket.chaddr, Vector.getElem_ofFn, hbyte, Vector.getElem_toList]
      rfl
    · refine moveFromUnaligned32_bytes32 ?_
      rw [← hfields]
      refine ((((hinit.cookie.store (.inr ?_)).store (.inr ?_)).store (.inr ?_)).store
        (.inr ?_)).store (.inr ?_) <;> simp [cookieOffset, bytes32]
    · refine ⟨?_, hinit.options.room, hinit.options.plain⟩
      rw [← hfields]
      refine ((((hinit.options.bytes.store (.inr ?_)).store (.inr ?_)).store (.inr ?_)).store
        (.inr ?_)).store (.inr ?_) <;> simp [optionsOffset, bytes32]
  obtain ⟨packet, hadd, hpacket⟩ := hrepresents.addSimple dhcpServerId config.serverNip rfl rfl
    (plain (by decide) (by decide) (by decide) (show 4 < 256 by decide))
    (by simp [size, encode, dhcpOptionsBufsize])
  exact ⟨packet, hadd, hpacket⟩

theorem store_apart (x : UInt32) {i : Nat} (h : i < addr ∨ addr + 4 ≤ i) :
    store packet addr (bytes32 x) i = packet i := by
  obtain hbefore | hbehind := h
  · exact store_before _ _ hbefore
  · exact store_behind _ hbehind

theorem moveFromUnaligned32_apart (x : UInt32) {addr' : Nat}
    (h : addr' + 4 ≤ addr ∨ addr + 4 ≤ addr') :
    moveFromUnaligned32 (store packet addr (bytes32 x)) addr' =
      moveFromUnaligned32 packet addr' := by
  rw [moveFromUnaligned32, store_apart x (by omega), store_apart x (by omega),
    store_apart x (by omega), store_apart x (by omega)]
  rfl

theorem chaddr_apart (x : UInt32) (h : addr + 4 ≤ 28) :
    DhcpPacket.chaddr (store packet addr (bytes32 x)) = packet.chaddr := by
  rw [DhcpPacket.chaddr, DhcpPacket.chaddr]
  congr 1
  funext i
  exact store_apart x (.inr (by omega))

theorem Carries.apart (h : Carries packet options) (x : UInt32) (haddr : addr + 4 ≤ optionsOffset) :
    Carries (store packet addr (bytes32 x)) options :=
  ⟨h.bytes.store (.inr haddr), h.room, h.plain⟩

theorem Represents.setYiaddr (h : Represents packet r) (yiaddr : UInt32) :
    Represents (store packet 16 (bytes32 yiaddr)) { r with yiaddr := yiaddr } where
  op := (store_apart yiaddr (.inl (by decide))).trans h.op
  hlen := (store_apart yiaddr (.inl (by decide))).trans h.hlen
  xid := (moveFromUnaligned32_apart yiaddr (.inl (by decide))).trans h.xid
  flags := by
    rw [DhcpPacket.flags, store_apart yiaddr (.inl (by decide)),
      store_apart yiaddr (.inl (by decide))]
    exact h.flags
  ciaddr := (moveFromUnaligned32_apart yiaddr (.inl (by decide))).trans h.ciaddr
  yiaddr := moveFromUnaligned32_bytes32 (holds_store _ _ _)
  siaddrNip := (moveFromUnaligned32_apart yiaddr (.inr (by decide))).trans h.siaddrNip
  gatewayNip := (moveFromUnaligned32_apart yiaddr (.inr (by decide))).trans h.gatewayNip
  chaddr := (chaddr_apart yiaddr (by decide)).trans h.chaddr
  cookie := (moveFromUnaligned32_apart yiaddr (.inr (by decide))).trans h.cookie
  options := h.options.apart yiaddr (by decide)

theorem Represents.addServerOptions (h : Represents packet r) (config : ServerConfig) :
    Represents (OptionCodec.addServerOptions config packet)
      (Dhcpd.addServerOptions config r) where
  op := by
    rw [OptionCodec.addServerOptions, DhcpPacket.op, store_apart _ (.inl (by decide))]
    exact h.op
  hlen := by
    rw [OptionCodec.addServerOptions, DhcpPacket.hlen, store_apart _ (.inl (by decide))]
    exact h.hlen
  xid := (moveFromUnaligned32_apart _ (.inl (by decide))).trans h.xid
  flags := by
    rw [OptionCodec.addServerOptions, DhcpPacket.flags, store_apart _ (.inl (by decide)),
      store_apart _ (.inl (by decide))]
    exact h.flags
  ciaddr := (moveFromUnaligned32_apart _ (.inl (by decide))).trans h.ciaddr
  yiaddr := (moveFromUnaligned32_apart _ (.inl (by decide))).trans h.yiaddr
  siaddrNip := moveFromUnaligned32_bytes32 (holds_store _ _ _)
  gatewayNip := (moveFromUnaligned32_apart _ (.inr (by decide))).trans h.gatewayNip
  chaddr := (chaddr_apart _ (by decide)).trans h.chaddr
  cookie := (moveFromUnaligned32_apart _ (.inr (by decide))).trans h.cookie
  options := h.options.apart _ (by decide)

theorem size_simple (options : List (UInt8 × List UInt8)) (code : UInt8) (data : UInt32) :
    size (options ++ [(code, bytes32 data)]) = size options + 6 := by
  rw [size_append, size_cons]
  rfl

theorem Represents.addLeaseOptions (h : Represents packet r)
    (hroom : size r.options + 25 < dhcpOptionsBufsize) (config : ServerConfig)
    (yiaddr leaseTimeSec : UInt32) :
    ∃ packet', OptionCodec.addLeaseOptions config packet yiaddr leaseTimeSec = some packet' ∧
      Represents packet'
        (Dhcpd.addLeaseOptions config { r with yiaddr := yiaddr } leaseTimeSec) := by
  have hfour : 4 < 256 := by decide
  obtain ⟨p₁, hadd₁, h₁⟩ := (h.setYiaddr yiaddr).addSimple dhcpLeaseTime
    (htonl leaseTimeSec) rfl rfl
    (plain (by decide) (by decide) (by decide) hfour) (by dsimp only; omega)
  obtain ⟨p₂, hadd₂, h₂⟩ := h₁.addSimple 0x01 (htonl config.subnet) rfl rfl
    (plain (by decide) (by decide) (by decide) hfour)
    (by rw [Dhcpd.udhcpAddSimpleOption, size_simple]; dsimp only; omega)
  obtain ⟨p₃, hadd₃, h₃⟩ := h₂.addSimple 0x03 (htonl config.gw) rfl rfl
    (plain (by decide) (by decide) (by decide) hfour)
    (by
      rw [Dhcpd.udhcpAddSimpleOption, Dhcpd.udhcpAddSimpleOption, size_simple, size_simple]
      dsimp only
      omega)
  obtain ⟨p₄, hadd₄, h₄⟩ := h₃.addSimple 0x06 (htonl config.dns) rfl rfl
    (plain (by decide) (by decide) (by decide) hfour)
    (by
      rw [Dhcpd.udhcpAddSimpleOption, Dhcpd.udhcpAddSimpleOption, Dhcpd.udhcpAddSimpleOption,
        size_simple, size_simple, size_simple]
      dsimp only
      omega)
  refine ⟨OptionCodec.addServerOptions config p₄, ?_, h₄.addServerOptions config⟩
  rw [OptionCodec.addLeaseOptions, hadd₁, Option.bind_some, hadd₂, Option.bind_some, hadd₃,
    Option.bind_some, hadd₄, Option.map_some]

/-! ### What a client receives -/

/-- `dhcp_pkt_len` of `send_packet_to_client` -/
def dhcpPktLen (packet : DhcpPacket) : Option Nat :=
  (udhcpEndOption packet).map fun i =>
    dhcpSize - min (dhcpOptionsBufsize - 1 - i) (dhcpSize - 300)

/-- A client that reads the datagram finds the reply in it, and its options. -/
def Received (packet : DhcpPacket) (r : Reply) : Prop :=
  ∃ len, dhcpPktLen packet = some len ∧ ∀ heap, ∃ received,
    udhcpRecvKernelPacket heap (some ((List.range len).map packet)) = some received ∧
    Represents received r ∧ Reads received r.options

theorem endOption_size (r : Reply) : Dhcpd.endOption r = size r.options := by
  rw [Dhcpd.endOption]
  induction r.options with
  | nil => rfl
  | cons option later ih =>
    rw [List.map_cons, List.sum_cons, ih, size_cons]

theorem Represents.dhcpPktLen_eq (h : Represents packet r) :
    dhcpPktLen packet = some (packetLen r) := by
  rw [dhcpPktLen, h.options.endOption, packetLen, endOption_size]
  rfl

/-- The padding that is cut off is none of it. -/
theorem Represents.received (h : Represents packet r) : Received packet r := by
  refine ⟨packetLen r, h.dhcpPktLen_eq, fun heap => ?_⟩
  have hlen : optionsOffset + size r.options + 1 ≤ packetLen r := by
    have hroom := h.options.room
    have hmax : dhcpOptionsBufsize = 308 := rfl
    have hsize : dhcpSize = 548 := rfl
    have hstart : optionsOffset = 240 := rfl
    rw [packetLen, endOption_size]
    omega
  have hle : packetLen r ≤ dhcpSize := Nat.sub_le _ _
  let received : DhcpPacket := fun i =>
    if i < dhcpSize then ((List.range (packetLen r)).map packet).getD i 0 else heap i
  have hsame (i : Nat) (hi : i < packetLen r) : received i = packet i := by
    have hin : i < ((List.range (packetLen r)).map packet).length := by
      rwa [List.length_map, List.length_range]
    change (if i < dhcpSize then _ else _) = _
    rw [if_pos (by omega), List.getD_eq_getElem _ _ hin, List.getElem_map, List.getElem_range]
  have hcarries : Carries received r.options := by
    refine ⟨h.options.bytes.congr fun i _ hi => hsame i ?_, h.options.room, h.options.plain⟩
    rw [List.length_append, List.length_singleton] at hi
    change i < optionsOffset + (size r.options + 1) at hi
    omega
  have hrepresents : Represents received r := h.congr hcarries fun i hi => hsame i (by omega)
  refine ⟨received, ?_, hrepresents, hcarries.reads⟩
  rw [udhcpRecvKernelPacket]
  exact if_neg (not_not.mpr hrepresents.cookie)

/-- Every reply that the server builds in its buffer reaches a client: an offer or an
acknowledgement, a refusal, and the answer to an inform. -/
theorem reply_received (heap : Nat → UInt8) (config : ServerConfig) (oldpacket : DhcpPacket)
    (yiaddr leaseTimeSec : UInt32)
    (htype : type = dhcpOffer ∨ type = dhcpAck ∨ type = dhcpNak) :
    ∃ packet, initPacket heap config oldpacket type = some packet ∧
      Received packet (Dhcpd.initPacket config oldpacket type) ∧
      Received (addServerOptions config packet)
        (Dhcpd.addServerOptions config (Dhcpd.initPacket config oldpacket type)) ∧
      ∃ lease, addLeaseOptions config packet yiaddr leaseTimeSec = some lease ∧
        Received lease (Dhcpd.addLeaseOptions config
          { Dhcpd.initPacket config oldpacket type with yiaddr := yiaddr } leaseTimeSec) := by
  obtain ⟨packet, hinit, hpacket⟩ := initPacket_eq heap config oldpacket htype
  have hroom : size (Dhcpd.initPacket config oldpacket type).options + 25 < dhcpOptionsBufsize :=
    show 9 + 25 < 308 by decide
  obtain ⟨lease, hlease, hrepresents⟩ :=
    hpacket.addLeaseOptions hroom config yiaddr leaseTimeSec
  exact ⟨packet, hinit, hpacket.received, (hpacket.addServerOptions config).received, lease,
    hlease, hrepresents.received⟩

/-- The acknowledgement of a day's lease. -/
theorem reply_received_ack :
    let config := loadConfig none 0x0101a8c0 0x0101a8c0 0x00ffffff
    let oldpacket : DhcpPacket := fun i => if i = 4 then 0x39 else 0
    ∃ packet, initPacket (fun _ => 0xa5) config oldpacket dhcpAck = some packet ∧
      Received packet (Dhcpd.initPacket config oldpacket dhcpAck) ∧
      Received (addServerOptions config packet)
        (Dhcpd.addServerOptions config (Dhcpd.initPacket config oldpacket dhcpAck)) ∧
      ∃ lease, addLeaseOptions config packet 0x6401a8c0 86400 = some lease ∧
        Received lease (Dhcpd.addLeaseOptions config
          { Dhcpd.initPacket config oldpacket dhcpAck with yiaddr := 0x6401a8c0 } 86400) :=
  reply_received _ _ _ _ _ (.inr (.inl rfl))

end Sv6x66.Udhcp.OptionCodec
