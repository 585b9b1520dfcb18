import Sv6x66.Colink.EspTouch

/-! A payload sent to the receiver of `esp_touch.c`: every byte goes out as three
packets of one group, whose lengths carry it with its index and a CRC. -/
namespace Sv6x66.Colink.EspDecode
open Function EspTouch

/-! ### What the phone sends -/

def datumCrcOf (value : UInt8) (i : Nat) : UInt8 := esptouchSmntCrc [value, UInt8.ofNat i]

/-- CRC high and data high. -/
def highCode (crc value : UInt8) : UInt8 :=
  (crc &&& (0xF0 : UInt8)) ||| (value >>> (4 : UInt8))

/-- CRC low and data low. -/
def lowCode (crc value : UInt8) : UInt8 :=
  ((crc &&& (0x0F : UInt8)) <<< (4 : UInt8)) ||| (value &&& (0x0F : UInt8))

structure Send where
  index : Nat
  group : UInt8
deriving DecidableEq, Repr

structure Phone where
  toDs : Bool
  bssid : Mac
  src : Mac
  /-- What the length of a packet has beyond its code. -/
  overhead : Nat

def groupMac (group : UInt8) : Mac := ![0x01, 0x00, 0x5E, group, group, group]

def Phone.frame (phone : Phone) (group : UInt8) (code : Nat) : Frame :=
  let length := espTouchPacketSub + phone.overhead + code
  if phone.toDs then ⟨true, phone.bssid, phone.src, groupMac group, length⟩
  else ⟨false, groupMac group, phone.bssid, phone.src, length⟩

section Fields

variable (phone : Phone) (group : UInt8) (code : Nat)

@[simp] theorem Phone.frame_pDest : (phone.frame group code).pDest = groupMac group := by
  unfold Phone.frame Frame.pDest
  cases phone.toDs <;> rfl

@[simp] theorem Phone.frame_pSrc : (phone.frame group code).pSrc = phone.src := by
  unfold Phone.frame Frame.pSrc
  cases phone.toDs <;> rfl

@[simp] theorem Phone.frame_pBssid : (phone.frame group code).pBssid = phone.bssid := by
  unfold Phone.frame Frame.pBssid
  cases phone.toDs <;> rfl

@[simp] theorem Phone.frame_length : (phone.frame group code).length =
    espTouchPacketSub + phone.overhead + code := by
  unfold Phone.frame
  cases phone.toDs <;> rfl

@[simp] theorem macMulticast_groupMac : MacMulticast (groupMac group) := ⟨rfl, rfl, rfl⟩

@[simp] theorem sameGroup_groupMac : SameGroup (groupMac group) := ⟨rfl, rfl⟩

end Fields

def byteAt (bytes : List UInt8) (i : Nat) : UInt8 := bytes.getD i 0

def lowCodeOf (bytes : List UInt8) (send : Send) : UInt8 :=
  lowCode (datumCrcOf (byteAt bytes send.index) send.index) (byteAt bytes send.index)

def highCodeOf (bytes : List UInt8) (send : Send) : UInt8 :=
  highCode (datumCrcOf (byteAt bytes send.index) send.index) (byteAt bytes send.index)

def datumFrames (phone : Phone) (bytes : List UInt8) (send : Send) : List Frame :=
  [phone.frame send.group (highCodeOf bytes send).toNat,
    phone.frame send.group (0x100 + send.index),
    phone.frame send.group (lowCodeOf bytes send).toNat]

def receiveDatum (phone : Phone) (bytes : List UInt8) (s : Smnt) (send : Send) : Option Smnt :=
  (datumFrames phone bytes send).foldlM esptouchSmntDatahandler s

def receive (phone : Phone) (bytes : List UInt8) (s : Smnt) (sends : List Send) : Option Smnt :=
  sends.foldlM (receiveDatum phone bytes) s

/-! ### Codes and bytes -/

theorem datumValue_codes (crc value : UInt8) (second : UInt16) :
    datumValue ![(highCode crc value).toUInt16, second, (lowCode crc value).toUInt16] = value := by
  simp only [datumValue, highCode, lowCode]
  apply UInt8.toBitVec_inj.mp
  apply BitVec.eq_of_getLsbD_eq
  intro bit hbit
  interval_cases bit <;> simp [-UInt8.toUInt16_shiftLeft]

theorem datumCrc_codes (crc value : UInt8) (second : UInt16) :
    datumCrc ![(highCode crc value).toUInt16, second, (lowCode crc value).toUInt16] = crc := by
  simp only [datumCrc, highCode, lowCode]
  apply UInt8.toBitVec_inj.mp
  apply BitVec.eq_of_getLsbD_eq
  intro bit hbit
  interval_cases bit <;> simp [-UInt8.toUInt16_shiftLeft]

theorem datumIndex_code (first third : UInt16) (i : Nat) :
    datumIndex ![first, UInt16.ofNat (0x100 + i), third] = UInt8.ofNat i := by
  unfold datumIndex
  apply UInt8.toNat_inj.mp
  have hmask : ∀ n : Nat, n &&& 255 = n % 256 := fun n => Nat.and_two_pow_sub_one_eq_mod n 8
  simp [hmask]

/-- The three packets of a byte are its datum. -/
theorem checkDatum_codes (value : UInt8) {i : Nat} (hi : i < 128) :
    checkDatum ![(highCode (datumCrcOf value i) value).toUInt16, UInt16.ofNat (0x100 + i),
      (lowCode (datumCrcOf value i) value).toUInt16] = some ⟨UInt8.ofNat i, value⟩ := by
  unfold checkDatum
  rw [datumValue_codes, datumCrc_codes, datumIndex_code]
  have hheader : (![(highCode (datumCrcOf value i) value).toUInt16, UInt16.ofNat (0x100 + i),
      (lowCode (datumCrcOf value i) value).toUInt16] : Fin 3 → UInt16) 1 ≥ 0x100 := by
    change (0x100 : UInt16) ≤ UInt16.ofNat (0x100 + i)
    rw [UInt16.le_iff_toNat_le, UInt16.toNat_ofNat', Nat.mod_eq_of_lt (by omega)]
    simp
  rw [if_pos hheader, if_pos (by rfl)]

/-! ### One packet -/

/-- Locked on this phone with its overhead. -/
structure Listening (phone : Phone) (s : Smnt) : Prop where
  locked : s.state = .locked
  source : s.syncAppMac = phone.src
  overhead : s.offsetLen.toNat = phone.overhead

theorem toUint16_natCast (n : Nat) : toUint16 (n : Int) = UInt16.ofNat n := by
  unfold toUint16
  apply UInt16.toNat_inj.mp
  rw [UInt16.toNat_ofNat', UInt16.toNat_ofNat']
  omega

theorem datahandler_frame {phone : Phone} {s : Smnt} (h : Listening phone s) (group : UInt8)
    (code : Nat) :
    esptouchSmntDatahandler s (phone.frame group code) =
      esptouchSmntMuticastadd s (groupMac group)
        ((s.offsetLen.toNat + espTouchPacketSub : Nat) + (code : Int)) := by
  have hlength : ((phone.frame group code).length : Int) =
      (s.offsetLen.toNat + espTouchPacketSub : Nat) + (code : Int) := by
    rw [Phone.frame_length, h.overhead]
    push_cast
    ring
  unfold esptouchSmntDatahandler
  simp [h.locked, h.source, hlength, -Phone.frame_length]

/-- A packet of a group that is not under way begins a datum. -/
def beginDatum (s : Smnt) (group : UInt8) (code : Nat) : Smnt :=
  { holdChannel s with
    packetData := update s.packetData 0 (UInt16.ofNat code)
    groupAddr := group
    packetCount := 1 }

/-- A further packet of the datum under way. -/
def addPacket (s : Smnt) (count : Fin 3) (code : Nat) : Smnt :=
  { holdChannel s with
    packetData := update s.packetData count (UInt16.ofNat code)
    packetCount := s.packetCount + 1 }

/-- What a packet of a code does, by the group and the packets there. -/
theorem takePacket_code (s : Smnt) (group : UInt8) {code : Nat} (hcode : code < 384) :
    takePacket s (groupMac group) ((s.offsetLen.toNat + espTouchPacketSub : Nat) + (code : Int)) =
      if s.groupAddr = group then
        if h : s.packetCount.toNat < 3 then
          if (s.packetData ⟨_, h⟩).toNat = code then some (.ignored, holdChannel s)
          else some (if (s.packetCount + 1).toNat = dataPacketNum then .last else .next,
            addPacket s ⟨_, h⟩ code)
        else none
      else some (.first, beginDatum s group code) := by
  have hshort : ¬ (code : Int) ≥ (espTouchMaxNum + 0x100 : Nat) := by
    simp only [espTouchMaxNum]
    omega
  have hlength : ((s.offsetLen.toNat + espTouchPacketSub : Nat) + (code : Int)) -
      ((holdChannel s).offsetLen.toNat + espTouchPacketSub : Nat) = (code : Int) :=
    add_sub_cancel_left _ _
  unfold takePacket
  rw [if_neg (not_not.mpr (sameGroup_groupMac group))]
  dsimp only
  rw [hlength, if_neg hshort, toUint16_natCast]
  simp only [Nat.cast_inj]
  rfl

theorem takePacket_again {s : Smnt} {group : UInt8} {code : Nat} {count : Fin 3}
    (hgroup : s.groupAddr = group) (hcount : s.packetCount.toNat = count) (hcode : code < 384)
    (hnew : (s.packetData count).toNat ≠ code) :
    takePacket s (groupMac group) ((s.offsetLen.toNat + espTouchPacketSub : Nat) + (code : Int)) =
      some (if count = 2 then .last else .next, addPacket s count code) := by
  have hlt : s.packetCount.toNat < 3 := by
    rw [hcount]
    exact count.isLt
  have hslot : (⟨s.packetCount.toNat, hlt⟩ : Fin 3) = count := Fin.ext hcount
  have hlast : (s.packetCount + 1).toNat = dataPacketNum ↔ count = 2 := by
    rw [UInt8.toNat_add, hcount]
    simp only [dataPacketNum, UInt8.toNat_one]
    have := count.isLt
    omega
  rw [takePacket_code s group hcode, if_pos hgroup, dif_pos hlt, hslot, if_neg hnew]
  simp only [hlast]

/-- A packet of the length kept in its slot is taken for a repetition. -/
theorem takePacket_repeat {s : Smnt} {group : UInt8} {code : Nat} {count : Fin 3}
    (hgroup : s.groupAddr = group) (hcount : s.packetCount.toNat = count) (hcode : code < 384)
    (hold : (s.packetData count).toNat = code) :
    takePacket s (groupMac group) ((s.offsetLen.toNat + espTouchPacketSub : Nat) + (code : Int)) =
      some (.ignored, holdChannel s) := by
  have hlt : s.packetCount.toNat < 3 := by
    rw [hcount]
    exact count.isLt
  have hslot : (⟨s.packetCount.toNat, hlt⟩ : Fin 3) = count := Fin.ext hcount
  rw [takePacket_code s group hcode, if_pos hgroup, dif_pos hlt, hslot, if_pos hold]

/-! ### One datum -/

/-- After two packets of a datum. -/
def twoPackets (s : Smnt) (bytes : List UInt8) (send : Send) : Smnt :=
  addPacket (beginDatum s send.group (highCodeOf bytes send).toNat) 1 (0x100 + send.index)

/-- After all three. -/
def threePackets (s : Smnt) (bytes : List UInt8) (send : Send) : Smnt :=
  addPacket (twoPackets s bytes send) 2 (lowCodeOf bytes send).toNat

theorem ofNat_toNat_eq_toUInt16 (code : UInt8) : UInt16.ofNat code.toNat = code.toUInt16 := by
  apply UInt16.toNat_inj.mp
  have hlt := code.toNat_lt
  rw [UInt16.toNat_ofNat', UInt8.toNat_toUInt16, Nat.mod_eq_of_lt (by omega)]

theorem threePackets_packetData (s : Smnt) (bytes : List UInt8) (send : Send) :
    (threePackets s bytes send).packetData =
      ![(highCodeOf bytes send).toUInt16, UInt16.ofNat (0x100 + send.index),
        (lowCodeOf bytes send).toUInt16] := by
  rw [← ofNat_toNat_eq_toUInt16, ← ofNat_toNat_eq_toUInt16]
  funext slot
  fin_cases slot <;> rfl

section Datum

variable {phone : Phone} {bytes : List UInt8} {s : Smnt} {send : Send}

theorem twoPackets_open : (twoPackets s bytes send).groupAddr = send.group := rfl

theorem twoPackets_count : (twoPackets s bytes send).packetCount.toNat = (2 : Fin 3) := rfl

/-- The first two packets of a datum of another group. -/
theorem receiveDatum_eq (h : Listening phone s) (hgroup : s.groupAddr ≠ send.group)
    (hindex : send.index < 128) (hsecond : (s.packetData 1).toNat ≠ 0x100 + send.index) :
    receiveDatum phone bytes s send =
      esptouchSmntDatahandler (twoPackets s bytes send)
        (phone.frame send.group (lowCodeOf bytes send).toNat) := by
  have hhigh : (highCodeOf bytes send).toNat < 384 := by
    have := (highCodeOf bytes send).toNat_lt
    omega
  have hfirst : esptouchSmntDatahandler s (phone.frame send.group (highCodeOf bytes send).toNat) =
      some (beginDatum s send.group (highCodeOf bytes send).toNat) := by
    rw [datahandler_frame h]
    unfold esptouchSmntMuticastadd
    rw [takePacket_code s send.group hhigh, if_neg hgroup]
    rfl
  have hbegun : Listening phone (beginDatum s send.group (highCodeOf bytes send).toNat) :=
    ⟨h.locked, h.source, h.overhead⟩
  have hnext : esptouchSmntDatahandler (beginDatum s send.group (highCodeOf bytes send).toNat)
      (phone.frame send.group (0x100 + send.index)) = some (twoPackets s bytes send) := by
    have hopen : (beginDatum s send.group (highCodeOf bytes send).toNat).groupAddr =
        send.group := rfl
    have hcount : (beginDatum s send.group (highCodeOf bytes send).toNat).packetCount.toNat =
        (1 : Fin 3) := rfl
    rw [datahandler_frame hbegun]
    unfold esptouchSmntMuticastadd
    rw [takePacket_again hopen hcount (by omega) hsecond]
    rfl
  unfold receiveDatum datumFrames
  simp only [List.foldlM_cons, List.foldlM_nil, hfirst, hnext, Option.bind_eq_bind,
    Option.bind_some, bind_pure]

theorem receiveDatum_stored (h : Listening phone s) (hgroup : s.groupAddr ≠ send.group)
    (hindex : send.index < 128) (hsecond : (s.packetData 1).toNat ≠ 0x100 + send.index)
    (hthird : s.packetData 2 ≠ (lowCodeOf bytes send).toUInt16)
    (hfree : s.payloadMulticast ⟨send.index, hindex⟩ = 0) :
    receiveDatum phone bytes s send =
      some { storeDatum (threePackets s bytes send) ⟨send.index, hindex⟩
          (byteAt bytes send.index) with groupAddr := 0xFF } := by
  have hlow : (lowCodeOf bytes send).toNat < 384 := by
    have := (lowCodeOf bytes send).toNat_lt
    omega
  have hnew : (s.packetData 2).toNat ≠ (lowCodeOf bytes send).toNat := by
    intro heq
    apply hthird
    apply UInt16.toNat_inj.mp
    rw [heq, UInt8.toNat_toUInt16]
  have htwo : Listening phone (twoPackets s bytes send) := ⟨h.locked, h.source, h.overhead⟩
  have hcheck : checkDatum (threePackets s bytes send).packetData =
      some ⟨UInt8.ofNat send.index, byteAt bytes send.index⟩ := by
    rw [threePackets_packetData]
    exact checkDatum_codes (byteAt bytes send.index) hindex
  have hnat : (UInt8.ofNat send.index).toNat = send.index := by
    rw [UInt8.toNat_ofNat', Nat.mod_eq_of_lt (by omega)]
  have haccept : acceptDatum (threePackets s bytes send) =
      some (storeDatum (threePackets s bytes send) ⟨send.index, hindex⟩
        (byteAt bytes send.index)) := by
    unfold acceptDatum
    rw [hcheck]
    simp only [hnat]
    rw [dif_pos hindex, if_pos]
    exact hfree
  rw [receiveDatum_eq h hgroup hindex hsecond, datahandler_frame htwo]
  unfold esptouchSmntMuticastadd
  rw [takePacket_again twoPackets_open twoPackets_count hlow hnew]
  change (acceptDatum (threePackets s bytes send)).bind _ = _
  rw [haccept]
  rfl

/-- A datum whose third packet is as long as that of the datum before is lost. -/
theorem receiveDatum_lost (h : Listening phone s) (hgroup : s.groupAddr ≠ send.group)
    (hindex : send.index < 128) (hsecond : (s.packetData 1).toNat ≠ 0x100 + send.index)
    (hthird : s.packetData 2 = (lowCodeOf bytes send).toUInt16) :
    receiveDatum phone bytes s send = some (holdChannel (twoPackets s bytes send)) := by
  have hlow : (lowCodeOf bytes send).toNat < 384 := by
    have := (lowCodeOf bytes send).toNat_lt
    omega
  have hold : (s.packetData 2).toNat = (lowCodeOf bytes send).toNat := by
    rw [hthird, UInt8.toNat_toUInt16]
  have htwo : Listening phone (twoPackets s bytes send) := ⟨h.locked, h.source, h.overhead⟩
  rw [receiveDatum_eq h hgroup hindex hsecond, datahandler_frame htwo]
  unfold esptouchSmntMuticastadd
  rw [takePacket_repeat twoPackets_open twoPackets_count hlow hold]
  rfl

/-- The group `0xFF` stands for no group: its packets find the three slots taken. -/
theorem receiveDatum_none (h : Listening phone s) (hgroup : s.groupAddr = send.group)
    (hcount : 3 ≤ s.packetCount.toNat) : receiveDatum phone bytes s send = none := by
  have hhigh : (highCodeOf bytes send).toNat < 384 := by
    have := (highCodeOf bytes send).toNat_lt
    omega
  have hfirst : esptouchSmntDatahandler s (phone.frame send.group (highCodeOf bytes send).toNat) =
      none := by
    rw [datahandler_frame h]
    unfold esptouchSmntMuticastadd
    rw [takePacket_code s send.group hhigh, if_pos hgroup, dif_neg (by omega)]
    rfl
  unfold receiveDatum datumFrames
  rw [List.foldlM_cons, hfirst]
  rfl

end Datum

/-! ### A payload -/

structure Payload (bytes : List UInt8) : Prop where
  long : espPasswordOff ≤ bytes.length
  short : bytes.length ≤ espTouchMaxNum
  nonzero : ∀ byte ∈ bytes, byte ≠ 0
  password : (byteAt bytes 1).toNat + espPasswordOff ≤ bytes.length

/-- Each index once, in any order, and never two data of one group in a row. -/
structure Sends (bytes : List UInt8) (sends : List Send) : Prop where
  indices : (sends.map Send.index).Perm (List.range bytes.length)
  groups : (sends.map Send.group).IsChain (· ≠ ·)

/-- As the lock leaves a receiver that has been initialised. -/
structure AfterGuide (phone : Phone) (s : Smnt) : Prop extends Listening phone s where
  closed : s.groupAddr = 0xFF
  full : 3 ≤ s.packetCount.toNat
  packetData : s.packetData = fun _ => 0
  index : s.index = 0
  passwordLen : s.passwordLen = 0
  payload : s.payloadMulticast = fun _ => 0

def Stored (bytes : List UInt8) (sends : List Send) (s : Smnt) : Prop :=
  ∀ send ∈ sends, payloadAt s send.index = byteAt bytes send.index

/-- `password_len + 9`. -/
def needed (bytes : List UInt8) : Nat := (byteAt bytes 1).toNat + espPasswordOff

/-- Every datum sent before the end is stored, and the end comes with datum
`password_len + 9`. -/
structure Decodes (phone : Phone) (bytes : List UInt8) (s : Smnt) (sends : List Send) : Prop where
  stored : ∀ k ≤ needed bytes, ∃ t, receive phone bytes s (sends.take k) = some t ∧
    Stored bytes (sends.take k) t
  finish : ∃ t, receive phone bytes s (sends.take (needed bytes)) = some t ∧ t.state = .finish

/-- No group is `0xFF`, and no third packet is as long as the one kept from the
datum before (`packet_data[2]` is 0 at first). -/
structure Apart (bytes : List UInt8) (sends : List Send) : Prop where
  groups : ∀ send ∈ sends, send.group ≠ 0xFF
  codes : (0 :: sends.map (lowCodeOf bytes)).IsChain (· ≠ ·)

/-- The third code that is kept. -/
def lastCode (bytes : List UInt8) (done : List Send) : UInt8 :=
  (done.map (lowCodeOf bytes)).getLastD 0

theorem apart_append_iff {bytes : List UInt8} {done : List Send} {send : Send} :
    Apart bytes (done ++ [send]) ↔
      Apart bytes done ∧ send.group ≠ 0xFF ∧ lastCode bytes done ≠ lowCodeOf bytes send := by
  have hchain : (0 :: (done ++ [send]).map (lowCodeOf bytes)).IsChain (· ≠ ·) ↔
      (0 :: done.map (lowCodeOf bytes)).IsChain (· ≠ ·) ∧
        lastCode bytes done ≠ lowCodeOf bytes send := by
    rw [List.map_append, ← List.cons_append, List.isChain_append]
    simp [lastCode, List.getLast?_cons]
  constructor
  · intro h
    obtain ⟨hcodes, hlast⟩ := hchain.mp h.codes
    exact ⟨⟨fun x hx => h.groups x (List.mem_append_left _ hx), hcodes⟩,
      h.groups send (by simp), hlast⟩
  · rintro ⟨h, hgroup, hlast⟩
    refine ⟨fun x hx => ?_, hchain.mpr ⟨h.codes, hlast⟩⟩
    rcases List.mem_append.mp hx with hdone | hsend
    · exact h.groups x hdone
    · rw [List.mem_singleton.mp hsend]
      exact hgroup

/-- The data of `done` are entered, and no datum is under way. -/
structure Entered (phone : Phone) (bytes : List UInt8) (done : List Send) (s : Smnt) : Prop where
  source : s.syncAppMac = phone.src
  overhead : s.offsetLen.toNat = phone.overhead
  closed : s.groupAddr = 0xFF
  full : 3 ≤ s.packetCount.toNat
  second : ∀ i < 128, i ∉ done.map Send.index → (s.packetData 1).toNat ≠ 0x100 + i
  third : s.packetData 2 = (lastCode bytes done).toUInt16
  payload : ∀ i : Fin 128, s.payloadMulticast i =
    if (i : Nat) ∈ done.map Send.index then byteAt bytes i else 0
  index : s.index.toNat = done.length
  passwordLen : s.passwordLen = if 1 ∈ done.map Send.index then byteAt bytes 1 else 0

theorem Entered.of_afterGuide {phone : Phone} {bytes : List UInt8} {s : Smnt}
    (h : AfterGuide phone s) : Entered phone bytes [] s where
  source := h.source
  overhead := h.overhead
  closed := h.closed
  full := h.full
  second := by
    intro i hi _
    rw [h.packetData]
    simp
    omega
  third := by rw [h.packetData]; rfl
  payload := fun i => by rw [h.payload]; rfl
  index := by rw [h.index]; rfl
  passwordLen := h.passwordLen

theorem Entered.stored {phone : Phone} {bytes : List UInt8} {done : List Send} {s : Smnt}
    (h : Entered phone bytes done s) (hindex : ∀ send ∈ done, send.index < 128) :
    Stored bytes done s := by
  intro send hsend
  unfold payloadAt
  rw [dif_pos (hindex send hsend), h.payload, if_pos (List.mem_map_of_mem hsend)]

section Next

variable {phone : Phone} {bytes : List UInt8} {done : List Send} {s : Smnt} {send : Send}

/-- The receiver after a datum that is stored. -/
def afterDatum (bytes : List UInt8) (s : Smnt) (send : Send) (hindex : send.index < 128) : Smnt :=
  { storeDatum (threePackets s bytes send) ⟨send.index, hindex⟩ (byteAt bytes send.index) with
    groupAddr := 0xFF }

theorem Entered.append (h : Entered phone bytes done s) (hindex : send.index < 128)
    (hcount : done.length < 128) :
    Entered phone bytes (done ++ [send]) (afterDatum bytes s send hindex) where
  source := h.source
  overhead := h.overhead
  closed := rfl
  full := le_refl 3
  second := by
    intro i hi hfresh
    have hne : i ≠ send.index := by
      rintro rfl
      exact hfresh (by simp)
    have hpacket : (afterDatum bytes s send hindex).packetData 1 =
        UInt16.ofNat (0x100 + send.index) := rfl
    rw [hpacket, UInt16.toNat_ofNat', Nat.mod_eq_of_lt (by omega)]
    omega
  third := by
    have hpacket : (afterDatum bytes s send hindex).packetData 2 =
        UInt16.ofNat (lowCodeOf bytes send).toNat := rfl
    rw [hpacket, ofNat_toNat_eq_toUInt16, lastCode, List.map_append]
    simp
  payload := by
    intro i
    have hpayload : (afterDatum bytes s send hindex).payloadMulticast =
        update s.payloadMulticast ⟨send.index, hindex⟩ (byteAt bytes send.index) := rfl
    simp only [hpayload, List.map_append, List.map_singleton, List.mem_append, List.mem_singleton]
    by_cases hi : (i : Nat) = send.index
    · have hslot : i = ⟨send.index, hindex⟩ := Fin.ext hi
      subst hslot
      simp
    · have hslot : i ≠ ⟨send.index, hindex⟩ := fun heq => hi (congrArg Fin.val heq)
      rw [update_of_ne hslot, h.payload]
      simp [hi]
  index := by
    have hone : (afterDatum bytes s send hindex).index = s.index + 1 := rfl
    rw [hone, UInt16.toNat_add, h.index, List.length_append, UInt16.toNat_one,
      List.length_singleton]
    omega
  passwordLen := by
    have hlen : (afterDatum bytes s send hindex).passwordLen =
        if (⟨send.index, hindex⟩ : Fin 128) = 1 then byteAt bytes send.index
        else s.passwordLen := rfl
    have hslot : (⟨send.index, hindex⟩ : Fin 128) = 1 ↔ send.index = 1 := by
      rw [Fin.ext_iff]
      rfl
    simp only [hlen, List.map_append, List.map_singleton, List.mem_append, List.mem_singleton]
    by_cases hone : send.index = 1
    · rw [if_pos (hslot.mpr hone), if_pos (Or.inr hone.symm), hone]
    · rw [if_neg fun heq => hone (hslot.mp heq), h.passwordLen]
      have hne : ¬ 1 = send.index := fun heq => hone heq.symm
      simp [hne]

theorem Entered.finished_iff (h : Entered phone bytes done s) (hbyte : byteAt bytes 1 ≠ 0) :
    Finished s ↔ 1 ∈ done.map Send.index ∧ done.length = needed bytes := by
  unfold Finished needed
  rw [h.passwordLen, h.index]
  by_cases hone : 1 ∈ done.map Send.index
  · rw [if_pos hone]
    simp [hone, hbyte]
  · rw [if_neg hone]
    simp [hone]

theorem afterDatum_state (h : Entered phone bytes done s) (hindex : send.index < 128)
    (hcount : done.length < 128) (hbyte : byteAt bytes 1 ≠ 0) :
    (afterDatum bytes s send hindex).state =
      if 1 ∈ (done ++ [send]).map Send.index ∧ (done ++ [send]).length = needed bytes then .finish
      else s.state := by
  have happend : Entered phone bytes (done ++ [send]) (afterDatum bytes s send hindex) :=
    h.append hindex hcount
  have hfinished := happend.finished_iff hbyte
  have hstate : (afterDatum bytes s send hindex).state =
      if Finished (afterDatum bytes s send hindex) then .finish else s.state := rfl
  rw [hstate]
  simp only [hfinished]

/-- The next datum is stored exactly when its group is one and its third packet
is not taken for a repetition. -/
theorem Entered.next (h : Entered phone bytes done s) (hlocked : s.state = .locked)
    (hindex : send.index < 128) (hfresh : send.index ∉ done.map Send.index)
    (hbyte : byteAt bytes send.index ≠ 0) :
    ((∃ t, receiveDatum phone bytes s send = some t ∧
        payloadAt t send.index = byteAt bytes send.index) ↔
      send.group ≠ 0xFF ∧ lastCode bytes done ≠ lowCodeOf bytes send) ∧
    (send.group ≠ 0xFF ∧ lastCode bytes done ≠ lowCodeOf bytes send →
      receiveDatum phone bytes s send = some (afterDatum bytes s send hindex)) := by
  have hlistening : Listening phone s := ⟨hlocked, h.source, h.overhead⟩
  have hfree : s.payloadMulticast ⟨send.index, hindex⟩ = 0 := by
    rw [h.payload, if_neg hfresh]
  have hsecond := h.second send.index hindex hfresh
  have hthird : s.packetData 2 = (lowCodeOf bytes send).toUInt16 ↔
      lastCode bytes done = lowCodeOf bytes send := by
    rw [h.third]
    constructor
    · intro heq
      apply UInt8.toNat_inj.mp
      have hnat := congrArg UInt16.toNat heq
      rwa [UInt8.toNat_toUInt16, UInt8.toNat_toUInt16] at hnat
    · intro heq
      rw [heq]
  have hgroup : send.group ≠ 0xFF → s.groupAddr ≠ send.group := by
    intro hne heq
    exact hne (heq.symm.trans h.closed)
  have hstored : send.group ≠ 0xFF ∧ lastCode bytes done ≠ lowCodeOf bytes send →
      receiveDatum phone bytes s send = some (afterDatum bytes s send hindex) := by
    rintro ⟨hopen, hnew⟩
    exact receiveDatum_stored hlistening (hgroup hopen) hindex hsecond
      (fun heq => hnew (hthird.mp heq)) hfree
  refine ⟨⟨?_, fun hgood => ⟨_, hstored hgood, ?_⟩⟩, hstored⟩
  · rintro ⟨t, ht, hvalue⟩
    have hopen : send.group ≠ 0xFF := by
      intro heq
      rw [receiveDatum_none hlistening (h.closed.trans heq.symm) h.full] at ht
      cases ht
    refine ⟨hopen, fun hold => ?_⟩
    rw [receiveDatum_lost hlistening (hgroup hopen) hindex hsecond (hthird.mpr hold)] at ht
    cases ht
    unfold payloadAt at hvalue
    rw [dif_pos hindex] at hvalue
    exact hbyte (hvalue.symm.trans hfree)
  · unfold payloadAt
    rw [dif_pos hindex]
    exact update_self ..

end Next

theorem receive_append (phone : Phone) (bytes : List UInt8) (s : Smnt) (done : List Send)
    (send : Send) : receive phone bytes s (done ++ [send]) =
      (receive phone bytes s done).bind fun t => receiveDatum phone bytes t send := by
  unfold receive
  simp [List.foldlM_append]

section Run

variable {phone : Phone} {bytes : List UInt8} {s : Smnt} {sends : List Send}

theorem Sends.length_eq (h : Sends bytes sends) : sends.length = bytes.length := by
  have hlength := h.indices.length_eq
  rwa [List.length_map, List.length_range] at hlength

/-- The datum after the first `k` is of the payload and new. -/
theorem Sends.getElem (h : Sends bytes sends) {k : Nat} (hk : k < sends.length) :
    sends[k].index < bytes.length ∧ sends[k].index ∉ (sends.take k).map Send.index := by
  constructor
  · have hmem : sends[k].index ∈ sends.map Send.index :=
      List.mem_map_of_mem (List.getElem_mem hk)
    exact List.mem_range.mp (h.indices.mem_iff.mp hmem)
  · have hnodup : (sends.map Send.index).Nodup := h.indices.nodup_iff.mpr List.nodup_range
    have hsub : ((sends.take (k + 1)).map Send.index).Sublist (sends.map Send.index) :=
      (List.take_sublist (k + 1) sends).map Send.index
    have hbefore := hnodup.sublist hsub
    rw [List.take_succ_eq_append_getElem hk, List.map_append, List.nodup_append] at hbefore
    intro hmem
    exact hbefore.2.2 _ hmem _ (by simp) rfl

theorem Payload.byteAt_ne_zero (h : Payload bytes) {i : Nat} (hi : i < bytes.length) :
    byteAt bytes i ≠ 0 := by
  have hbyte : byteAt bytes i = bytes[i] := by simp [byteAt, hi]
  rw [hbyte]
  exact h.nonzero _ (List.getElem_mem hi)

theorem Payload.one_lt (h : Payload bytes) : 1 < bytes.length := by
  have := h.long
  simp only [espPasswordOff, datumDataLength, ipAddressLength] at this
  omega

/-- Fewer data than are needed are not all of them. -/
theorem Payload.lt_sends (hpayload : Payload bytes) (hsends : Sends bytes sends) {k : Nat}
    (hk : k < needed bytes) : k < sends.length := by
  rw [hsends.length_eq]
  exact lt_of_lt_of_le hk hpayload.password

/-- The state that goes with the first `k` data. -/
def stateAfter (bytes : List UInt8) (sends : List Send) (k : Nat) : SmntStatus :=
  if 1 ∈ (sends.take k).map Send.index ∧ k = needed bytes then .finish else .locked

/-- Data that are apart are all entered. -/
theorem entered_of_apart (hpayload : Payload bytes) (hsends : Sends bytes sends)
    (hlock : AfterGuide phone s) {k : Nat} (hk : k ≤ needed bytes)
    (hapart : Apart bytes (sends.take k)) :
    ∃ t, receive phone bytes s (sends.take k) = some t ∧
      Entered phone bytes (sends.take k) t ∧ t.state = stateAfter bytes sends k := by
  induction k with
  | zero =>
    refine ⟨s, rfl, Entered.of_afterGuide hlock, hlock.locked.trans ?_⟩
    simp [stateAfter]
  | succ k ih =>
    have hlength := hpayload.lt_sends hsends hk
    obtain ⟨hindex, hfresh⟩ := hsends.getElem hlength
    have hshort : sends[k].index < 128 := lt_of_lt_of_le hindex hpayload.short
    rw [List.take_succ_eq_append_getElem hlength] at hapart
    obtain ⟨hbefore, hgood⟩ := apart_append_iff.mp hapart
    obtain ⟨t, ht, hentered, hstate⟩ := ih (by omega) hbefore
    have hlocked : t.state = .locked := by
      rw [hstate, stateAfter, if_neg (by omega)]
    have hcount : (sends.take k).length = k := List.length_take_of_le hlength.le
    have hroom : (sends.take k).length < 128 := by
      rw [hcount]
      exact (hlength.trans_eq hsends.length_eq).trans_le hpayload.short
    have hnext := (hentered.next hlocked hshort hfresh (hpayload.byteAt_ne_zero hindex)).2 hgood
    refine ⟨afterDatum bytes t sends[k] hshort, ?_, ?_, ?_⟩
    · rw [List.take_succ_eq_append_getElem hlength, receive_append, ht, Option.bind_some, hnext]
    · rw [List.take_succ_eq_append_getElem hlength]
      exact hentered.append hshort hroom
    · rw [afterDatum_state hentered hshort hroom (hpayload.byteAt_ne_zero hpayload.one_lt),
        hlocked, stateAfter, List.take_succ_eq_append_getElem hlength, List.length_append, hcount]
      rfl

/-- Data that are all stored are apart. -/
theorem apart_of_stored (hpayload : Payload bytes) (hsends : Sends bytes sends)
    (hlock : AfterGuide phone s) {k : Nat} (hk : k ≤ needed bytes)
    (hstored : ∀ j ≤ k, ∃ t, receive phone bytes s (sends.take j) = some t ∧
      Stored bytes (sends.take j) t) : Apart bytes (sends.take k) := by
  induction k with
  | zero => exact ⟨fun send hsend => (by cases hsend), List.isChain_singleton _⟩
  | succ k ih =>
    have hbefore := ih (by omega) fun j hj => hstored j (by omega)
    have hlength := hpayload.lt_sends hsends hk
    obtain ⟨hindex, hfresh⟩ := hsends.getElem hlength
    have hshort : sends[k].index < 128 := lt_of_lt_of_le hindex hpayload.short
    obtain ⟨t, ht, hentered, hstate⟩ :=
      entered_of_apart hpayload hsends hlock (by omega) hbefore
    have hlocked : t.state = .locked := by
      rw [hstate, stateAfter, if_neg (by omega)]
    obtain ⟨u, hu, hvalue⟩ := hstored (k + 1) le_rfl
    rw [List.take_succ_eq_append_getElem hlength, receive_append, ht, Option.bind_some] at hu
    rw [List.take_succ_eq_append_getElem hlength] at hvalue ⊢
    have hnext := (hentered.next hlocked hshort hfresh (hpayload.byteAt_ne_zero hindex)).1
    have hlast := hvalue sends[k] (List.mem_append_right _ (List.mem_singleton_self _))
    exact apart_append_iff.mpr ⟨hbefore, hnext.mp ⟨u, hu, hlast⟩⟩

end Run

/-- A payload is decoded exactly when its first `password_len + 9` data are apart
and the password length is one of them. -/
theorem decodes_iff (phone : Phone) (bytes : List UInt8) (s : Smnt) (sends : List Send)
    (hpayload : Payload bytes) (hsends : Sends bytes sends) (hlock : AfterGuide phone s) :
    Decodes phone bytes s sends ↔
      Apart bytes (sends.take (needed bytes)) ∧
        1 ∈ (sends.take (needed bytes)).map Send.index := by
  constructor
  · intro h
    have hapart := apart_of_stored hpayload hsends hlock le_rfl h.stored
    obtain ⟨t, ht, -, hstate⟩ := entered_of_apart hpayload hsends hlock le_rfl hapart
    obtain ⟨u, hu, hfinish⟩ := h.finish
    rw [ht] at hu
    cases hu
    rw [hfinish] at hstate
    refine ⟨hapart, ?_⟩
    by_contra hone
    rw [stateAfter, if_neg fun h => hone h.1] at hstate
    cases hstate
  · rintro ⟨hapart, hone⟩
    constructor
    · intro k hk
      have hbefore : Apart bytes (sends.take k) := by
        have htake : sends.take k <+: sends.take (needed bytes) :=
          List.take_prefix_take_left hk
        refine ⟨fun send hsend => hapart.groups send (htake.subset hsend), ?_⟩
        exact hapart.codes.prefix (List.cons_prefix_cons.mpr ⟨rfl, htake.map _⟩)
      obtain ⟨t, ht, hentered, -⟩ := entered_of_apart hpayload hsends hlock hk hbefore
      refine ⟨t, ht, hentered.stored fun send hsend => ?_⟩
      have hmem : send.index ∈ sends.map Send.index :=
        List.mem_map_of_mem (List.mem_of_mem_take hsend)
      have hindex := List.mem_range.mp (hsends.indices.mem_iff.mp hmem)
      exact lt_of_lt_of_le hindex hpayload.short
    · obtain ⟨t, ht, -, hstate⟩ := entered_of_apart hpayload hsends hlock le_rfl hapart
      refine ⟨t, ht, hstate.trans ?_⟩
      rw [stateAfter, if_pos ⟨hone, rfl⟩]

/-- A payload with a one-byte password, and all its data in order. -/
def shortPayload : List UInt8 := [10, 1, 33, 44, 55, 66, 77, 88, 99, 110]

def inOrder : List Send := (List.range 10).map fun i => ⟨i, UInt8.ofNat (i + 1)⟩

def lockedOn (phone : Phone) : Smnt :=
  { esptouchSmntInit with
    state := .locked
    syncAppMac := phone.src
    syncBssid := phone.bssid
    packetCount := 0x0F
    offsetLen := UInt16.ofNat phone.overhead }

def somePhone : Phone := ⟨true, ![2, 0, 0, 0, 0, 9], ![2, 0, 0, 0, 0, 1], 3⟩

theorem afterGuide_lockedOn : AfterGuide somePhone (lockedOn somePhone) where
  locked := rfl
  source := rfl
  overhead := rfl
  closed := rfl
  full := by decide
  packetData := rfl
  index := rfl
  passwordLen := rfl
  payload := rfl

theorem payload_short : Payload shortPayload :=
  ⟨by decide, by decide, by simp [shortPayload], by decide⟩

theorem sends_inOrder : Sends shortPayload inOrder :=
  ⟨by rw [show inOrder.map Send.index = List.range shortPayload.length from by decide], by decide⟩

theorem decodes_iff_short : Decodes somePhone shortPayload (lockedOn somePhone) inOrder ↔
    Apart shortPayload (inOrder.take (needed shortPayload)) ∧
      1 ∈ (inOrder.take (needed shortPayload)).map Send.index :=
  decodes_iff somePhone shortPayload (lockedOn somePhone) inOrder payload_short sends_inOrder
    afterGuide_lockedOn

/-- Byte 2 has the third code of byte 1. -/
def alikePayload : List UInt8 := [10, 1, 177, 44, 55, 66, 77, 88, 99, 110]

theorem alike_lost : Payload alikePayload ∧ Sends alikePayload inOrder ∧
    AfterGuide somePhone (lockedOn somePhone) ∧
    ¬ Decodes somePhone alikePayload (lockedOn somePhone) inOrder := by
  refine ⟨⟨by decide, by decide, by simp [alikePayload], by decide⟩, ⟨?_, by decide⟩,
    afterGuide_lockedOn, ?_⟩
  · rw [show inOrder.map Send.index = List.range alikePayload.length from by decide]
  · intro h
    obtain ⟨t, ht, hstored⟩ := h.stored 3 (by decide)
    have hvalue := hstored ⟨2, 3⟩ (by decide)
    have hlost : (receive somePhone alikePayload (lockedOn somePhone) (inOrder.take 3)).map
        (fun t => payloadAt t 2) = some 0 := by decide +kernel
    rw [ht, Option.map_some, Option.some.injEq] at hlost
    rw [hlost] at hvalue
    exact absurd hvalue (by decide)

/-! ### The guide -/

/-- A first frame, and the guide packets of lengths 515, 514, 513 and 512 with the
overhead. -/
def guideFrames (phone : Phone) (group : UInt8) : List Frame :=
  [475, 475, 474, 473, 472].map (phone.frame group)

section Guide

variable {phone : Phone} {group : UInt8}

/-- On the way to the lock: `count` has a bit for each guide length seen. -/
def guided (phone : Phone) (group count probability : UInt8) : Smnt :=
  { esptouchSmntInit with
    state := .locking
    syncAppMac := phone.src
    groupAddr := group
    packetCount := count
    offsetLen := UInt16.ofNat (espTouchGuideCode + phone.overhead)
    chCurrentProbability := probability }

theorem datahandler_guide {s : Smnt} (hlocking : s.state = .locking)
    (hsource : s.syncAppMac = phone.src) (hoverhead : 3 ≤ phone.overhead) {code : Nat}
    (hcode : 472 ≤ code) :
    esptouchSmntDatahandler s (phone.frame group code) =
      some (guidePacket s (groupMac group) phone.bssid
        (espTouchPacketSub + phone.overhead + code)) := by
  have hlong : espTouchGuideCode ≤ espTouchPacketSub + phone.overhead + code := by
    simp only [espTouchGuideCode, espTouchPacketSub]
    omega
  unfold esptouchSmntDatahandler
  simp [hlocking, hsource, hlong]

/-- A guide packet that is `below` shorter than the longest. -/
theorem guideAgain_guided {count count' probability : UInt8} {below : Nat} (hbelow : 0 < below)
    (hfour : below < 4) (hoverhead : phone.overhead + 515 < 2 ^ 16)
    (hcount : count ||| UInt8.ofNat (0x08 >>> below) = count') :
    guideAgain (guided phone group count probability) phone.bssid
        (espTouchPacketSub + phone.overhead + (475 - below)) =
      if (shiftOut 8 count'.toNat).1 = 0x0F then
        lock (guided phone group count' probability) phone.bssid (shiftOut 8 count'.toNat).2
      else guided phone group count' probability := by
  have hoffset : (guided phone group count probability).offsetLen.toNat =
      espTouchGuideCode + phone.overhead := by
    change (UInt16.ofNat (espTouchGuideCode + phone.overhead)).toNat = _
    rw [UInt16.toNat_ofNat', Nat.mod_eq_of_lt]
    simp only [espTouchGuideCode]
    omega
  have hlonger : (guided phone group count probability).offsetLen.toNat >
      espTouchPacketSub + phone.overhead + (475 - below) := by
    rw [hoffset]
    simp only [espTouchGuideCode, espTouchPacketSub]
    omega
  have hdiff : guideDiff (guided phone group count probability).offsetLen
      (espTouchPacketSub + phone.overhead + (475 - below)) = below := by
    unfold guideDiff
    rw [if_pos hlonger, hoffset]
    simp only [espTouchGuideCode, espTouchPacketSub]
    omega
  have hbit : guideBit (guided phone group count probability).offsetLen
      (espTouchPacketSub + phone.overhead + (475 - below)) = UInt8.ofNat (0x08 >>> below) := by
    unfold guideBit
    rw [if_pos hlonger, hdiff]
  unfold guideAgain
  rw [hdiff, hbit, if_pos (show below < guidePacketNum from hfour), ← hcount]
  rfl

/-- An overhead from 3 on is found by the guide of a receiver just initialised. -/
theorem guide_locks (hgroup : group ≠ 0xFF) (hoverhead : 3 ≤ phone.overhead)
    (hsmall : phone.overhead + 515 < 2 ^ 16) :
    ∃ t, (guideFrames phone group).foldlM esptouchSmntDatahandler esptouchSmntInit = some t ∧
      AfterGuide phone t := by
  have hstart : esptouchSmntDatahandler esptouchSmntInit (phone.frame group 475) =
      some { esptouchSmntInit with state := .locking, syncAppMac := phone.src } := by
    unfold esptouchSmntDatahandler
    simp [esptouchSmntInit]
  have hfirst : esptouchSmntDatahandler
      { esptouchSmntInit with state := .locking, syncAppMac := phone.src }
      (phone.frame group 475) = some (guided phone group 0x08 5) := by
    rw [datahandler_guide rfl rfl hoverhead (by omega)]
    unfold guidePacket
    rw [if_pos (sameGroup_groupMac group), if_neg (fun heq => hgroup heq.symm)]
    have hlength : espTouchPacketSub + phone.overhead + 475 =
        espTouchGuideCode + phone.overhead := by
      simp only [espTouchGuideCode, espTouchPacketSub]
      omega
    rw [hlength]
    rfl
  have hnext : ∀ {count probability : UInt8} {below : Nat}, 0 < below → below < 4 →
      esptouchSmntDatahandler (guided phone group count probability)
        (phone.frame group (475 - below)) =
      some (holdChannel (guideAgain (guided phone group count probability) phone.bssid
        (espTouchPacketSub + phone.overhead + (475 - below)))) := by
    intro count probability below _ hfour
    have hopen : (guided phone group count probability).groupAddr = groupMac group 3 := rfl
    rw [datahandler_guide rfl rfl hoverhead (by omega)]
    unfold guidePacket
    rw [if_pos (sameGroup_groupMac group), if_pos hopen]
  have hsecond : esptouchSmntDatahandler (guided phone group 0x08 5) (phone.frame group 474) =
      some (guided phone group 0x0C 10) := by
    have hcount : (0x08 : UInt8) ||| UInt8.ofNat (0x08 >>> 1) = 0x0C := by decide
    rw [hnext (show 0 < 1 by omega) (by omega),
      guideAgain_guided (by omega) (by omega) hsmall hcount, if_neg (by decide)]
    rfl
  have hthird : esptouchSmntDatahandler (guided phone group 0x0C 10) (phone.frame group 473) =
      some (guided phone group 0x0E 15) := by
    have hcount : (0x0C : UInt8) ||| UInt8.ofNat (0x08 >>> 2) = 0x0E := by decide
    rw [hnext (show 0 < 2 by omega) (by omega),
      guideAgain_guided (by omega) (by omega) hsmall hcount, if_neg (by decide)]
    rfl
  have hfourth : esptouchSmntDatahandler (guided phone group 0x0E 15) (phone.frame group 472) =
      some (holdChannel (lock (guided phone group 0x0F 15) phone.bssid 0)) := by
    have hcount : (0x0E : UInt8) ||| UInt8.ofNat (0x08 >>> 3) = 0x0F := by decide
    rw [hnext (show 0 < 3 by omega) (by omega),
      guideAgain_guided (by omega) (by omega) hsmall hcount, if_pos (by decide)]
    rfl
  refine ⟨holdChannel (lock (guided phone group 0x0F 15) phone.bssid 0), ?_, ?_⟩
  · unfold guideFrames
    simp only [List.map_cons, List.map_nil, List.foldlM_cons, List.foldlM_nil, hstart, hfirst,
      hsecond, hthird, hfourth, Option.bind_eq_bind, Option.bind_some]
    rfl
  · have hfull : 3 ≤ (0x0F : UInt8).toNat := by decide
    refine ⟨⟨rfl, rfl, ?_⟩, rfl, hfull, rfl, rfl, rfl, rfl⟩
    change (UInt16.ofNat (espTouchGuideCode + phone.overhead) + UInt16.ofNat 0 -
      UInt16.ofNat espTouchGuideCode).toNat = _
    rw [UInt16.toNat_sub, UInt16.toNat_add, UInt16.toNat_ofNat', UInt16.toNat_ofNat',
      UInt16.toNat_ofNat']
    simp only [espTouchGuideCode]
    omega

end Guide

end Sv6x66.Colink.EspDecode
