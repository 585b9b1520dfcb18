import Mathlib.Tactic

/-! The receiver of `esp_touch.c`. The code that indexes an array out of its
bounds has no result. -/
namespace Sv6x66.Colink.EspTouch
open Function

def espTouchGuideCode : Nat := 515
def espTouchPacketSub : Nat := 40
def espTouchMaxNum : Nat := 128
def guidePacketNum : Nat := 4
def dataPacketNum : Nat := 3
def datumDataLength : Nat := 5
def ipAddressLength : Nat := 4
def espPasswordOff : Nat := datumDataLength + ipAddressLength
def stepMulticastHoldChannel : UInt8 := 5

/-- `smnt_status_t`, and the value 0 that `memset` leaves. -/
inductive SmntStatus where
  | zero
  | init
  | locking
  | locked
  | finish
deriving DecidableEq, Repr

-- the literals of `Fin 3` below stand on it
instance dataPacketNum_neZero : NeZero 3 := ⟨by decide⟩

abbrev Mac := Fin 6 → UInt8

/-- `esptouch_Smnt_t`. -/
structure Smnt where
  state : SmntStatus
  groupAddr : UInt8
  packetCount : UInt8
  offsetLen : UInt16
  packetData : Fin 3 → UInt16
  index : UInt16
  totalLen : UInt8
  passwordLen : UInt8
  directTimerSkip : UInt8
  syncAppMac : Mac
  syncBssid : Mac
  chCurrentIndex : UInt8
  chCurrentProbability : UInt8
  payloadMulticast : Fin 128 → UInt8

/-- `esptouch_smnt_init`. -/
def esptouchSmntInit : Smnt where
  state := .zero
  groupAddr := 0xFF
  packetCount := 0
  offsetLen := 0
  packetData := fun _ => 0
  index := 0
  totalLen := 0
  passwordLen := 0
  directTimerSkip := 0
  syncAppMac := fun _ => 0
  syncBssid := fun _ => 0
  chCurrentIndex := 0
  chCurrentProbability := 0
  payloadMulticast := fun _ => 0

/-! ### One datum -/

def crcShift (crc : UInt8) : UInt8 :=
  if crc &&& 0x01 ≠ 0 then (crc >>> 1) ^^^ 0x8C else crc >>> 1

/-- `esptouch_smnt_crc`. -/
def esptouchSmntCrc (bytes : List UInt8) : UInt8 :=
  bytes.foldl (fun crc byte => crcShift^[8] (crc ^^^ byte)) 0

/-- `val_idx[0]`. -/
def datumValue (packetData : Fin 3 → UInt16) : UInt8 :=
  (((packetData 0 <<< (4 : UInt16)) &&& (0xF0 : UInt16)) |||
    (packetData 2 &&& (0x0F : UInt16))).toUInt8

/-- `val_idx[1]`. -/
def datumIndex (packetData : Fin 3 → UInt16) : UInt8 := (packetData 1 &&& (0xFF : UInt16)).toUInt8

def datumCrc (packetData : Fin 3 → UInt16) : UInt8 :=
  ((packetData 0 &&& (0xF0 : UInt16)) |||
    ((packetData 2 >>> (4 : UInt16)) &&& (0x0F : UInt16))).toUInt8

structure Datum where
  index : UInt8
  value : UInt8
deriving DecidableEq, Repr

/-- The three packets are a datum: the second is a sequence header and the CRC
is that of value and index. -/
def checkDatum (packetData : Fin 3 → UInt16) : Option Datum :=
  if packetData 1 ≥ 0x100 then
    if datumCrc packetData = esptouchSmntCrc [datumValue packetData, datumIndex packetData] then
      some ⟨datumIndex packetData, datumValue packetData⟩
    else none
  else none

/-- `password_len + ESP_PASSWORD_OFF`, reached with `password_len` known. -/
def Finished (s : Smnt) : Prop :=
  s.passwordLen ≠ 0 ∧ s.index.toNat = s.passwordLen.toNat + espPasswordOff

instance (s : Smnt) : Decidable (Finished s) := inferInstanceAs (Decidable (_ ∧ _))

def enterDatum (s : Smnt) (i : Fin 128) (value : UInt8) : Smnt :=
  { s with
    payloadMulticast := update s.payloadMulticast i value
    totalLen := if i = 0 then value else s.totalLen
    passwordLen := if i = 1 then value else s.passwordLen
    index := s.index + 1 }

/-- At the end `esptouch_smnt_finish` is called, whose callback stops the receiver;
the state stays as it is then. -/
def storeDatum (s : Smnt) (i : Fin 128) (value : UInt8) : Smnt :=
  let s := enterDatum s i value
  { s with state := if Finished s then .finish else s.state }

def acceptDatum (s : Smnt) : Option Smnt :=
  match checkDatum s.packetData with
  | none => some s
  | some datum =>
    if h : datum.index.toNat < 128 then
      some (if s.payloadMulticast ⟨_, h⟩ = 0 then storeDatum s ⟨_, h⟩ datum.value else s)
    else none

/-! ### The packets of a datum -/

/-- What a packet does to the datum under way. -/
inductive Packet where
  | ignored
  | first
  | next
  | last
deriving DecidableEq, Repr

def SameGroup (pAddr : Mac) : Prop := pAddr 3 = pAddr 4 ∧ pAddr 3 = pAddr 5

instance (pAddr : Mac) : Decidable (SameGroup pAddr) := inferInstanceAs (Decidable (_ ∧ _))

def holdChannel (s : Smnt) : Smnt :=
  { s with
    chCurrentProbability :=
      if s.chCurrentProbability < 20 then s.chCurrentProbability + stepMulticastHoldChannel
      else s.chCurrentProbability }

/-- The low 16 bits. -/
def toUint16 (length : Int) : UInt16 := UInt16.ofNat (length % 2 ^ 16).toNat

/-- `esptouch_smnt_muticastadd` up to `packet_count++`. -/
def takePacket (s : Smnt) (pAddr : Mac) (length : Int) : Option (Packet × Smnt) :=
  if ¬ SameGroup pAddr then some (.ignored, s)
  else
    let s := holdChannel s
    let length := length - (s.offsetLen.toNat + espTouchPacketSub : Nat)
    if length ≥ (espTouchMaxNum + 0x100 : Nat) then some (.ignored, s)
    else if s.groupAddr = pAddr 3 then
      if h : s.packetCount.toNat < 3 then
        if (s.packetData ⟨_, h⟩).toNat = length then some (.ignored, s)
        else
          let s := { s with
            packetData := update s.packetData ⟨_, h⟩ (toUint16 length)
            packetCount := s.packetCount + 1 }
          some (if s.packetCount.toNat = dataPacketNum then .last else .next, s)
      else none
    else
      some (.first, { s with
        packetData := update s.packetData 0 (toUint16 length)
        groupAddr := pAddr 3
        packetCount := 1 })

def esptouchSmntMuticastadd (s : Smnt) (pAddr : Mac) (length : Int) : Option Smnt := do
  let (packet, s) ← takePacket s pAddr length
  if packet = .last then
    let s ← acceptDatum s
    pure { s with groupAddr := 0xFF }
  else pure s

/-! ### The guide packets -/

/-- `while((diff & 0x01) == 0) diff >>= 1`, with the number of rounds; eight are
enough for a byte that is not zero. -/
def shiftOut : (rounds : Nat) → (diff : Nat) → Nat × Nat
  | 0, diff => (diff, 0)
  | rounds + 1, diff =>
    if diff % 2 = 0 then
      let rest := shiftOut rounds (diff / 2)
      (rest.1, rest.2 + 1)
    else (diff, 0)

def lock (s : Smnt) (pBssid : Mac) (shifts : Nat) : Smnt :=
  { s with
    chCurrentProbability := if s.chCurrentProbability < 20 then 20 else s.chCurrentProbability
    syncBssid := pBssid
    state := .locked
    offsetLen := s.offsetLen + UInt16.ofNat shifts - UInt16.ofNat espTouchGuideCode
    groupAddr := 0xFF }

/-- `diff`, a `uint16`. -/
def guideDiff (offsetLen : UInt16) (length : Nat) : Nat :=
  (if offsetLen.toNat > length then offsetLen.toNat - length else length - offsetLen.toNat) % 2 ^ 16

/-- The bit of a guide length, relative to that of `offset_len`. -/
def guideBit (offsetLen : UInt16) (length : Nat) : UInt8 :=
  UInt8.ofNat (if offsetLen.toNat > length then 0x08 >>> guideDiff offsetLen length
    else 0x08 <<< guideDiff offsetLen length)

/-- A guide packet of the group under way. -/
def guideAgain (s : Smnt) (pBssid : Mac) (length : Nat) : Smnt :=
  if guideDiff s.offsetLen length < guidePacketNum then
    let s := { s with packetCount := s.packetCount ||| guideBit s.offsetLen length }
    let shifted := shiftOut 8 s.packetCount.toNat
    if shifted.1 = 0x0F then lock s pBssid shifted.2 else s
  else { s with groupAddr := 0xFF }

def guideFirst (s : Smnt) (pDest : Mac) (length : Nat) : Smnt :=
  { s with groupAddr := pDest 3, packetCount := 0x08, offsetLen := UInt16.ofNat length }

/-- A long packet from `sync_app_mac` in `SMART_CH_LOCKING`. -/
def guidePacket (s : Smnt) (pDest pBssid : Mac) (length : Nat) : Smnt :=
  holdChannel
    (if SameGroup pDest then
      if s.groupAddr = pDest 3 then guideAgain s pBssid length else guideFirst s pDest length
    else s)

/-! ### Frames and ticks -/

/-- The header fields the handler reads, and the length of the frame. -/
structure Frame where
  toDs : Bool
  addr1 : Mac
  addr2 : Mac
  addr3 : Mac
  length : Nat
deriving DecidableEq

def Frame.pBssid (f : Frame) : Mac := if f.toDs then f.addr1 else f.addr2
def Frame.pSrc (f : Frame) : Mac := if f.toDs then f.addr2 else f.addr3
def Frame.pDest (f : Frame) : Mac := if f.toDs then f.addr3 else f.addr1

/-- The byte that the last three of a group address share. -/
def Frame.group (f : Frame) : UInt8 := f.pDest 3

/-- `memcmp(pDest, MAC_MULTICAST, 3) == 0`. -/
def MacMulticast (pDest : Mac) : Prop := pDest 0 = 0x01 ∧ pDest 1 = 0x00 ∧ pDest 2 = 0x5E

instance (pDest : Mac) : Decidable (MacMulticast pDest) :=
  inferInstanceAs (Decidable (_ ∧ _ ∧ _))

def esptouchSmntDatahandler (s : Smnt) (f : Frame) : Option Smnt :=
  if s.state = .finish then some s
  else if ¬ MacMulticast f.pDest then some s
  else if s.state = .locking then
    if f.pSrc = s.syncAppMac then
      some (if f.length ≥ espTouchGuideCode then guidePacket s f.pDest f.pBssid f.length else s)
    else
      let s := { s with syncAppMac := f.pSrc }
      some (if f.length ≥ espTouchGuideCode ∧ SameGroup f.pDest then
        { guideFirst s f.pDest f.length with chCurrentProbability := stepMulticastHoldChannel }
      else s)
  else if s.state = .locked then
    if f.pSrc ≠ s.syncAppMac then some s else esptouchSmntMuticastadd s f.pDest f.length
  else some { s with state := .locking, syncAppMac := f.pSrc }

/-- `esptouch_smnt_cyclecall`, with the callback that switches the channel set. -/
def esptouchSmntCyclecall (s : Smnt) : Smnt :=
  if s.directTimerSkip ≠ 0 then { s with directTimerSkip := s.directTimerSkip - 1 }
  else if s.state = .finish then { s with directTimerSkip := 200 }
  else if s.chCurrentProbability > 0 then
    { s with chCurrentProbability := s.chCurrentProbability - 1 }
  else
    { s with
      chCurrentIndex := s.chCurrentIndex % 13 + 1
      state := .locking
      chCurrentProbability := 0 }

/-! ### The result -/

structure SmntResult where
  espSsidLen : UInt8
  espPasswordLen : UInt8
  espPassword : List UInt8
  espSrcIp : List UInt8
  espBssidMac : Mac
  espRecvLen : UInt8

def payloadAt (s : Smnt) (i : Nat) : UInt8 :=
  if h : i < 128 then s.payloadMulticast ⟨i, h⟩ else 0

/-- `esptouch_smnt_finish`. No result when `esp_password` is too short for the
password. -/
def esptouchSmntFinish (s : Smnt) : Option SmntResult :=
  let len := s.payloadMulticast 1
  if len.toNat ≤ 65 then
    some {
      espSsidLen := s.payloadMulticast 0 - len - UInt8.ofNat espPasswordOff
      espPasswordLen := len
      espPassword := (List.range len.toNat).map fun i =>
        payloadAt s (espPasswordOff + i) - if i % 2 = 1 then 2 else 7
      espSrcIp := (List.range ipAddressLength).map fun i => payloadAt s (datumDataLength + i)
      espBssidMac := s.syncBssid
      espRecvLen := s.payloadMulticast 0 }
  else none

end Sv6x66.Colink.EspTouch
