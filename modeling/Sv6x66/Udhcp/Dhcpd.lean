import Sv6x66.Lib.Run
import Sv6x66.Udhcp.Leases

/-! The DHCP server of the access point, `dhcpd.c`. The checks of a received
packet print and do not leave the handling of it. -/
namespace Sv6x66.Udhcp.Dhcpd
open Sv6x66.Lib
open Sv6x66.Udhcp.Packet
open Sv6x66.Udhcp.Leases

def dhcpDiscover : UInt8 := 1

def dhcpOffer : UInt8 := 2

def dhcpRequest : UInt8 := 3

def dhcpDecline : UInt8 := 4

def dhcpAck : UInt8 := 5

def dhcpNak : UInt8 := 6

def dhcpRelease : UInt8 := 7

def dhcpInform : UInt8 := 8

structure SockAddr where
  addr : UInt32
  port : UInt16
  deriving DecidableEq

/-- A packet the server builds: the header fields that are not constant, and the
options with their data. -/
structure Reply where
  xid : UInt32
  flags : UInt16
  ciaddr : UInt32
  yiaddr : UInt32
  siaddrNip : UInt32
  gatewayNip : UInt32
  chaddr : Vector UInt8 16
  options : List (UInt8 × List UInt8)
  deriving DecidableEq

/-- `none` is the buffer before the first packet was built. -/
structure Datagram where
  dest : SockAddr
  packet : Option Reply
  length : Nat
  deriving DecidableEq

/-- What the handling of one packet meets. -/
structure Env extends LeaseEnv where
  heap : Nat → UInt8
  sender : SockAddr
  memAlloc : Bool
  relaySocket : Bool

/-- The state of the server task. `sent` records the calls of `sendto`;
`nullRead` is set by a read through `NULL`. -/
structure Server where
  config : ServerConfig
  gLeases : List DynLease
  pdhcpPkt : Option Reply
  dhcpPktLen : Nat
  destSin : SockAddr
  sent : List Datagram
  nullRead : Bool

/-- The four bytes of `x` in memory. -/
def bytes32 (x : UInt32) : List UInt8 :=
  [x.toUInt8, (x >>> 8).toUInt8, (x >>> 16).toUInt8, (x >>> 24).toUInt8]

def initPacket (config : ServerConfig) (oldpacket : DhcpPacket) (type : UInt8) : Reply where
  xid := oldpacket.xid
  flags := oldpacket.flags
  ciaddr := oldpacket.ciaddr
  yiaddr := 0
  siaddrNip := 0
  gatewayNip := oldpacket.gatewayNip
  chaddr := oldpacket.chaddr
  options := [(dhcpMessageType, [type]), (dhcpServerId, bytes32 config.serverNip)]

def udhcpAddSimpleOption (packet : Reply) (code : UInt8) (data : UInt32) : Reply :=
  { packet with options := packet.options ++ [(code, bytes32 data)] }

def addServerOptions (config : ServerConfig) (packet : Reply) : Reply :=
  { packet with siaddrNip := config.siaddrNip }

/-- The addressing options of an offer and an acknowledgement. -/
def addLeaseOptions (config : ServerConfig) (packet : Reply) (leaseTimeSec : UInt32) : Reply :=
  let packet := udhcpAddSimpleOption packet dhcpLeaseTime (htonl leaseTimeSec)
  let packet := udhcpAddSimpleOption packet 0x01 (htonl config.subnet)
  let packet := udhcpAddSimpleOption packet 0x03 (htonl config.gw)
  let packet := udhcpAddSimpleOption packet 0x06 (htonl config.dns)
  addServerOptions config packet

def selectLeaseTime (config : ServerConfig) (packet : DhcpPacket) : UInt32 :=
  match udhcpGetOption packet dhcpLeaseTime with
  | none => config.maxLeaseSec
  | some leaseTimeOpt =>
    let leaseTimeSec := ntohl (moveFromUnaligned32 packet leaseTimeOpt)
    let leaseTimeSec :=
      if leaseTimeSec > config.maxLeaseSec then config.maxLeaseSec else leaseTimeSec
    if leaseTimeSec < config.minLeaseSec then config.minLeaseSec else leaseTimeSec

/-- `udhcp_end_option` of a built packet. -/
def endOption (packet : Reply) : Nat :=
  (packet.options.map fun option => 2 + option.2.length).sum

def packetLen (packet : Reply) : Nat :=
  dhcpSize - min (dhcpOptionsBufsize - 1 - endOption packet) (dhcpSize - 300)

def sendPacketToClient (s : Server) (packet : Reply) (forceBroadcast : Bool) : Server :=
  { s with
    -- CLIENT_PORT, INADDR_BROADCAST and htons(BROADCAST_FLAG)
    destSin :=
      if forceBroadcast = true ∨ packet.flags &&& 0x0080 ≠ 0 ∨ packet.ciaddr = 0 then
        ⟨0xffffffff, 68⟩
      else ⟨packet.ciaddr, 68⟩
    pdhcpPkt := some packet
    dhcpPktLen := packetLen packet }

/-- `safe_write` sends to `dest_sin` on the relay socket too. -/
def sendPacketToRelay (s : Server) (env : Env) (packet : Reply) : Server :=
  if env.relaySocket then
    { s with sent := s.sent ++ [⟨s.destSin, some packet, packetLen packet⟩] }
  else s

def sendPacket (s : Server) (env : Env) (packet : Reply) (forceBroadcast : Bool) : Server :=
  if packet.gatewayNip ≠ 0 then sendPacketToRelay s env packet
  else sendPacketToClient s packet forceBroadcast

/-- `safe_write(server_socket, &pdhcp_pkt, dhcp_pkt_len)`. -/
def safeWrite (s : Server) : Server :=
  { s with sent := s.sent ++ [⟨s.destSin, s.pdhcpPkt, s.dhcpPktLen⟩] }

/-- What `lease` points to: nothing, the lease on the stack that stands for a
static one, or an entry of `g_leases`. -/
inductive Lease where
  | null
  | fake (nip : UInt32)
  | entry (i : Nat)
  deriving DecidableEq

def Lease.nip (leases : List DynLease) : Lease → Option UInt32
  | .null => none
  | .fake nip => some nip
  | .entry i => (leases[i]?).map DynLease.leaseNip

def staticNip (s : Server) (packet : DhcpPacket) : UInt32 :=
  getStaticNipByMac s.config.staticLeases packet.mac

def findLease (s : Server) (packet : DhcpPacket) : Lease :=
  if staticNip s packet ≠ 0 then .fake (staticNip s packet)
  else
    match findLeaseByMac s.gLeases packet.mac with
    | some i => .entry i
    | none => .null

/-- The address in the requested-IP option. -/
def requestedIp (packet : DhcpPacket) : Option UInt32 :=
  (udhcpGetOption packet dhcpRequestedIp).map (moveFromUnaligned32 packet)

def offerYiaddr (s : Server) (env : Env) (packet : DhcpPacket) : UInt32 :=
  match (findLease s packet).nip s.gLeases with
  | some nip => nip
  | none =>
    match requestedIp packet with
    | none => findFreeOrExpiredNip s.config s.gLeases env.toLeaseEnv
    | some reqNip =>
      let taken := match findLeaseByNip s.gLeases reqNip with
        | none => false
        | some lease => !isExpiredLease lease env.toLeaseEnv
      if s.config.startIp ≤ ntohl reqNip ∧ ntohl reqNip ≤ s.config.endIp ∧ taken = false then reqNip
      else findFreeOrExpiredNip s.config s.gLeases env.toLeaseEnv

def sendOffer (s : Server) (env : Env) (oldpacket : DhcpPacket) : Server :=
  if !env.memAlloc then s
  else
    let packet := initPacket s.config oldpacket dhcpOffer
    let leaseTimeSec := selectLeaseTime s.config oldpacket
    if staticNip s oldpacket ≠ 0 then
      let packet := { packet with yiaddr := staticNip s oldpacket }
      sendPacket s env (addLeaseOptions s.config packet leaseTimeSec) false
    else
      let packet := { packet with yiaddr := offerYiaddr s env oldpacket }
      if packet.yiaddr = 0 then s
      else
        let added := addLease s.gLeases env.toLeaseEnv oldpacket packet.yiaddr s.config.offerTime
          (udhcpGetOption oldpacket dhcpHostName)
        let s := { s with gLeases := added.1 }
        if added.2 = none then s
        else sendPacket s env (addLeaseOptions s.config packet leaseTimeSec) false

def sendNak (s : Server) (env : Env) (oldpacket : DhcpPacket) : Server :=
  if !env.memAlloc then s else sendPacket s env (initPacket s.config oldpacket dhcpNak) true

def sendAck (s : Server) (env : Env) (oldpacket : DhcpPacket) (yiaddr : UInt32) : Server :=
  if !env.memAlloc then s
  else
    let packet := { initPacket s.config oldpacket dhcpAck with yiaddr := yiaddr }
    let leaseTimeSec := selectLeaseTime s.config oldpacket
    let s := sendPacket s env (addLeaseOptions s.config packet leaseTimeSec) false
    let added := addLease s.gLeases env.toLeaseEnv oldpacket yiaddr leaseTimeSec
      (udhcpGetOption oldpacket dhcpHostName)
    { s with gLeases := added.1 }

def sendInform (s : Server) (env : Env) (oldpacket : DhcpPacket) : Server :=
  if !env.memAlloc then s
  else
    sendPacket s env (addServerOptions s.config (initPacket s.config oldpacket dhcpAck)) false

/-! ### The message switch -/

def onRequest (s : Server) (env : Env) (packet : DhcpPacket) : Server :=
  let requestedNip := (requestedIp packet).getD packet.ciaddr
  if requestedIp packet = none ∧ requestedNip = 0 then s
  else if (findLease s packet).nip s.gLeases = some requestedNip then
    safeWrite (sendAck s env packet requestedNip)
  else if (udhcpGetOption packet dhcpServerId).isSome ∨ (requestedIp packet).isSome then
    safeWrite (sendNak s env packet)
  else s

/-- A lease on the stack is changed in vain. -/
def modifyLease (s : Server) (lease : Lease) (change : DynLease → DynLease) : Server :=
  match lease with
  | .entry i => { s with gLeases := s.gLeases.modify i change }
  | _ => s

def declineMatches (s : Server) (packet : DhcpPacket) : Bool :=
  (udhcpGetOption packet dhcpServerId).isSome && (requestedIp packet).isSome &&
    (findLease s packet).nip s.gLeases == requestedIp packet

def declined (s : Server) (env : Env) (lease : DynLease) : DynLease :=
  { lease with
    leaseMac := Vector.replicate 6 0
    expires := env.nowSet + s.config.declineTime }

def onDecline (s : Server) (env : Env) (packet : DhcpPacket) : Server :=
  if declineMatches s packet then modifyLease s (findLease s packet) (declined s env) else s

def releaseMatches (s : Server) (packet : DhcpPacket) : Bool :=
  (udhcpGetOption packet dhcpServerId).isSome &&
    (findLease s packet).nip s.gLeases == some packet.ciaddr

def released (env : Env) (lease : DynLease) : DynLease := { lease with expires := env.nowSet }

def onRelease (s : Server) (env : Env) (packet : DhcpPacket) : Server :=
  if releaseMatches s packet then modifyLease s (findLease s packet) (released env) else s

/-- What is done with a packet that was read; `state` may be `NULL`. -/
def handlePacket (s : Server) (env : Env) (packet : DhcpPacket) : Server :=
  match udhcpGetOption packet dhcpMessageType with
  | none => { s with nullRead := true }
  | some state =>
    if packet state = dhcpDiscover then safeWrite (sendOffer s env packet)
    else if packet state = dhcpRequest then onRequest s env packet
    else if packet state = dhcpDecline then onDecline s env packet
    else if packet state = dhcpRelease then onRelease s env packet
    else if packet state = dhcpInform then safeWrite (sendInform s env packet)
    else s

/-- A turn of the loop of `udhcpd_run`, or `clearlease_bymac` called from
elsewhere. -/
inductive Event where
  | receive (env : Env) (datagram : Option (List UInt8))
  | clearleaseBymac (mac : Mac)

def clearleaseBymac (s : Server) (mac : Mac) : Server :=
  match findLeaseByMac s.gLeases mac with
  | some i => { s with gLeases := s.gLeases.set i noLease }
  | none => s

def receive (s : Server) (env : Env) (datagram : Option (List UInt8)) : Server :=
  let s := { s with destSin := if datagram.isSome then env.sender else s.destSin }
  match udhcpRecvKernelPacket env.heap datagram with
  | none => s
  | some packet => handlePacket s env packet

/-- Nothing follows a read through `NULL`. -/
def step (s : Server) : Event → Option Server
  | .receive env datagram => if s.nullRead then none else some (receive s env datagram)
  | .clearleaseBymac mac => if s.nullRead then none else some (clearleaseBymac s mac)

def udhcpdStart (config : ServerConfig) : Server where
  config := config
  gLeases := List.replicate config.maxLeases noLease
  pdhcpPkt := none
  dhcpPktLen := 0
  destSin := ⟨0, 0⟩
  sent := []
  nullRead := false

/-! ### The configuration -/

/-- What `dhcps_set_info_api` left for the next start. -/
structure PleaseConfig where
  startIp : UInt32
  endIp : UInt32
  subnet : UInt32
  gw : UInt32
  dns : UInt32
  maxLeases : UInt32
  declineTime : UInt32
  offerTime : UInt32
  minLeaseSec : UInt32
  maxLeaseSec : UInt32

/-- `memset` leaves `server_nip`, `siaddr_nip` and `static_leases` zero. -/
def loadConfig (pleaseConfig : Option PleaseConfig) (ipaddr gw subnet : UInt32) : ServerConfig :=
  match pleaseConfig with
  | none =>
    let softapIp := htonl ipaddr &&& 0xffffff00
    let localIp := htonl ipaddr &&& 0xff
    let localIp := if localIp ≥ 0x80 then localIp - 0x64 else localIp + 0x64
    { serverNip := 0, siaddrNip := 0, staticLeases := [], maxLeaseSec := 0
      maxLeases := 10
      startIp := softapIp ||| localIp
      endIp := softapIp ||| (localIp + 10 - 1)
      subnet := htonl subnet
      gw := htonl gw
      dns := htonl ipaddr
      declineTime := 3600
      offerTime := 60
      minLeaseSec := 60 }
  | some config =>
    { serverNip := 0, siaddrNip := 0, staticLeases := []
      startIp := config.startIp
      endIp := config.endIp
      subnet := config.subnet
      gw := config.gw
      dns := config.dns
      maxLeases := config.maxLeases.toNat
      declineTime := config.declineTime
      offerTime := config.offerTime
      minLeaseSec := config.minLeaseSec
      maxLeaseSec := config.maxLeaseSec }

def defaultLeaseTime : UInt32 := 60 * 60 * 24 * 10

/-- The configuration `udhcpd_run` serves with: `options` holds no lease time. -/
def udhcpdRunConfig (pleaseConfig : Option PleaseConfig) (ipaddr gw subnet : UInt32) :
    ServerConfig :=
  let serverConfig := loadConfig pleaseConfig ipaddr gw subnet
  let numIps := serverConfig.endIp - serverConfig.startIp + 1
  { serverConfig with
    maxLeaseSec := defaultLeaseTime
    maxLeases := min serverConfig.maxLeases numIps.toNat
    serverNip := if serverConfig.serverNip = 0 then ipaddr else serverConfig.serverNip }

theorem staticLeases_udhcpdRunConfig (pleaseConfig : Option PleaseConfig)
    (ipaddr gw subnet : UInt32) :
    (udhcpdRunConfig pleaseConfig ipaddr gw subnet).staticLeases = [] := by
  cases pleaseConfig <;> rfl

/-! ### The lease table -/

/-- The configuration and the size of the table stay. -/
structure SameTable (s t : Server) : Prop where
  config : t.config = s.config
  length : t.gLeases.length = s.gLeases.length

variable {s t u : Server}

theorem SameTable.refl (s : Server) : SameTable s s := ⟨rfl, rfl⟩

theorem SameTable.trans (h : SameTable s t) (h' : SameTable t u) : SameTable s u :=
  ⟨h'.config.trans h.config, h'.length.trans h.length⟩

theorem sameTable_leases {leases : List DynLease} (h : leases.length = s.gLeases.length) :
    SameTable s { s with gLeases := leases } := ⟨rfl, h⟩

theorem sameTable_sendPacket (s : Server) (env : Env) (packet : Reply) (force : Bool) :
    SameTable s (sendPacket s env packet force) := by
  unfold sendPacket sendPacketToRelay
  split
  · split <;> exact ⟨rfl, rfl⟩
  · exact ⟨rfl, rfl⟩

theorem sameTable_safeWrite (s : Server) : SameTable s (safeWrite s) := ⟨rfl, rfl⟩

theorem sameTable_sendOffer (s : Server) (env : Env) (packet : DhcpPacket) :
    SameTable s (sendOffer s env packet) := by
  simp only [sendOffer]
  split
  · exact .refl s
  split
  · exact sameTable_sendPacket _ _ _ _
  split
  · exact .refl s
  split
  · exact sameTable_leases (length_addLease _ _ _ _ _ _)
  · exact (sameTable_leases (length_addLease _ _ _ _ _ _)).trans (sameTable_sendPacket _ _ _ _)

theorem sameTable_sendAck (s : Server) (env : Env) (packet : DhcpPacket) (yiaddr : UInt32) :
    SameTable s (sendAck s env packet yiaddr) := by
  simp only [sendAck]
  split
  · exact .refl s
  · exact (sameTable_sendPacket _ _ _ _).trans (sameTable_leases (length_addLease _ _ _ _ _ _))

theorem sameTable_onRequest (s : Server) (env : Env) (packet : DhcpPacket) :
    SameTable s (onRequest s env packet) := by
  simp only [onRequest]
  split
  · exact .refl s
  split
  · exact (sameTable_sendAck _ _ _ _).trans (sameTable_safeWrite _)
  split
  · refine SameTable.trans ?_ (sameTable_safeWrite _)
    unfold sendNak
    split
    · exact .refl s
    · exact sameTable_sendPacket _ _ _ _
  · exact .refl s

theorem sameTable_modifyLease (s : Server) (lease : Lease) (change : DynLease → DynLease) :
    SameTable s (modifyLease s lease change) := by
  cases lease with
  | null => exact .refl s
  | fake nip => exact .refl s
  | entry i => exact sameTable_leases (List.length_modify _ _ _)

theorem sameTable_handlePacket (s : Server) (env : Env) (packet : DhcpPacket) :
    SameTable s (handlePacket s env packet) := by
  unfold handlePacket
  split
  · exact ⟨rfl, rfl⟩
  split
  · exact (sameTable_sendOffer _ _ _).trans (sameTable_safeWrite _)
  split
  · exact sameTable_onRequest _ _ _
  split
  · unfold onDecline
    split
    · exact sameTable_modifyLease _ _ _
    · exact .refl s
  split
  · unfold onRelease
    split
    · exact sameTable_modifyLease _ _ _
    · exact .refl s
  split
  · refine SameTable.trans ?_ (sameTable_safeWrite _)
    unfold sendInform
    split
    · exact .refl s
    · exact sameTable_sendPacket _ _ _ _
  · exact .refl s

theorem sameTable_step {event : Event} (hstep : step s event = some t) : SameTable s t := by
  cases event with
  | receive env datagram =>
    simp only [step] at hstep
    split at hstep
    · cases hstep
    · cases hstep
      simp only [receive]
      split
      · exact ⟨rfl, rfl⟩
      · have h := sameTable_handlePacket
          { s with destSin := if datagram.isSome then env.sender else s.destSin } env
        exact ⟨(h _).config, (h _).length⟩
  | clearleaseBymac mac =>
    simp only [step] at hstep
    split at hstep
    · cases hstep
    · cases hstep
      unfold clearleaseBymac
      split
      · exact sameTable_leases List.length_set
      · exact .refl s

/-- The table has `max_leases` entries throughout. -/
theorem length_gLeases {config : ServerConfig} {events : List Event}
    (hrun : Run step anyStep (udhcpdStart config) events s) :
    s.gLeases.length = config.maxLeases := by
  have hsame : SameTable (udhcpdStart config) s := by
    refine hrun.invariant (SameTable.refl _) ?_
    intro s event t hsame _ hstep
    exact hsame.trans (sameTable_step hstep)
  rw [hsame.length]
  exact List.length_replicate

end Sv6x66.Udhcp.Dhcpd
