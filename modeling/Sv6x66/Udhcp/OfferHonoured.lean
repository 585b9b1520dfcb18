import Sv6x66.Udhcp.LeaseExclusive

/-! Whether a station gets the address it was offered. The offer is an entry of the
table that nobody else can take while it lasts and the station is associated. -/
namespace Sv6x66.Udhcp.OfferHonoured
open Sv6x66.Lib
open Sv6x66.Udhcp.Packet
open Sv6x66.Udhcp.Leases
open Sv6x66.Udhcp.Dhcpd
open Sv6x66.Udhcp.LeaseTable
open Sv6x66.Udhcp.OwnReply
open Sv6x66.Udhcp.LeaseExclusive

/-- A reply of type `type` that gives `nip` to the client `mac` is sent between `s`
and `t`. -/
def Sends (s t : Server) (type : UInt8) (mac : Mac) (nip : UInt32) : Prop :=
  ∃ sent ∈ sentSince s t, ∃ reply, sent.packet = some reply ∧
    messageType reply = some [type] ∧ client reply = mac ∧ reply.yiaddr = nip

/-- What the others may do until `deadline`, while the station `mac` is associated. -/
def Others (mac : Mac) (deadline : Nat) : Event → Prop
  | .receive env datagram =>
    env.nowCheck ≤ env.nowSearch ∧ env.nowSearch.toNat ≤ deadline ∧ env.offline mac = false ∧
      ∀ packet, udhcpRecvKernelPacket env.heap datagram = some packet → packet.mac ≠ mac ∧
        udhcpGetOption packet dhcpMessageType ≠ none
  | .clearleaseBymac other => other ≠ mac

/-- The station requests `nip`, and its answer can be allocated and sent. -/
structure Requests (env : Env) (datagram : Option (List UInt8)) (mac : Mac) (nip : UInt32)
    (packet : DhcpPacket) : Prop where
  recv : udhcpRecvKernelPacket env.heap datagram = some packet
  mac : packet.mac = mac
  type : ∃ state, udhcpGetOption packet dhcpMessageType = some state ∧
    packet state = dhcpRequest
  nip : requestedNip packet = nip
  memAlloc : env.memAlloc = true
  relay : packet.gatewayNip = 0 ∨ env.relaySocket = true

/-- An offer sent in the turn that led from `s` to `t` is good for its time: whatever
the others do, the request is acknowledged. -/
def Honours (s : Server) (env : Env) (t : Server) : Prop :=
  ∀ mac nip, mac ≠ noMac → Sends s t dhcpOffer mac nip →
    env.nowSet.toNat + s.config.offerTime.toNat < 2 ^ 32 →
    ∀ others u, Run step
      (fun _ event => Others mac (env.nowSet.toNat + s.config.offerTime.toNat) event) t others u →
      ∀ env' datagram packet, Requests env' datagram mac nip packet →
        ∃ v, step u (.receive env' datagram) = some v ∧ Sends u v dhcpAck mac nip

variable {s t : Server} {env : Env} {packet : DhcpPacket} {reply : Reply} {mac : Mac}
  {nip : UInt32} {deadline : Nat}

/-- The address is reserved for the station. -/
structure Reserved (s : Server) (mac : Mac) (nip : UInt32) (deadline : Nat) : Prop
    extends Ordered s where
  nullRead : s.nullRead = false
  entry : ∃ entry ∈ s.gLeases, entry.leaseMac = mac ∧ entry.leaseNip = nip ∧
    deadline ≤ entry.expires.toNat

/-! ### The offer -/

theorem discover_of_offer {type : UInt8} (hbuilt : built s env packet type = some reply)
    (hoffer : messageType reply = some [dhcpOffer]) :
    type = dhcpDiscover ∧ env.memAlloc = true ∧ Offers s env packet ∧
      reply.yiaddr = offeredNip s env packet := by
  have hne : some [dhcpAck] ≠ some [dhcpOffer] ∧ some [dhcpNak] ≠ some [dhcpOffer] := by decide
  unfold built at hbuilt
  split_ifs at hbuilt with hmem hdiscover hoffers hrequest hunanswered hown hinform
  · cases hbuilt
    exact ⟨hdiscover, Bool.eq_true_of_not_eq_false hmem, hoffers, rfl⟩
  · cases hbuilt
    exact absurd hoffer hne.1
  · cases hbuilt
    exact absurd hoffer hne.2
  · cases hbuilt
    exact absurd hoffer hne.1

/-- What is offered is noted in the table. -/
theorem noted_sendOffer (hstatic : s.config.staticLeases = []) (hmem : env.memAlloc = true)
    (hoffers : Offers s env packet) :
    offerYiaddr s env packet ≠ 0 ∧ ∃ entry ∈ (sendOffer s env packet).gLeases,
      entry.leaseMac = packet.mac ∧ entry.leaseNip = offerYiaddr s env packet ∧
        entry.expires = env.nowSet + s.config.offerTime := by
  have hzero := (findLease_eq hstatic packet).1
  obtain ⟨hyiaddr, hexpired⟩ := hoffers.resolve_left (not_not.mpr hzero)
  refine ⟨hyiaddr, ?_⟩
  have hadded := (addLease_snd_eq_none_iff s.gLeases env.toLeaseEnv packet
    (offerYiaddr s env packet) s.config.offerTime (udhcpGetOption packet dhcpHostName)).not.mpr
    (not_not.mpr hexpired)
  have hleases : (sendOffer s env packet).gLeases = (addLease s.gLeases env.toLeaseEnv packet
      (offerYiaddr s env packet) s.config.offerTime (udhcpGetOption packet dhcpHostName)).1 := by
    simp only [sendOffer, hmem, hzero, hyiaddr, hadded, Bool.not_true, Bool.false_eq_true, ne_eq,
      not_true_eq_false, if_false, gLeases_sendPacket]
  rw [hleases]
  rcases addLease_cases s.gLeases env.toLeaseEnv packet (offerYiaddr s env packet)
    s.config.offerTime (udhcpGetOption packet dhcpHostName) with h | ⟨oldest, old, hold, -, h⟩
  · rw [h] at hadded
    exact absurd rfl hadded
  · rw [h]
    have hlt := (List.getElem?_eq_some_iff.mp hold).1
    exact ⟨_, List.mem_set hlt _, rfl, rfl, rfl⟩

/-- The station that gets an offer of its own has the address reserved to the last
second of it. -/
theorem reserved_offer (hordered : Ordered s) (hdirect : Direct s) {datagram : Option (List UInt8)}
    (hread : s.nullRead = false) (hreplies : Replies s (.receive env datagram))
    (hwrap : env.nowSet.toNat + s.config.offerTime.toNat < 2 ^ 32)
    (hsends : Sends s (receive s env datagram) dhcpOffer mac nip) :
    nip ≠ 0 ∧ Reserved (receive s env datagram) mac nip
      (env.nowSet.toNat + s.config.offerTime.toNat) := by
  obtain ⟨sent, hsent, reply, hreply, htype, hclient, hnip⟩ := hsends
  obtain ⟨packet, state, hrecv, hstate, hbuilt, hto⟩ := hreplies.built_of_sent hdirect hsent hreply
  obtain ⟨hdiscover, hmem, hoffers, hyiaddr⟩ := discover_of_offer hbuilt htype
  have hoffer : offerYiaddr s env packet = nip := by
    rw [← hnip, hyiaddr]
    exact (if_neg (not_not.mpr (findLease_eq hordered.static packet).1)).symm
  obtain ⟨hzero, entry, hentry, hentryMac, hentryNip, hexpires⟩ :=
    noted_sendOffer (s := atSender s env datagram) hordered.static hmem hoffers
  refine ⟨hoffer ▸ hzero, hordered.receive env datagram, ?_, entry, ?_, ?_, ?_, ?_⟩
  · rw [receive_some s hrecv]
    exact (MessageFilter.untouched_handlePacket _ _ packet hstate).2.trans hread
  · rw [receive_some s hrecv]
    simp only [handlePacket, hstate, hdiscover, if_true]
    exact hentry
  · exact hentryMac.trans ((client_eq hto).symm.trans hclient)
  · exact hentryNip.trans hoffer
  · rw [hexpires, UInt32.toNat_add]
    exact (Nat.mod_eq_of_lt hwrap).ge

/-! ### What the others do -/

theorem Reserved.receive (h : Reserved s mac nip deadline) (hzero : nip ≠ 0)
    {datagram : Option (List UInt8)} (hothers : Others mac deadline (.receive env datagram)) :
    Reserved (receive s env datagram) mac nip deadline := by
  obtain ⟨hcheck, hsearch, honline, hpackets⟩ := hothers
  obtain ⟨entry, hmem, hentryMac, hentryNip, hexpires⟩ := h.entry
  refine ⟨h.toOrdered.receive env datagram, ?_, entry, ?_, hentryMac, hentryNip, hexpires⟩
  · cases hrecv : udhcpRecvKernelPacket env.heap datagram with
    | none =>
      rw [receive_none s hrecv]
      exact h.nullRead
    | some packet =>
      rw [receive_some s hrecv]
      obtain ⟨state, hstate⟩ := Option.ne_none_iff_exists'.mp (hpackets packet hrecv).2
      exact (MessageFilter.untouched_handlePacket _ _ packet hstate).2.trans h.nullRead
  · rcases (tableAfter_receive h.static env datagram).leases with
      ⟨packet, state, hrecv, hstate, hleases⟩ | ⟨heq, -⟩
    · have hunexpired : env.nowSearch ≤ entry.expires :=
        UInt32.le_iff_toNat_le.mpr (hsearch.trans hexpires)
      refine hleases.mem h.exclusive hmem ?_ (hentryNip ▸ hzero) hunexpired ?_
      · exact fun hsame => (hpackets packet hrecv).1 (hsame.symm.trans hentryMac)
      · intro _ hoffer
        rcases holder_of_offerYiaddr h.static h.exclusive hmem hoffer (hentryNip ▸ hzero) with
          hsame | hexpired | ⟨-, -, hoffline⟩
        · exact (hpackets packet hrecv).1 (hsame.symm.trans hentryMac)
        · exact UInt32.lt_irrefl _ (UInt32.lt_of_lt_of_le (of_decide_eq_true hexpired)
            (UInt32.le_trans hcheck hunexpired))
        · have hoff := (mem_of_oldestOffline hoffline).2
          rw [hentryMac, honline] at hoff
          cases hoff
    · rw [heq]
      exact hmem

theorem Reserved.clearleaseBymac (h : Reserved s mac nip deadline) {other : Mac}
    (hother : other ≠ mac) : Reserved (clearleaseBymac s other) mac nip deadline := by
  have hordered := h.toOrdered.clearleaseBymac other
  obtain ⟨entry, hmem, hentryMac, hentry⟩ := h.entry
  unfold Dhcpd.clearleaseBymac at hordered ⊢
  cases hfound : findLeaseByMac s.gLeases other with
  | none => exact h
  | some i =>
    rw [hfound] at hordered
    refine ⟨hordered, h.nullRead, entry, ?_, hentryMac, hentry⟩
    exact mem_set_of_findLeaseByMac hmem hfound fun hsame => hother (hsame.trans hentryMac)

/-- Nothing that happens before the offer runs out takes the address away. -/
theorem reserved_run (h : Reserved s mac nip deadline) (hzero : nip ≠ 0) {events : List Event}
    (hrun : Run step (fun _ event => Others mac deadline event) s events t) :
    Reserved t mac nip deadline := by
  refine hrun.invariant (I := fun s => Reserved s mac nip deadline) h ?_
  intro s event t hreserved hothers hstep
  cases event with
  | receive env datagram => exact step_receive hstep ▸ hreserved.receive hzero hothers
  | clearleaseBymac other => exact step_clearleaseBymac hstep ▸ hreserved.clearleaseBymac hothers

/-! ### The request -/

theorem findLease_of_reserved (h : Reserved s mac nip deadline) (hmac : mac ≠ noMac)
    (hpacket : packet.mac = mac) : (findLease s packet).nip s.gLeases = some nip := by
  obtain ⟨entry, hmem, hentryMac, hentryNip, -⟩ := h.entry
  rw [(findLease_eq h.static packet).2, hpacket]
  cases hfound : findLeaseByMac s.gLeases mac with
  | none =>
    refine absurd hentryMac (of_decide_eq_false ?_)
    exact List.findIdx?_eq_none_iff.mp hfound entry hmem
  | some i =>
    obtain ⟨own, hown, hownMac⟩ := findLeaseByMac_some hfound
    have hsame : own = entry := h.exclusive.mac.eq_of_mem (List.mem_of_getElem? hown) hmem
      (hownMac.trans hentryMac.symm) (hownMac ▸ hmac)
    simp only [Lease.nip, hown, Option.map_some, hsame, hentryNip]

/-- A reply that is for no relay, or for one that can be reached, is sent by the time
of `safe_write`. -/
theorem sent_sendPacket (s : Server) {env : Env} {reply : Reply} (force : Bool)
    (hrelay : reply.gatewayNip = 0 ∨ env.relaySocket = true) :
    ∃ sent ∈ sentSince s (safeWrite (sendPacket s env reply force)),
      sent.packet = some reply := by
  by_cases hgateway : reply.gatewayNip = 0
  · have hpkt : (sendPacket s env reply force).pdhcpPkt = some reply ∧
        (sendPacket s env reply force).sent = s.sent := by
      rw [sendPacket, if_neg (not_not.mpr hgateway)]
      exact ⟨rfl, rfl⟩
    unfold sentSince safeWrite
    rw [hpkt.2, List.drop_left]
    exact ⟨_, List.mem_singleton_self _, hpkt.1⟩
  · have hsent : (sendPacket s env reply force).sent =
        s.sent ++ [⟨s.destSin, some reply, packetLen reply⟩] := by
      rw [sendPacket, if_pos hgateway, sendPacketToRelay, if_pos (hrelay.resolve_left hgateway)]
    unfold sentSince safeWrite
    rw [hsent, List.append_assoc, List.drop_left]
    exact ⟨_, List.mem_cons_self, rfl⟩

theorem acknowledged (h : Reserved s mac nip deadline) (hmac : mac ≠ noMac) (hzero : nip ≠ 0)
    {datagram : Option (List UInt8)} (hrequests : Requests env datagram mac nip packet) :
    Sends s (receive s env datagram) dhcpAck mac nip := by
  obtain ⟨state, hstate, htype⟩ := hrequests.type
  have hlease := findLease_of_reserved h hmac hrequests.mac
  have hnip : (requestedIp packet).getD packet.ciaddr = nip := hrequests.nip
  have hack : receive s env datagram =
      safeWrite (sendAck (atSender s env datagram) env packet nip) := by
    rw [receive_some s hrequests.recv]
    simp only [handlePacket, hstate, htype]
    rw [if_neg (by decide), if_pos trivial, onRequest]
    simp only [hnip, hzero, and_false, if_false]
    exact if_pos hlease
  have hrelay : (builtAck s packet nip).gatewayNip = 0 ∨ env.relaySocket = true := hrequests.relay
  obtain ⟨sent, hsent, hreply⟩ := sent_sendPacket (atSender s env datagram) false hrelay
  refine ⟨sent, ?_, builtAck s packet nip, hreply, ?_, ?_, rfl⟩
  · rw [hack, sendAck, hrequests.memAlloc]
    exact hsent
  · exact messageType_addLeaseOptions _ _ _ (List.cons_ne_nil _ _)
  · have hreplies : RepliesTo packet (builtAck s packet nip) :=
      (repliesTo_initPacket s.config packet (.inr (.inl rfl))).leaseOptions _ _ _
        (List.cons_ne_nil _ _)
    exact (client_eq hreplies).trans hrequests.mac

/-- After any history of the server, an offer that is a reply of its own is honoured. -/
theorem offer_honoured (pleaseConfig : Option PleaseConfig) (ipaddr gw subnet : UInt32)
    (history : List Event) (s t : Server) (env : Env) (datagram : Option (List UInt8))
    (hhistory : Run step anyStep (udhcpdStart (udhcpdRunConfig pleaseConfig ipaddr gw subnet))
      history s)
    (hturn : step s (.receive env datagram) = some t)
    (hreplies : Replies s (.receive env datagram)) : Honours s env t := by
  have hread : s.nullRead = false := MessageFilter.nullRead_of_step hturn
  have hstart : Ordered s ∧ Direct s := by
    refine hhistory.invariant (I := fun s => Ordered s ∧ Direct s) ?_ ?_
    · refine ⟨ordered_udhcpdStart pleaseConfig ipaddr gw subnet, ?_⟩
      intro reply hreply
      cases hreply
    · exact fun s event t h _ hstep => ⟨h.1.step hstep, direct_step h.2 hstep⟩
  cases step_receive hturn
  intro mac nip hmac hsends hwrap others u hothers env' datagram' packet hrequests
  obtain ⟨hzero, hreserved⟩ := reserved_offer hstart.1 hstart.2 hread hreplies hwrap hsends
  have hkept := reserved_run hreserved hzero hothers
  refine ⟨_, ?_, acknowledged hkept hmac hzero hrequests⟩
  simp only [step, hkept.nullRead, Bool.false_eq_true, if_false]

/-! ### Two stations -/

/-- The second station is heard while the first one is associated. -/
def whileAssociated (now : UInt32) : Env := { atSecond now with offline := fun _ => false }

theorem others_discover {now : UInt32} {deadline : Nat} (hnow : now.toNat ≤ deadline) :
    Others (packetOf (discover 1)).mac deadline
      (.receive (whileAssociated now) (some (discover 2))) := by
  refine ⟨UInt32.le_refl _, hnow, rfl, fun packet hrecv => ?_⟩
  cases (recv_discover (.inr rfl)).symm.trans hrecv
  refine ⟨by decide, ?_⟩
  rw [(discover_options (.inr rfl)).1]
  exact Option.some_ne_none _

theorem requests_request (now : UInt32) :
    Requests (atSecond now) (some request) (packetOf (discover 1)).mac 0x6519a8c0
      (packetOf request) := by
  obtain ⟨htype, hrequested, -⟩ := request_options
  refine ⟨recv_request, mac_message 1 _, ⟨242, htype, by decide⟩, ?_, rfl, .inr rfl⟩
  rw [requestedNip, requestedIp, hrequested]
  decide

/-- A station is offered its address a second time, another one comes and is cleared, and
the request is acknowledged. -/
theorem offer_honoured_again :
    ∃ s t u v,
      Run step anyStep (udhcpdStart twoConfig) [.receive (atSecond 1000) (some (discover 1))] s ∧
      step s (.receive (atSecond 1040) (some (discover 1))) = some t ∧
      Sends s t dhcpOffer (packetOf (discover 1)).mac 0x6519a8c0 ∧
      Run step (fun _ event => Others (packetOf (discover 1)).mac 1100 event) t
        [.receive (whileAssociated 1045) (some (discover 2)),
          .clearleaseBymac (packetOf (discover 2)).mac] u ∧
      step u (.receive (atSecond 1050) (some request)) = some v ∧
      Sends u v dhcpAck (packetOf (discover 1)).mac 0x6519a8c0 := by
  let s := receive (udhcpdStart twoConfig) (atSecond 1000) (some (discover 1))
  let t := receive s (atSecond 1040) (some (discover 1))
  let u := receive t (whileAssociated 1045) (some (discover 2))
  obtain ⟨htype₁, -⟩ := discover_options (.inl rfl)
  obtain ⟨htype₂, -⟩ := discover_options (.inr rfl)
  have hread₁ : s.nullRead = false :=
    nullRead_receive (atSecond 1000) (recv_discover (.inl rfl)) htype₁
  have hread₂ : t.nullRead = false :=
    (nullRead_receive (atSecond 1040) (recv_discover (.inl rfl)) htype₁).trans hread₁
  have hread₃ : u.nullRead = false :=
    (nullRead_receive (whileAssociated 1045) (recv_discover (.inr rfl)) htype₂).trans hread₂
  have hconfig : s.config = twoConfig :=
    (tableAfter_receive (s := udhcpdStart twoConfig) rfl (atSecond 1000) _).config
  have hstatic : s.config.staticLeases = [] := by rw [hconfig]; rfl
  have hleases : s.gLeases = [someLease 1060 (packetOf (discover 1)).mac, noLease] := leases_offer
  have hoffer : offerYiaddr s (atSecond 1040) (packetOf (discover 1)) = 0x6519a8c0 := by
    rw [offerYiaddr, findLease_first hstatic hleases rfl, hleases]
    rfl
  have hexpired : ∃ lease ∈ clearLeases s.gLeases (packetOf (discover 1)).mac 0x6519a8c0,
      lease.expires < 1040 := by
    rw [hleases]
    exact ⟨noLease, List.mem_map.mpr ⟨noLease, List.mem_cons_of_mem _ List.mem_cons_self,
      ite_self _⟩, by decide⟩
  have hstart : Run step anyStep (udhcpdStart twoConfig)
      [.receive (atSecond 1000) (some (discover 1))] s := Run.nil.snoc trivial rfl
  have hturn : step s (.receive (atSecond 1040) (some (discover 1))) = some t := by
    simp only [step, hread₁, Bool.false_eq_true, if_false]
    rfl
  have hsends : Sends s t dhcpOffer (packetOf (discover 1)).mac 0x6519a8c0 :=
    sent_discover (.inl rfl) hstatic hoffer (by decide) hexpired
  have hheard : step t (.receive (whileAssociated 1045) (some (discover 2))) = some u := by
    simp only [step, hread₂, Bool.false_eq_true, if_false]
    rfl
  have hcleared : step u (.clearleaseBymac (packetOf (discover 2)).mac) =
      some (clearleaseBymac u (packetOf (discover 2)).mac) := by
    simp only [step, hread₃, Bool.false_eq_true, if_false]
  have hother : Others (packetOf (discover 1)).mac 1100
      (.clearleaseBymac (packetOf (discover 2)).mac) := by
    have hmac : (packetOf (discover 2)).mac ≠ (packetOf (discover 1)).mac := by decide
    exact hmac
  have hothers : Run step (fun _ event => Others (packetOf (discover 1)).mac 1100 event) t
      [.receive (whileAssociated 1045) (some (discover 2)),
        .clearleaseBymac (packetOf (discover 2)).mac]
      (clearleaseBymac u (packetOf (discover 2)).mac) := by
    refine (Run.nil.snoc ?_ hheard).snoc hother hcleared
    exact others_discover (by decide)
  have hdeadline : (atSecond 1040).nowSet.toNat + s.config.offerTime.toNat = 1100 := by
    rw [hconfig]
    decide
  obtain ⟨v, hanswer, hack⟩ := offer_honoured (some twoAddresses) 0x0119a8c0 0 0 _ s t
    (atSecond 1040) _ hstart hturn (replies_discover (.inl rfl) hoffer (by decide) hexpired) _ _
    (by decide) hsends (by rw [hdeadline]; decide) _ _ (hdeadline ▸ hothers) _ _ _
    (requests_request 1050)
  exact ⟨s, t, _, v, hstart, hturn, hsends, hothers, hanswer, hack⟩

/-! ### A pool of one address that is only given on request -/

/-- The search skips the address. -/
def lastAddress : PleaseConfig := { oneAddress with startIp := 0xc0a819ff, endIp := 0xc0a819ff }

def lastConfig : ServerConfig := udhcpdRunConfig (some lastAddress) 0x0119a8c0 0 0

def asking (type : UInt8) : List UInt8 :=
  message 1 [0x35, 1, type, 0x32, 4, 0xc0, 0xa8, 0x19, 0xff, 0xff]

def station : Mac := #v[2, 0, 0, 0, 0, 1]

theorem asking_recv {type : UInt8} (htype : type = dhcpDiscover ∨ type = dhcpRequest) :
    udhcpRecvKernelPacket (fun _ => 0) (some (asking type)) = some (packetOf (asking type)) ∧
      (packetOf (asking type)).mac = station ∧ packetOf (asking type) 242 = type ∧
      (packetOf (asking type)).gatewayNip = 0 := by
  rcases htype with rfl | rfl
  · exact ⟨recv_packetOf (by decide), by decide, by decide,
      by decide⟩
  · exact ⟨recv_packetOf (by decide), by decide, by decide,
      by decide⟩

theorem asking_options {type : UInt8} (htype : type = dhcpDiscover ∨ type = dhcpRequest) :
    udhcpGetOption (packetOf (asking type)) dhcpMessageType = some 242 ∧
      requestedIp (packetOf (asking type)) = some 0xff19a8c0 := by
  have hoption : udhcpGetOption (packetOf (asking type)) dhcpRequestedIp = some 245 := by
    rcases htype with rfl | rfl <;> exact findOption_of_fuel 3 (by decide)
  constructor
  · rcases htype with rfl | rfl <;> exact findOption_of_fuel 3 (by decide)
  · unfold requestedIp
    rw [hoption]
    rcases htype with rfl | rfl <;> decide

theorem requests_asking (now : UInt32) :
    Requests (atSecond now) (some (asking dhcpRequest)) station 0xff19a8c0
      (packetOf (asking dhcpRequest)) := by
  obtain ⟨hrecv, hmac, htype, hgateway⟩ := asking_recv (.inr rfl)
  obtain ⟨hstate, hnip⟩ := asking_options (.inr rfl)
  exact ⟨hrecv, hmac, ⟨242, hstate, htype⟩, congrArg (Option.getD · _) hnip, rfl,
    .inl hgateway⟩

theorem offered_asking (hconfig : s.config = lastConfig) (hleases : s.gLeases = [noLease]) :
    Offers s (atSecond 1000) (packetOf (asking dhcpDiscover)) ∧
      offerYiaddr s (atSecond 1000) (packetOf (asking dhcpDiscover)) = 0xff19a8c0 := by
  have hnone : findLeaseByMac s.gLeases (packetOf (asking dhcpDiscover)).mac = none := by
    rw [hleases]
    decide
  have hoffer : offerYiaddr s (atSecond 1000) (packetOf (asking dhcpDiscover)) = 0xff19a8c0 := by
    rcases offerYiaddr_new (by rw [hconfig]; rfl) (atSecond 1000) hnone with
      ⟨reqNip, hreqNip, -, hoffer⟩ | ⟨⟨-, hnot⟩, -⟩
    · cases (asking_options (.inl rfl)).2.symm.trans hreqNip
      exact hoffer
    · refine absurd ⟨?_, ?_, ?_⟩ (hnot _ (asking_options (.inl rfl)).2)
      · rw [hconfig]
        decide
      · rw [hconfig]
        decide
      · rw [hleases]
        intro lease hlease
        cases hlease
  refine ⟨.inr ?_, hoffer⟩
  rw [hoffer, hleases]
  decide

/-- The first offer, which is honoured. -/
theorem sends_offer :
    Replies (udhcpdStart lastConfig) (.receive (atSecond 1000) (some (asking dhcpDiscover))) ∧
      ∃ reply, (receive (udhcpdStart lastConfig) (atSecond 1000)
        (some (asking dhcpDiscover))).pdhcpPkt = some reply ∧
        messageType reply = some [dhcpOffer] ∧ client reply = station ∧
        reply.yiaddr = 0xff19a8c0 ∧
        Sends (udhcpdStart lastConfig) (receive (udhcpdStart lastConfig) (atSecond 1000)
          (some (asking dhcpDiscover))) dhcpOffer station 0xff19a8c0 := by
  obtain ⟨hrecv, hmac, htype, hgateway⟩ := asking_recv (.inl rfl)
  obtain ⟨hstate, -⟩ := asking_options (.inl rfl)
  obtain ⟨hoffers, hoffer⟩ := offered_asking (s := udhcpdStart lastConfig) rfl rfl
  constructor
  · intro packet hpacket state _ _
    cases hrecv.symm.trans hpacket
    exact ⟨rfl, hgateway, fun _ => hoffers⟩
  · have hbuilt : built (udhcpdStart lastConfig) (atSecond 1000)
        (packetOf (asking dhcpDiscover)) (packetOf (asking dhcpDiscover) 242) =
          some (builtOffer (udhcpdStart lastConfig) (atSecond 1000)
            (packetOf (asking dhcpDiscover))) := by
      rw [htype]
      exact (if_neg (by decide)).trans ((if_pos rfl).trans (if_pos hoffers))
    have hreplies := built_repliesTo hbuilt
    obtain ⟨sent, hsent, hpkt, -, hpacket⟩ := sent_of_answered (udhcpdStart lastConfig)
      (atSecond 1000) hrecv hstate (.inl htype)
    have hpacket := hpacket _ hbuilt (hreplies.2.trans hgateway)
    have hoffered : messageType (builtOffer (udhcpdStart lastConfig) (atSecond 1000)
        (packetOf (asking dhcpDiscover))) = some [dhcpOffer] :=
      messageType_addLeaseOptions _ _ _ (List.cons_ne_nil _ _)
    have hclient := (client_eq hreplies.1).trans hmac
    exact ⟨_, hpkt.symm.trans hpacket, hoffered, hclient, hoffer,
      sent, hsent, _, hpacket, hoffered, hclient, hoffer⟩

/-- The station loses the address and asks for any. -/
theorem sends_stale (hconfig : s.config = lastConfig) (hleases : s.gLeases = [noLease])
    (hpkt : s.pdhcpPkt = some reply) (htype : messageType reply = some [dhcpOffer])
    (hclient : client reply = station) (hnip : reply.yiaddr = 0xff19a8c0) :
    Sends s (receive s (atSecond 1020) (some (discover 1))) dhcpOffer station 0xff19a8c0 ∧
      (receive s (atSecond 1020) (some (discover 1))).gLeases = [noLease] := by
  have hstatic : s.config.staticLeases = [] := by
    rw [hconfig]
    rfl
  obtain ⟨hstate, hrequested, -, -⟩ := discover_options (.inl rfl)
  have hdiscover : packetOf (discover 1) 242 = dhcpDiscover := by decide
  have hnone : findLeaseByMac s.gLeases (packetOf (discover 1)).mac = none := by
    rw [hleases]
    decide
  have hoffer : offerYiaddr s (atSecond 1020) (packetOf (discover 1)) = 0 := by
    rcases offerYiaddr_new hstatic (atSecond 1020) hnone with ⟨reqNip, hreqNip, -⟩ | ⟨-, hoffer⟩
    · rw [requestedIp, hrequested] at hreqNip
      cases hreqNip
    · rw [hoffer, hconfig, hleases]
      decide
  constructor
  · obtain ⟨sent, hsent, -, hwaiting, -⟩ := sent_of_answered s (atSecond 1020)
      (recv_discover (.inl rfl)) hstate (.inl hdiscover)
    have hbuilt : built s (atSecond 1020) (packetOf (discover 1)) (packetOf (discover 1) 242) =
        none := by
      rw [hdiscover]
      refine (if_neg (by decide)).trans ((if_pos rfl).trans (if_neg ?_))
      rintro (h | ⟨h, -⟩)
      · exact h (findLease_eq hstatic _).1
      · exact h hoffer
    exact ⟨sent, hsent, reply, (hwaiting hbuilt).trans hpkt, htype, hclient, hnip⟩
  · rcases (tableAfter_receive hstatic (atSecond 1020) (some (discover 1))).leases with
      ⟨packet, state, hrecv, hstate', hto⟩ | ⟨heq, -⟩
    · cases (recv_discover (.inl rfl)).symm.trans hrecv
      cases hstate.symm.trans hstate'
      rw [hdiscover] at hto
      generalize (receive s (atSecond 1020) (some (discover 1))).gLeases = after at hto ⊢
      cases hto with
      | same => exact hleases
      | offer _ hyiaddr => exact absurd hoffer hyiaddr
      | ack hrequest => exact absurd hrequest (by decide)
      | decline hdecline => exact absurd hdecline (by decide)
      | release hrelease => exact absurd hrelease (by decide)
    · exact heq.trans hleases

/-- The server does not know the station. -/
theorem not_sends_ack (hdirect : Direct s) (hstatic : s.config.staticLeases = [])
    (hleases : s.gLeases = [noLease]) :
    ¬ Sends s (receive s (atSecond 1030) (some (asking dhcpRequest))) dhcpAck station
      0xff19a8c0 := by
  rintro ⟨sent, hsent, reply, hreply, htype, -⟩
  obtain ⟨hrecv, -, hrequest, hgateway⟩ := asking_recv (.inr rfl)
  obtain ⟨hstate, hnip⟩ := asking_options (.inr rfl)
  have hreplies : Replies s (.receive (atSecond 1030) (some (asking dhcpRequest))) := by
    intro packet hpacket state hstate' _
    cases hrecv.symm.trans hpacket
    cases hstate.symm.trans hstate'
    exact ⟨rfl, hgateway, fun h => absurd (hrequest.symm.trans h) (by decide)⟩
  have hown := (ownReplies_iff_replies hdirect _).mpr hreplies
  simp only [OwnReplies, show (atSecond 1030).heap = fun _ => 0 from rfl, hrecv] at hown
  obtain ⟨reply', hbuilt, hpacket, -⟩ := hown.2 sent hsent
  cases hreply.symm.trans hpacket
  have hlease : findLease s (packetOf (asking dhcpRequest)) = .null := by
    rw [(findLease_eq hstatic _).2, hleases]
    decide
  have hnak : builtFor s (atSecond 1030) (packetOf (asking dhcpRequest)) =
      some (initPacket s.config (packetOf (asking dhcpRequest)) dhcpNak) := by
    rw [builtFor, hstate, Option.bind_some, hrequest]
    refine (if_neg (by decide)).trans ((if_neg (by decide)).trans ((if_pos rfl).trans
      ((if_neg ?_).trans (if_neg ?_))))
    · rintro ⟨hnone, -⟩
      cases hnip.symm.trans hnone
    · rw [hlease]
      intro h
      cases h
  cases hnak.symm.trans hbuilt
  have hne : some [dhcpNak] ≠ some [dhcpAck] := by decide
  exact hne htype

theorem cleared_only_entry (hlength : s.gLeases.length = 1)
    (hreserved : Reserved s mac nip deadline) :
    clearleaseBymac s mac = { s with gLeases := [noLease] } := by
  obtain ⟨entry, hmem, hentryMac, -⟩ := hreserved.entry
  obtain ⟨only, honly⟩ := List.length_eq_one_iff.mp hlength
  rw [honly] at hmem
  cases List.mem_singleton.mp hmem
  have hfound : findLeaseByMac s.gLeases mac = some 0 := by
    rw [honly, findLeaseByMac, List.findIdx?_cons, hentryMac, decide_eq_true rfl, if_pos rfl]
  simp only [clearleaseBymac, hfound]
  rw [honly, List.set_cons_zero]

/-- A DISCOVER there is no address for sends the offer that waits, and the request is
refused. -/
theorem not_honours (hdirect : Direct s) (hread : s.nullRead = false)
    (hconfig : s.config = lastConfig) (hleases : s.gLeases = [noLease])
    (hpkt : s.pdhcpPkt = some reply) (htype : messageType reply = some [dhcpOffer])
    (hclient : client reply = station) (hnip : reply.yiaddr = 0xff19a8c0) :
    ∃ t, step s (.receive (atSecond 1020) (some (discover 1))) = some t ∧
      ¬ Honours s (atSecond 1020) t := by
  have hstep : step s (.receive (atSecond 1020) (some (discover 1))) =
      some (receive s (atSecond 1020) (some (discover 1))) := by
    simp only [step, hread, Bool.false_eq_true, if_false]
  refine ⟨_, hstep, ?_⟩
  intro hhonours
  obtain ⟨hsends, hafter⟩ := sends_stale hconfig hleases hpkt htype hclient hnip
  have hwrap : (atSecond 1020).nowSet.toNat + s.config.offerTime.toNat < 2 ^ 32 := by
    rw [hconfig]
    decide
  obtain ⟨v, hv, hack⟩ := hhonours station _ (by decide) hsends hwrap [] _ .nil (atSecond 1030) _ _
    (requests_asking 1030)
  cases step_receive hv
  have hstatic : s.config.staticLeases = [] := by
    rw [hconfig]
    rfl
  have hkept := tableAfter_receive hstatic (atSecond 1020) (some (discover 1))
  exact not_sends_ack (hkept.direct hdirect)
    ((congrArg ServerConfig.staticLeases hkept.config).trans hstatic) hafter hack

theorem stale_offer_refused :
    ¬ ∀ (pleaseConfig : Option PleaseConfig) (ipaddr gw subnet : UInt32) (history : List Event)
      (s t : Server) (env : Env) (datagram : Option (List UInt8)),
      Run step anyStep (udhcpdStart (udhcpdRunConfig pleaseConfig ipaddr gw subnet)) history s →
        step s (.receive env datagram) = some t → Honours s env t := by
  intro hhonours
  obtain ⟨hreplies, reply, hpkt, htype, hclient, hnip, hsends⟩ := sends_offer
  have hdirect : Direct (udhcpdStart lastConfig) := by
    intro reply h
    cases h
  have hordered : Ordered (udhcpdStart lastConfig) := ordered_udhcpdStart _ _ _ _
  obtain ⟨-, hreserved⟩ := reserved_offer hordered hdirect rfl hreplies (by decide) hsends
  have hoffered : step (udhcpdStart lastConfig)
      (.receive (atSecond 1000) (some (asking dhcpDiscover))) = some _ := rfl
  have hsame := sameTable_step hoffered
  have hdirect := direct_step hdirect hoffered
  generalize receive (udhcpdStart lastConfig) (atSecond 1000) (some (asking dhcpDiscover)) = s at *
  have hcleared : step s (.clearleaseBymac station) = some { s with gLeases := [noLease] } := by
    rw [← cleared_only_entry hsame.length hreserved]
    simp only [step, hreserved.nullRead, Bool.false_eq_true, if_false]
  obtain ⟨t, ht, hnot⟩ := not_honours (s := { s with gLeases := [noLease] }) hdirect
    hreserved.nullRead hsame.config rfl hpkt htype hclient hnip
  exact hnot (hhonours (some lastAddress) 0x0119a8c0 0 0 _ _ _ _ _
    ((Run.nil.snoc trivial hoffered).snoc trivial hcleared) ht)

end Sv6x66.Udhcp.OfferHonoured
