import Sv6x66.Udhcp.MessageFilter

/-! Whether what the DHCP server sends for a packet was built for it. The switch
sends the one static packet whether or not a reply was put there, and a reply for
a relay never is. -/
namespace Sv6x66.Udhcp.OwnReply
open Sv6x66.Lib
open Sv6x66.Udhcp.Packet
open Sv6x66.Udhcp.Leases
open Sv6x66.Udhcp.Dhcpd
open Sv6x66.Udhcp.MessageFilter

variable {s t : Server} {env : Env} {packet : DhcpPacket} {reply : Reply}

instance : Decidable (Unanswered s packet) :=
  inferInstanceAs (Decidable (_ ∧ (_ ∨ _ ∧ _)))

/-! ### The replies -/

def offeredNip (s : Server) (env : Env) (packet : DhcpPacket) : UInt32 :=
  if staticNip s packet ≠ 0 then staticNip s packet else offerYiaddr s env packet

/-- There is an address to offer, and an expired entry to note it in. -/
def Offers (s : Server) (env : Env) (packet : DhcpPacket) : Prop :=
  staticNip s packet ≠ 0 ∨ offerYiaddr s env packet ≠ 0 ∧
    ∃ lease ∈ clearLeases s.gLeases packet.mac (offerYiaddr s env packet),
      lease.expires < env.nowSearch

instance : Decidable (Offers s env packet) := inferInstanceAs (Decidable (_ ∨ _ ∧ _))

def builtOffer (s : Server) (env : Env) (packet : DhcpPacket) : Reply :=
  addLeaseOptions s.config
    { initPacket s.config packet dhcpOffer with yiaddr := offeredNip s env packet }
    (selectLeaseTime s.config packet)

def builtAck (s : Server) (packet : DhcpPacket) (yiaddr : UInt32) : Reply :=
  addLeaseOptions s.config { initPacket s.config packet dhcpAck with yiaddr := yiaddr }
    (selectLeaseTime s.config packet)

def requestedNip (packet : DhcpPacket) : UInt32 := (requestedIp packet).getD packet.ciaddr

/-- The reply the handling of a message of type `type` builds. -/
def built (s : Server) (env : Env) (packet : DhcpPacket) (type : UInt8) : Option Reply :=
  if env.memAlloc = false then none
  else if type = dhcpDiscover then
    if Offers s env packet then some (builtOffer s env packet) else none
  else if type = dhcpRequest then
    if Unanswered s packet then none
    else if (findLease s packet).nip s.gLeases = some (requestedNip packet) then
      some (builtAck s packet (requestedNip packet))
    else some (initPacket s.config packet dhcpNak)
  else if type = dhcpInform then
    some (addServerOptions s.config (initPacket s.config packet dhcpAck))
  else none

/-- A message without a type is not looked at any further. -/
def builtFor (s : Server) (env : Env) (packet : DhcpPacket) : Option Reply :=
  (udhcpGetOption packet dhcpMessageType).bind fun state => built s env packet (packet state)

/-- The message ends in a call of `safe_write`. -/
def Answered (s : Server) (packet : DhcpPacket) (type : UInt8) : Prop :=
  type = dhcpDiscover ∨ type = dhcpInform ∨ type = dhcpRequest ∧ ¬ Unanswered s packet

/-- The data of the message type option, which comes first. -/
def messageType (reply : Reply) : Option (List UInt8) := reply.options.head?.map Prod.snd

/-- An offer, an acknowledgement or a refusal for the client and the
transaction of `packet`. -/
structure RepliesTo (packet : DhcpPacket) (reply : Reply) : Prop where
  xid : reply.xid = packet.xid
  chaddr : reply.chaddr = packet.chaddr
  type : messageType reply = some [dhcpOffer] ∨ messageType reply = some [dhcpAck] ∨
    messageType reply = some [dhcpNak]

def sentSince (s t : Server) : List Datagram := t.sent.drop s.sent.length

/-- What is sent is at most one datagram, and that is the reply built. -/
def OnlyReply (packet : DhcpPacket) (built : Option Reply) (datagrams : List Datagram) : Prop :=
  datagrams.length ≤ 1 ∧ ∀ datagram ∈ datagrams, ∃ reply, built = some reply ∧
    datagram.packet = some reply ∧ RepliesTo packet reply

/-- What is promised of one turn. -/
def OwnReplies (s : Server) : Event → Prop
  | .receive env datagram =>
    match udhcpRecvKernelPacket env.heap datagram with
    | none => sentSince s (receive s env datagram) = []
    | some packet => OnlyReply packet (builtFor s env packet)
      (sentSince s (receive s env datagram))
  | .clearleaseBymac mac => sentSince s (clearleaseBymac s mac) = []

/-- A packet that is answered comes from no relay, the reply can be allocated,
and for a DISCOVER there is something to offer. -/
def Replies (s : Server) : Event → Prop
  | .receive env datagram => ∀ packet, udhcpRecvKernelPacket env.heap datagram = some packet →
    ∀ state, udhcpGetOption packet dhcpMessageType = some state →
      Answered s packet (packet state) →
        env.memAlloc = true ∧ packet.gatewayNip = 0 ∧
          (packet state = dhcpDiscover → Offers s env packet)
  | .clearleaseBymac _ => True

theorem repliesTo_initPacket (config : ServerConfig) (packet : DhcpPacket) {type : UInt8}
    (htype : type = dhcpOffer ∨ type = dhcpAck ∨ type = dhcpNak) :
    RepliesTo packet (initPacket config packet type) where
  xid := rfl
  chaddr := rfl
  type := by
    rcases htype with rfl | rfl | rfl
    · exact .inl rfl
    · exact .inr (.inl rfl)
    · exact .inr (.inr rfl)

theorem messageType_addLeaseOptions (config : ServerConfig) (reply : Reply)
    (leaseTimeSec : UInt32) (hsome : reply.options ≠ []) :
    messageType (addLeaseOptions config reply leaseTimeSec) = messageType reply := by
  obtain ⟨option, rest, hoptions⟩ := List.exists_cons_of_ne_nil hsome
  simp only [messageType, addLeaseOptions, udhcpAddSimpleOption, addServerOptions, hoptions,
    List.cons_append, List.head?_cons]

theorem RepliesTo.leaseOptions (h : RepliesTo packet reply) (config : ServerConfig)
    (yiaddr leaseTimeSec : UInt32) (hsome : reply.options ≠ []) :
    RepliesTo packet (addLeaseOptions config { reply with yiaddr := yiaddr } leaseTimeSec) where
  xid := h.xid
  chaddr := h.chaddr
  type := by
    have hsame : messageType (addLeaseOptions config { reply with yiaddr := yiaddr }
        leaseTimeSec) = messageType reply :=
      messageType_addLeaseOptions config { reply with yiaddr := yiaddr } leaseTimeSec hsome
    rw [hsame]
    exact h.type

/-- Whatever is built is a reply to the packet, and goes the way its relay field
says. -/
theorem built_repliesTo {type : UInt8} (h : built s env packet type = some reply) :
    RepliesTo packet reply ∧ reply.gatewayNip = packet.gatewayNip := by
  unfold built at h
  split at h
  · cases h
  split at h
  · split at h
    · cases h
      exact ⟨(repliesTo_initPacket _ _ (.inl rfl)).leaseOptions _ _ _ (by simp [initPacket]), rfl⟩
    · cases h
  split at h
  · split at h
    · cases h
    · split at h
      · cases h
        refine ⟨?_, rfl⟩
        exact (repliesTo_initPacket _ _ (.inr (.inl rfl))).leaseOptions _ _ _
          (by simp [initPacket])
      · cases h
        exact ⟨repliesTo_initPacket _ _ (.inr (.inr rfl)), rfl⟩
  split at h
  · cases h
    have hack := repliesTo_initPacket s.config packet (.inr (.inl (rfl : dhcpAck = dhcpAck)))
    exact ⟨⟨hack.xid, hack.chaddr, hack.type⟩, rfl⟩
  · cases h

/-- A reply is built for every answered packet but for want of memory or of an
address to offer. -/
theorem isSome_built_iff (env : Env) {type : UInt8} (hanswered : Answered s packet type) :
    (built s env packet type).isSome ↔
      env.memAlloc = true ∧ (type = dhcpDiscover → Offers s env packet) := by
  have hne : dhcpRequest ≠ dhcpDiscover ∧ dhcpInform ≠ dhcpDiscover ∧
      dhcpInform ≠ dhcpRequest := by decide
  obtain ⟨hrd, hid, hir⟩ := hne
  unfold built
  rcases hanswered with rfl | rfl | ⟨rfl, hrequest⟩
  · by_cases hmem : env.memAlloc = false <;> by_cases hoffers : Offers s env packet <;>
      simp [hmem, hoffers]
  · by_cases hmem : env.memAlloc = false <;> simp [hmem, hid, hir]
  · by_cases hmem : env.memAlloc = false <;> simp [hmem, hrd, hrequest]
    split <;> rfl

/-! ### What the senders leave -/

/-- A sender puts the reply in the static packet, unless it is for a relay: that is
sent to the relay, or is lost. -/
def Prepared (s : Server) : Option Reply → Server → Prop
  | none, t => t.sent = s.sent ∧ t.pdhcpPkt = s.pdhcpPkt
  | some reply, t =>
    if reply.gatewayNip = 0 then t.sent = s.sent ∧ t.pdhcpPkt = some reply
    else t.pdhcpPkt = s.pdhcpPkt ∧
      ∃ relayed, t.sent = s.sent ++ relayed ∧ ∀ datagram ∈ relayed, datagram.packet = some reply

theorem prepared_direct (hgateway : reply.gatewayNip = 0) :
    Prepared s (some reply) t ↔ t.sent = s.sent ∧ t.pdhcpPkt = some reply := by
  simp only [Prepared, hgateway, if_true]

theorem prepared_relayed (hgateway : reply.gatewayNip ≠ 0) :
    Prepared s (some reply) t ↔ t.pdhcpPkt = s.pdhcpPkt ∧
      ∃ relayed, t.sent = s.sent ++ relayed ∧
        ∀ datagram ∈ relayed, datagram.packet = some reply := by
  simp only [Prepared, hgateway, if_false]

theorem Prepared.sent {built : Option Reply} (h : Prepared s built t) :
    ∃ relayed, t.sent = s.sent ++ relayed := by
  cases built with
  | none => exact ⟨[], h.1.trans (List.append_nil _).symm⟩
  | some reply =>
    by_cases hgateway : reply.gatewayNip = 0
    · exact ⟨[], ((prepared_direct hgateway).mp h).1.trans (List.append_nil _).symm⟩
    · obtain ⟨-, relayed, hrelayed, -⟩ := (prepared_relayed hgateway).mp h
      exact ⟨relayed, hrelayed⟩

theorem prepared_sendPacket (s : Server) (env : Env) (reply : Reply) (force : Bool) :
    Prepared s (some reply) (sendPacket s env reply force) := by
  by_cases hgateway : reply.gatewayNip = 0
  · simp [Prepared, sendPacket, sendPacketToClient, hgateway]
  · by_cases hsocket : env.relaySocket = true
    · simp [Prepared, sendPacket, sendPacketToRelay, hgateway, hsocket]
    · simp [Prepared, sendPacket, sendPacketToRelay, hgateway, hsocket]

theorem prepared_none (s : Server) : Prepared s none s := ⟨rfl, rfl⟩

/-- The lease table has no part in it. -/
theorem prepared_leases {built : Option Reply} {leases : List DynLease}
    (h : Prepared { s with gLeases := leases } built t) : Prepared s built t := h

theorem addLease_snd_eq_none_iff (leases : List DynLease) (env : LeaseEnv) (packet : DhcpPacket)
    (yiaddr leasetime : UInt32) (hostname : Option Nat) :
    (addLease leases env packet yiaddr leasetime hostname).2 = none ↔
      ¬ ∃ lease ∈ clearLeases leases packet.mac yiaddr, lease.expires < env.nowSearch := by
  have hfound := isSome_oldestExpiredFrom (clearLeases leases packet.mac yiaddr) 0 env.nowSearch
    none
  simp only [Option.isSome_none, Bool.false_eq_true, false_or] at hfound
  rw [← hfound]
  simp only [addLease, oldestExpiredLease]
  split
  · rename_i h
    simp [h]
  · rename_i h
    simp [h]

/-- An address from the pool is offered if it can be noted in the table. -/
theorem prepared_offerPool (env : Env) (hstatic : staticNip s packet = 0) :
    Prepared s (if Offers s env packet then some (builtOffer s env packet) else none)
      (if offerYiaddr s env packet = 0 then s
      else
        let added := addLease s.gLeases env.toLeaseEnv packet (offerYiaddr s env packet)
          s.config.offerTime (udhcpGetOption packet dhcpHostName)
        if added.2 = none then { s with gLeases := added.1 }
        else sendPacket { s with gLeases := added.1 } env (builtOffer s env packet) false) := by
  by_cases hyiaddr : offerYiaddr s env packet = 0
  · have hnone : ¬ Offers s env packet := by
      rintro (h | ⟨h, -⟩)
      · exact h hstatic
      · exact h hyiaddr
    rw [if_neg hnone, if_pos hyiaddr]
    exact prepared_none s
  · have hadded := addLease_snd_eq_none_iff s.gLeases env.toLeaseEnv packet
      (offerYiaddr s env packet) s.config.offerTime (udhcpGetOption packet dhcpHostName)
    have hoffers : Offers s env packet ↔ ∃ lease ∈ clearLeases s.gLeases packet.mac
        (offerYiaddr s env packet), lease.expires < env.nowSearch := by
      simp only [Offers, hstatic, hyiaddr, ne_eq, not_true_eq_false, not_false_eq_true, true_and,
        false_or]
    rw [if_neg hyiaddr]
    by_cases hfound : Offers s env packet
    · rw [if_pos hfound, if_neg (hadded.not.mpr (not_not.mpr (hoffers.mp hfound)))]
      exact prepared_leases (prepared_sendPacket _ env _ false)
    · rw [if_neg hfound, if_pos (hadded.mpr (hoffers.not.mp hfound))]
      exact prepared_none s

theorem prepared_sendOffer (s : Server) (env : Env) (packet : DhcpPacket) :
    Prepared s (built s env packet dhcpDiscover) (sendOffer s env packet) := by
  unfold built sendOffer
  cases hmem : env.memAlloc with
  | false => exact prepared_none s
  | true =>
    simp only [Bool.not_true, Bool.false_eq_true, Bool.true_eq_false, if_false, if_true]
    by_cases hstatic : staticNip s packet = 0
    · rw [if_neg (not_not.mpr hstatic)]
      have hreply : builtOffer s env packet = addLeaseOptions s.config
          { initPacket s.config packet dhcpOffer with yiaddr := offerYiaddr s env packet }
          (selectLeaseTime s.config packet) := by
        simp only [builtOffer, offeredNip, hstatic, ne_eq, not_true_eq_false, if_false]
      have hprepared := prepared_offerPool env hstatic
      rw [hreply] at hprepared ⊢
      exact hprepared
    · have hreply : builtOffer s env packet = addLeaseOptions s.config
          { initPacket s.config packet dhcpOffer with yiaddr := staticNip s packet }
          (selectLeaseTime s.config packet) := by
        simp only [builtOffer, offeredNip, hstatic, ne_eq, not_false_eq_true, if_true]
      rw [if_pos hstatic, if_pos (show Offers s env packet from .inl hstatic), hreply]
      exact prepared_sendPacket s env _ false

theorem prepared_sendAck (s : Server) (env : Env) (packet : DhcpPacket) (yiaddr : UInt32)
    (hmem : env.memAlloc = true) :
    Prepared s (some (builtAck s packet yiaddr)) (sendAck s env packet yiaddr) := by
  unfold sendAck
  rw [hmem]
  exact prepared_sendPacket s env (builtAck s packet yiaddr) false

theorem prepared_sendInform (s : Server) (env : Env) (packet : DhcpPacket) :
    Prepared s (built s env packet dhcpInform) (sendInform s env packet) := by
  unfold built sendInform
  cases hmem : env.memAlloc with
  | false => exact prepared_none s
  | true => exact prepared_sendPacket s env _ false

/-- What a request that is answered leads to. -/
theorem prepared_onRequest (h : ¬ Unanswered s packet) :
    ∃ t, Prepared s (built s env packet dhcpRequest) t ∧ onRequest s env packet = safeWrite t := by
  have hanswered : ¬ (requestedIp packet = none ∧ requestedNip packet = 0) ∧
      ((findLease s packet).nip s.gLeases ≠ some (requestedNip packet) →
        (udhcpGetOption packet dhcpServerId).isSome ∨ (requestedIp packet).isSome) := by
    unfold Unanswered at h
    unfold requestedNip
    cases hrequested : requestedIp packet with
    | some nip => simp
    | none =>
      simp only [hrequested, true_and, not_or, not_and] at h
      simp only [Option.getD_none, true_and, Option.isSome_none, Bool.false_eq_true, or_false]
      exact ⟨h.1, fun hlease => Option.isSome_iff_ne_none.mpr (h.2 hlease)⟩
  unfold onRequest built
  simp only [show (requestedIp packet).getD packet.ciaddr = requestedNip packet from rfl,
    if_neg hanswered.1, if_neg h, show dhcpRequest ≠ dhcpDiscover by decide, if_false, if_true]
  by_cases hlease : (findLease s packet).nip s.gLeases = some (requestedNip packet)
  · rw [if_pos hlease, if_pos hlease]
    refine ⟨_, ?_, rfl⟩
    cases hmem : env.memAlloc with
    | false =>
      simp only [sendAck, hmem, Bool.not_false, if_true]
      exact prepared_none s
    | true => exact prepared_sendAck s env packet (requestedNip packet) hmem
  · rw [if_neg hlease, if_neg hlease, if_pos (hanswered.2 hlease)]
    refine ⟨_, ?_, rfl⟩
    unfold sendNak
    cases hmem : env.memAlloc with
    | false => exact prepared_none s
    | true => exact prepared_sendPacket s env _ true

theorem onRequest_unanswered (h : Unanswered s packet) : onRequest s env packet = s := by
  obtain ⟨hrequested, hciaddr⟩ := h
  unfold onRequest
  simp only [hrequested, Option.getD_none, true_and, Option.isSome_none, Bool.false_eq_true,
    or_false]
  rcases hciaddr with hzero | ⟨hlease, hserver⟩
  · rw [if_pos hzero]
  · rw [if_neg hlease, hserver]
    exact ite_self s

theorem modifyLease_if_sent (s : Server) (matching : Bool) (lease : Lease)
    (change : DynLease → DynLease) :
    (if matching then modifyLease s lease change else s).sent = s.sent ∧
      (if matching then modifyLease s lease change else s).pdhcpPkt = s.pdhcpPkt := by
  cases matching with
  | false => exact ⟨rfl, rfl⟩
  | true => cases lease <;> exact ⟨rfl, rfl⟩

/-- An answered message ends in `safe_write` after its sender, any other one sends
nothing. -/
theorem handlePacket_cases (s : Server) (env : Env) {state : Nat}
    (hstate : udhcpGetOption packet dhcpMessageType = some state) :
    (Answered s packet (packet state) ∧ ∃ t, Prepared s (built s env packet (packet state)) t ∧
      handlePacket s env packet = safeWrite t) ∨
    (¬ Answered s packet (packet state) ∧ (handlePacket s env packet).sent = s.sent ∧
      (handlePacket s env packet).pdhcpPkt = s.pdhcpPkt) := by
  unfold handlePacket
  simp only [hstate]
  by_cases hdiscover : packet state = dhcpDiscover
  · rw [if_pos hdiscover, hdiscover]
    exact .inl ⟨.inl rfl, _, prepared_sendOffer s env packet, rfl⟩
  by_cases hinform : packet state = dhcpInform
  · rw [hinform]
    exact .inl ⟨.inr (.inl rfl), _, prepared_sendInform s env packet, rfl⟩
  rw [if_neg hdiscover]
  by_cases hrequest : packet state = dhcpRequest
  · rw [if_pos hrequest]
    by_cases hunanswered : Unanswered s packet
    · rw [onRequest_unanswered hunanswered]
      exact .inr ⟨by simp [Answered, hdiscover, hinform, hunanswered], rfl, rfl⟩
    · rw [hrequest]
      exact .inl ⟨.inr (.inr ⟨rfl, hunanswered⟩), prepared_onRequest hunanswered⟩
  · refine .inr ⟨by simp [Answered, hdiscover, hinform, hrequest], ?_⟩
    rw [if_neg hrequest, if_neg hinform]
    split
    · exact modifyLease_if_sent _ _ _ _
    split
    · exact modifyLease_if_sent _ _ _ _
    · exact ⟨rfl, rfl⟩

/-! ### Runs -/

/-- The server has read a datagram and its sender. -/
def atSender (s : Server) (env : Env) (datagram : Option (List UInt8)) : Server :=
  { s with destSin := if datagram.isSome then env.sender else s.destSin }

theorem receive_none (s : Server) {datagram : Option (List UInt8)}
    (hrecv : udhcpRecvKernelPacket env.heap datagram = none) :
    receive s env datagram = atSender s env datagram := by
  simp only [receive, hrecv, atSender]

theorem receive_some (s : Server) {datagram : Option (List UInt8)}
    (hrecv : udhcpRecvKernelPacket env.heap datagram = some packet) :
    receive s env datagram = handlePacket (atSender s env datagram) env packet := by
  simp only [receive, hrecv, atSender]

/-- A reply that waits in the static packet is not for a relay. -/
def Direct (s : Server) : Prop := ∀ reply, s.pdhcpPkt = some reply → reply.gatewayNip = 0

theorem Prepared.direct {built : Option Reply} (h : Prepared s built t) (hdirect : Direct s) :
    Direct t := by
  unfold Direct at *
  cases built with
  | none => rwa [h.2]
  | some reply =>
    by_cases hgateway : reply.gatewayNip = 0
    · rw [((prepared_direct hgateway).mp h).2]
      intro reply' hreply'
      cases hreply'
      exact hgateway
    · rwa [((prepared_relayed hgateway).mp h).1]

theorem direct_handlePacket (hdirect : Direct s) (env : Env) (packet : DhcpPacket) :
    Direct (handlePacket s env packet) := by
  cases hstate : udhcpGetOption packet dhcpMessageType with
  | none =>
    simp only [handlePacket, hstate]
    exact hdirect
  | some state =>
    rcases handlePacket_cases s env hstate with ⟨-, t, hprepared, heq⟩ | ⟨-, -, hpkt⟩
    · rw [heq]
      exact hprepared.direct hdirect
    · unfold Direct
      rwa [hpkt]

theorem direct_step (hdirect : Direct s) {event : Event} (hstep : step s event = some t) :
    Direct t := by
  cases event with
  | receive env datagram =>
    simp only [step] at hstep
    split at hstep
    · cases hstep
    · cases hstep
      cases hrecv : udhcpRecvKernelPacket env.heap datagram with
      | none =>
        rw [receive_none s hrecv]
        exact hdirect
      | some packet =>
        rw [receive_some s hrecv]
        exact direct_handlePacket (s := atSender s env datagram) hdirect env packet
  | clearleaseBymac mac =>
    simp only [step] at hstep
    split at hstep
    · cases hstep
    · cases hstep
      unfold clearleaseBymac
      split <;> exact hdirect

theorem sentSince_of_eq {s t : Server} {datagrams : List Datagram}
    (h : t.sent = s.sent ++ datagrams) : sentSince s t = datagrams := by
  unfold sentSince
  rw [h, List.drop_left]

theorem onlyReply_nil (packet : DhcpPacket) (built : Option Reply) :
    OnlyReply packet built [] := by
  refine ⟨Nat.zero_le _, ?_⟩
  intro datagram hmem
  cases hmem

/-- What `safe_write` sends is the reply built exactly if there is one and it is
not for a relay. -/
theorem onlyReply_safeWrite_iff {built : Option Reply} (hdirect : Direct s)
    (hbuilt : ∀ reply, built = some reply → RepliesTo packet reply)
    (hprepared : Prepared s built t) :
    OnlyReply packet built (sentSince s (safeWrite t)) ↔
      ∃ reply, built = some reply ∧ reply.gatewayNip = 0 := by
  cases built with
  | none =>
    have hsent : sentSince s (safeWrite t) = [⟨t.destSin, t.pdhcpPkt, t.dhcpPktLen⟩] :=
      sentSince_of_eq (congrArg (· ++ _) hprepared.1)
    rw [hsent]
    constructor
    · rintro ⟨-, honly⟩
      obtain ⟨reply, hreply, -⟩ := honly _ (List.mem_singleton_self _)
      exact ⟨reply, hreply, by cases hreply⟩
    · rintro ⟨reply, hreply, -⟩
      cases hreply
  | some reply =>
    by_cases hgateway : reply.gatewayNip = 0
    · obtain ⟨hkept, hpkt⟩ := (prepared_direct hgateway).mp hprepared
      have hsent : sentSince s (safeWrite t) = [⟨t.destSin, t.pdhcpPkt, t.dhcpPktLen⟩] :=
        sentSince_of_eq (congrArg (· ++ _) hkept)
      refine iff_of_true ?_ ⟨reply, rfl, hgateway⟩
      rw [hsent]
      refine ⟨Nat.le_refl 1, ?_⟩
      intro datagram hmem
      cases List.mem_singleton.mp hmem
      exact ⟨reply, rfl, hpkt, hbuilt reply rfl⟩
    · obtain ⟨hpkt, relayed, hrelayed, -⟩ := (prepared_relayed hgateway).mp hprepared
      have hsent : sentSince s (safeWrite t) =
          relayed ++ [⟨t.destSin, t.pdhcpPkt, t.dhcpPktLen⟩] :=
        sentSince_of_eq (by rw [← List.append_assoc, ← hrelayed]; rfl)
      refine iff_of_false ?_ ?_
      · rw [hsent]
        rintro ⟨-, honly⟩
        obtain ⟨reply', hreply', hpacket, -⟩ := honly _ (List.mem_append_right _
          (List.mem_singleton_self _))
        -- The packet that waits is an earlier one, which was for no relay.
        cases hreply'
        exact hgateway (hdirect reply (hpkt.symm.trans hpacket))
      · rintro ⟨reply', hreply', hzero⟩
        cases hreply'
        exact hgateway hzero

/-- What an answered packet gets: the reply built for it, or the one that waits. -/
theorem sent_of_answered (s : Server) (env : Env) {datagram : Option (List UInt8)} {state : Nat}
    (hrecv : udhcpRecvKernelPacket env.heap datagram = some packet)
    (hstate : udhcpGetOption packet dhcpMessageType = some state)
    (hanswered : Answered s packet (packet state)) :
    ∃ sent ∈ sentSince s (receive s env datagram),
      sent.packet = (receive s env datagram).pdhcpPkt ∧
      (built s env packet (packet state) = none → sent.packet = s.pdhcpPkt) ∧
      ∀ reply, built s env packet (packet state) = some reply → reply.gatewayNip = 0 →
        sent.packet = some reply := by
  rcases handlePacket_cases (atSender s env datagram) env hstate with
    ⟨-, t, hprepared, heq⟩ | ⟨hnot, -⟩
  · rw [receive_some s hrecv, heq]
    refine ⟨⟨t.destSin, t.pdhcpPkt, t.dhcpPktLen⟩, ?_, rfl, ?_, ?_⟩
    · obtain ⟨relayed, hrelayed⟩ := hprepared.sent
      unfold sentSince safeWrite
      rw [hrelayed, List.append_assoc]
      unfold atSender
      rw [List.drop_left]
      exact List.mem_append_right _ (List.mem_singleton_self _)
    · intro hnone
      have h : Prepared (atSender s env datagram) none t := hnone ▸ hprepared
      exact h.2
    · intro reply hreply hgateway
      have h : Prepared (atSender s env datagram) (some reply) t := hreply ▸ hprepared
      exact ((prepared_direct hgateway).mp h).2
  · exact absurd hanswered hnot

theorem exists_built_direct_iff {type : UInt8} (hanswered : Answered s packet type) :
    (∃ reply, built s env packet type = some reply ∧ reply.gatewayNip = 0) ↔
      env.memAlloc = true ∧ packet.gatewayNip = 0 ∧
        (type = dhcpDiscover → Offers s env packet) := by
  have hsome := isSome_built_iff env hanswered
  constructor
  · rintro ⟨reply, hreply, hgateway⟩
    rw [hreply] at hsome
    obtain ⟨hmem, hoffers⟩ := hsome.mp rfl
    exact ⟨hmem, (built_repliesTo hreply).2.symm.trans hgateway, hoffers⟩
  · rintro ⟨hmem, hgateway, hoffers⟩
    obtain ⟨reply, hreply⟩ := Option.isSome_iff_exists.mp (hsome.mpr ⟨hmem, hoffers⟩)
    exact ⟨reply, hreply, (built_repliesTo hreply).2.trans hgateway⟩

theorem ownReplies_iff_replies (hdirect : Direct s) (event : Event) :
    OwnReplies s event ↔ Replies s event := by
  cases event with
  | clearleaseBymac mac =>
    refine iff_of_true ?_ trivial
    refine sentSince_of_eq ?_
    unfold clearleaseBymac
    split <;> exact (List.append_nil _).symm
  | receive env datagram =>
    simp only [OwnReplies, Replies]
    cases hrecv : udhcpRecvKernelPacket env.heap datagram with
    | none =>
      rw [receive_none s hrecv]
      refine iff_of_true (sentSince_of_eq (List.append_nil _).symm) ?_
      intro packet hpacket
      cases hpacket
    | some packet =>
      rw [receive_some s hrecv]
      simp only [Option.some.injEq, forall_eq', builtFor]
      cases hstate : udhcpGetOption packet dhcpMessageType with
      | none =>
        have hsent : sentSince s (handlePacket (atSender s env datagram) env packet) = [] := by
          simp only [handlePacket, hstate]
          exact sentSince_of_eq (List.append_nil _).symm
        rw [hsent]
        refine iff_of_true (onlyReply_nil packet _) ?_
        intro state hnone
        cases hnone
      | some state =>
        simp only [Option.bind_some, Option.some.injEq, forall_eq']
        rcases handlePacket_cases (atSender s env datagram) env hstate with
          ⟨hanswered, t, hprepared, heq⟩ | ⟨hnot, hsent, -⟩
        · rw [heq]
          have hiff := onlyReply_safeWrite_iff (s := atSender s env datagram) hdirect
            (fun reply hreply => (built_repliesTo hreply).1) hprepared
          refine (hiff.trans (exists_built_direct_iff hanswered)).trans ?_
          exact ⟨fun h _ => h, fun h => h hanswered⟩
        · refine iff_of_true ?_ fun hanswered => absurd hanswered hnot
          have hnil : sentSince s (handlePacket (atSender s env datagram) env packet) = [] :=
            sentSince_of_eq (hsent.trans (List.append_nil _).symm)
          rw [hnil]
          exact onlyReply_nil packet _

/-- A datagram that a server with replies of its own sends is the reply to the packet. -/
theorem Replies.built_of_sent (hdirect : Direct s) {env : Env} {datagram : Option (List UInt8)}
    (hreplies : Replies s (.receive env datagram)) {sent : Datagram} {reply : Reply}
    (hsent : sent ∈ sentSince s (receive s env datagram)) (hreply : sent.packet = some reply) :
    ∃ packet state, udhcpRecvKernelPacket env.heap datagram = some packet ∧
      udhcpGetOption packet dhcpMessageType = some state ∧
      built s env packet (packet state) = some reply ∧ RepliesTo packet reply := by
  have hown := (ownReplies_iff_replies hdirect _).mpr hreplies
  unfold OwnReplies at hown
  cases hrecv : udhcpRecvKernelPacket env.heap datagram with
  | none =>
    simp only [hrecv] at hown
    rw [hown] at hsent
    cases hsent
  | some packet =>
    simp only [hrecv] at hown
    obtain ⟨reply', hbuilt, hpacket, hto⟩ := hown.2 sent hsent
    cases hreply.symm.trans hpacket
    obtain ⟨state, hstate, hbuilt⟩ := Option.bind_eq_some_iff.mp hbuilt
    exact ⟨packet, state, rfl, hstate, hbuilt, hto⟩

/-- A run sends only the replies to its packets exactly if every answered packet of
it comes from no relay and finds memory, and an address if it asks for one. -/
theorem ownReplies_iff (config : ServerConfig) (events : List Event) (s : Server) :
    Run step OwnReplies (udhcpdStart config) events s ↔
      Run step Replies (udhcpdStart config) events s := by
  refine Run.allowed_iff_of_invariant (I := Direct) ?_ ?_ ?_
  · intro reply hreply
    cases hreply
  · exact fun s event t hdirect hstep => direct_step hdirect hstep
  · exact fun s event t hdirect _ => ownReplies_iff_replies hdirect event

/-! ### A DISCOVER there is no memory for -/

def noMemory : Env := { someEnv with memAlloc := false }

theorem stale_sent_without_memory :
    ¬ ∀ events s, Run step anyStep (udhcpdStart someConfig) events s →
      ∀ event, OwnReplies s event := by
  intro hown
  have hreplies := (ownReplies_iff_replies (s := udhcpdStart someConfig) (fun _ h => by cases h)
    (.receive noMemory (some shortDiscover))).mp (hown [] _ .nil _)
  have hdiscover : shortPacket 242 = dhcpDiscover := by decide
  obtain ⟨hmem, -⟩ := hreplies shortPacket shortDiscover_recv 242 shortPacket_type
    (.inl hdiscover)
  cases hmem

end Sv6x66.Udhcp.OwnReply
