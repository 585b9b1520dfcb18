import Sv6x66.Udhcp.LeaseTable
import Sv6x66.Udhcp.OwnReply

/-! Whether the DHCP server gives an address away that somebody has, or that was
declined a short time ago. The entry of a declined address belongs to no station,
and the search takes it for one whose station has left. -/
namespace Sv6x66.Udhcp.LeaseExclusive
open Sv6x66.Lib
open Sv6x66.Udhcp.Packet
open Sv6x66.Udhcp.Leases
open Sv6x66.Udhcp.Dhcpd
open Sv6x66.Udhcp.LeaseTable
open Sv6x66.Udhcp.OwnReply

/-- The server with the second it has reached, and the addresses that clients
declined with the second they did. -/
structure Watched where
  server : Server
  clock : UInt32
  declinedAt : List (UInt32 × UInt32)

/-- The address `packet` declines: the client has to have it. -/
def declineOf (s : Server) (env : Env) (packet : DhcpPacket) : Option (UInt32 × UInt32) :=
  (udhcpGetOption packet dhcpMessageType).bind fun state =>
    if packet state = dhcpDecline ∧ declineMatches s packet = true then
      (requestedIp packet).map fun nip => (nip, env.nowSet)
    else none

def watch (w : Watched) (event : Event) : Option Watched :=
  (step w.server event).map fun t =>
    match event with
    | .receive env datagram =>
      { server := t
        clock := env.nowSet
        declinedAt := ((udhcpRecvKernelPacket env.heap datagram).bind
          (declineOf w.server env)).toList ++ w.declinedAt }
    | .clearleaseBymac _ => { w with server := t }

def watchStart (config : ServerConfig) : Watched := ⟨udhcpdStart config, 0, []⟩

/-- Every client has a MAC, and the clock goes on and does not wrap, nor does the end
of a time that starts now. -/
def Timely (w : Watched) : Event → Prop
  | .receive env datagram =>
    1 ≤ env.nowCheck ∧ w.clock ≤ env.nowCheck ∧ env.nowCheck ≤ env.nowSearch ∧
      env.nowSearch ≤ env.nowSet ∧
      env.nowSet.toNat + w.server.config.declineTime.toNat < 2 ^ 32 ∧
      ∀ packet, udhcpRecvKernelPacket env.heap datagram = some packet → packet.mac ≠ noMac
  | .clearleaseBymac mac => mac ≠ noMac

/-- The reply gives `nip` to its client. -/
def Grants (reply : Reply) (nip : UInt32) : Prop :=
  (messageType reply = some [dhcpOffer] ∨ messageType reply = some [dhcpAck]) ∧
    reply.yiaddr = nip ∧ nip ≠ 0

def client (reply : Reply) : Mac := Vector.ofFn fun i => reply.chaddr[i]

/-- Nobody has the address, and it is not withheld. -/
def Available (w : Watched) (env : Env) (mac : Mac) (nip : UInt32) : Prop :=
  (∀ entry ∈ w.server.gLeases, entry.leaseNip = nip → entry.leaseMac ≠ mac →
    env.nowCheck ≤ entry.expires → env.offline entry.leaseMac = true) ∧
  ∀ since, (nip, since) ∈ w.declinedAt →
    since.toNat + w.server.config.declineTime.toNat ≤ env.nowCheck.toNat

/-- What is promised of one turn. -/
def GrantsAvailable (w : Watched) : Event → Prop
  | .receive env datagram =>
    ∀ sent ∈ sentSince w.server (receive w.server env datagram), ∀ reply,
      sent.packet = some reply → ∀ nip, Grants reply nip → Available w env (client reply) nip
  | .clearleaseBymac _ => True

/-- The server sends replies of its own only, and a DISCOVER it serves from an
exhausted pool does not get the entry of an address withheld. -/
def Withholds (w : Watched) (event : Event) : Prop :=
  Replies w.server event ∧
    match event with
    | .receive env datagram =>
      ∀ packet, udhcpRecvKernelPacket env.heap datagram = some packet →
        ∀ state, udhcpGetOption packet dhcpMessageType = some state →
          packet state = dhcpDiscover → Searches w.server env packet →
            Exhausted w.server.config w.server.gLeases →
              ∀ lease, oldestOffline w.server.config w.server.gLeases env.toLeaseEnv = some lease →
                lease.leaseMac = noMac → isExpiredLease lease env.toLeaseEnv = true
    | .clearleaseBymac _ => True

variable {w w' : Watched} {s : Server} {env : Env} {packet : DhcpPacket} {reply : Reply}
  {entry : DynLease} {nip : UInt32}

/-! ### What a reply gives -/

theorem client_eq (h : RepliesTo packet reply) : client reply = packet.mac := by
  unfold client
  rw [h.chaddr]
  ext i hi
  simp [DhcpPacket.chaddr, DhcpPacket.mac]

/-- A reply gives the address offered, or the one of the client's entry. -/
theorem built_grants (hstatic : s.config.staticLeases = []) {type : UInt8}
    (hbuilt : built s env packet type = some reply) (hgrants : Grants reply nip) :
    (type = dhcpDiscover ∧ nip = offerYiaddr s env packet) ∨
      ∃ own ∈ s.gLeases, own.leaseMac = packet.mac ∧ own.leaseNip = nip := by
  obtain ⟨htype, rfl, hzero⟩ := hgrants
  obtain ⟨hnone, hlease⟩ := findLease_eq hstatic packet
  unfold built at hbuilt
  split_ifs at hbuilt with hmem hdiscover hoffers hrequest hunanswered hown hinform
  · cases hbuilt
    refine .inl ⟨hdiscover, ?_⟩
    exact if_neg (not_not.mpr hnone)
  · cases hbuilt
    right
    rw [hlease] at hown
    cases hfound : findLeaseByMac s.gLeases packet.mac with
    | none =>
      rw [hfound] at hown
      cases hown
    | some i =>
      rw [hfound] at hown
      obtain ⟨own, hi, hnip⟩ := Option.map_eq_some_iff.mp hown
      obtain ⟨own', hi', hmac⟩ := findLeaseByMac_some hfound
      cases hi.symm.trans hi'
      exact ⟨own, List.mem_of_getElem? hi, hmac, hnip⟩
  · cases hbuilt
    have hnak : some [dhcpNak] ≠ some [dhcpOffer] ∧ some [dhcpNak] ≠ some [dhcpAck] := by decide
    rcases htype with h | h
    · exact absurd h hnak.1
    · exact absurd h hnak.2
  · cases hbuilt
    exact absurd rfl hzero

/-! ### The invariant -/

/-- The address is in the table and is withheld from every client. -/
def Withheld (w : Watched) (nip since : UInt32) (entry : DynLease) : Prop :=
  entry ∈ w.server.gLeases ∧ entry.leaseNip = nip ∧ nip ≠ 0 ∧ entry.leaseMac = noMac ∧
    entry.expires.toNat = since.toNat + w.server.config.declineTime.toNat

/-- No address is reserved for a client for good, and the table is in order. -/
structure Ordered (s : Server) : Prop where
  static : s.config.staticLeases = []
  exclusive : Exclusive s.gLeases

structure Reserving (w : Watched) : Prop extends Ordered w.server where
  direct : Direct w.server
  withheld : ∀ nip since, (nip, since) ∈ w.declinedAt →
    w.clock.toNat ≤ since.toNat + w.server.config.declineTime.toNat →
    ∃ entry, Withheld w nip since entry

/-- An entry of no client that has not expired is not offered. -/
theorem offerYiaddr_ne (hreserving : Reserving w) {env : Env} {packet : DhcpPacket}
    (hmem : entry ∈ w.server.gLeases) (hzero : entry.leaseNip ≠ 0)
    (hnone : entry.leaseMac = noMac) (hmac : packet.mac ≠ noMac)
    (hunexpired : env.nowCheck ≤ entry.expires)
    (hfallback : Searches w.server env packet →
      Exhausted w.server.config w.server.gLeases →
        ∀ lease, oldestOffline w.server.config w.server.gLeases env.toLeaseEnv = some lease →
          lease.leaseMac = noMac → isExpiredLease lease env.toLeaseEnv = true) :
    entry.leaseNip ≠ offerYiaddr w.server env packet := by
  intro hnip
  have hkept : ¬ isExpiredLease entry env.toLeaseEnv = true := by
    intro hexpired
    exact UInt32.lt_irrefl _ (UInt32.lt_of_lt_of_le (of_decide_eq_true hexpired) hunexpired)
  rcases holder_of_offerYiaddr hreserving.static hreserving.exclusive hmem hnip hzero with
    hown | hexpired | ⟨hsearches, hexhausted, hoffline⟩
  · exact hmac (hown.symm.trans hnone)
  · exact hkept hexpired
  · exact hkept (hfallback hsearches hexhausted entry hoffline hnone)

theorem LeasesTo.ofSender {type : UInt8} {leases : List DynLease}
    {datagram : Option (List UInt8)} (h : LeasesTo (atSender s env datagram) env packet type leases) :
    LeasesTo s env packet type leases := by
  cases h with
  | same h => exact .same h
  | offer htype hyiaddr => exact .offer htype hyiaddr
  | ack htype hfound hown => exact .ack htype hfound hown
  | decline htype hmatches hfound hown hrequested =>
    exact .decline htype hmatches hfound hown hrequested
  | release htype hfound => exact .release htype hfound

/-- A DECLINE that counts leaves the address with an entry of its own. -/
theorem withheld_new {type : UInt8} {leases : List DynLease}
    (h : LeasesTo s env packet type leases) (hexclusive : Exclusive s.gLeases)
    (hmac : packet.mac ≠ noMac) (htype : type = dhcpDecline)
    (hmatches : declineMatches s packet = true) (hnip : requestedIp packet = some nip) :
    ∃ entry ∈ leases, entry.leaseNip = nip ∧ nip ≠ 0 ∧ entry.leaseMac = noMac ∧
      entry.expires = env.nowSet + s.config.declineTime := by
  cases h with
  | same h => exact absurd ⟨htype, hmatches⟩ h
  | offer hoffer => exact absurd (hoffer.symm.trans htype) (by decide)
  | ack hrequest => exact absurd (hrequest.symm.trans htype) (by decide)
  | release hrelease => exact absurd (hrelease.symm.trans htype) (by decide)
  | @decline i own _ _ hfound hown hrequested =>
    cases hrequested.symm.trans hnip
    obtain ⟨own', hown', hownMac⟩ := findLeaseByMac_some hfound
    cases hown.symm.trans hown'
    refine ⟨declined s env own, ?_, rfl, ?_, rfl, rfl⟩
    · refine List.mem_iff_getElem?.mpr ⟨i, ?_⟩
      rw [List.getElem?_modify_eq, hown]
      rfl
    · exact hexclusive.addressed own (List.mem_of_getElem? hown) (hownMac ▸ hmac)

theorem declineOf_some {since : UInt32} (h : declineOf s env packet = some (nip, since)) :
    since = env.nowSet ∧ requestedIp packet = some nip ∧ declineMatches s packet = true ∧
      ∃ state, udhcpGetOption packet dhcpMessageType = some state ∧
        packet state = dhcpDecline := by
  obtain ⟨state, hstate, h⟩ := Option.bind_eq_some_iff.mp h
  split at h
  · rename_i hdecline
    obtain ⟨nip', hnip, heq⟩ := Option.map_eq_some_iff.mp h
    cases heq
    exact ⟨rfl, hnip, hdecline.2, state, hstate, hdecline.1⟩
  · cases h

/-- What a received packet leaves behind it. -/
structure TableAfter (s : Server) (env : Env) (datagram : Option (List UInt8))
    (t : Server) : Prop where
  config : t.config = s.config
  direct : Direct s → Direct t
  leases : (∃ packet state, udhcpRecvKernelPacket env.heap datagram = some packet ∧
      udhcpGetOption packet dhcpMessageType = some state ∧
      LeasesTo s env packet (packet state) t.gLeases) ∨
    t.gLeases = s.gLeases ∧ ∀ packet, udhcpRecvKernelPacket env.heap datagram = some packet →
      udhcpGetOption packet dhcpMessageType = none

theorem tableAfter_receive (hstatic : s.config.staticLeases = []) (env : Env)
    (datagram : Option (List UInt8)) : TableAfter s env datagram (receive s env datagram) := by
  cases hrecv : udhcpRecvKernelPacket env.heap datagram with
  | none =>
    rw [receive_none s hrecv]
    refine ⟨rfl, id, .inr ⟨rfl, ?_⟩⟩
    intro packet hpacket
    cases hrecv.symm.trans hpacket
  | some packet =>
    rw [receive_some s hrecv]
    refine ⟨(sameTable_handlePacket (atSender s env datagram) env packet).config, ?_, ?_⟩
    · exact fun hdirect => direct_handlePacket (s := atSender s env datagram) hdirect env packet
    · cases hstate : udhcpGetOption packet dhcpMessageType with
      | none =>
        refine .inr ⟨?_, ?_⟩
        · simp only [handlePacket, hstate]
          rfl
        · intro packet' hpacket'
          cases hrecv.symm.trans hpacket'
          exact hstate
      | some state =>
        have hleases := leasesTo_handlePacket (s := atSender s env datagram) hstatic env hstate
        exact .inl ⟨packet, state, hrecv, hstate, LeasesTo.ofSender hleases⟩

theorem step_receive {t : Server} {datagram : Option (List UInt8)}
    (h : step s (.receive env datagram) = some t) :
    t = receive s env datagram := by
  simp only [step] at h
  split at h
  · cases h
  · exact (Option.some.inj h).symm

theorem step_clearleaseBymac {t : Server} {mac : Mac}
    (h : step s (.clearleaseBymac mac) = some t) : t = clearleaseBymac s mac := by
  simp only [step] at h
  split at h
  · cases h
  · exact (Option.some.inj h).symm

/-- A withheld address stays so to the end of its time. -/
theorem withheld_kept (hreserving : Reserving w) {env : Env} {datagram : Option (List UInt8)}
    {since : UInt32} (htimely : Timely w (.receive env datagram))
    (hwithholds : Withholds w (.receive env datagram)) (hentry : Withheld w nip since entry)
    (hend : env.nowSet.toNat ≤ since.toNat + w.server.config.declineTime.toNat) :
    entry ∈ (receive w.server env datagram).gLeases := by
  obtain ⟨-, -, hcheck, hsearch, -, hmac⟩ := htimely
  obtain ⟨hmem, hnip, hzero, hnone, hexpires⟩ := hentry
  rcases (tableAfter_receive hreserving.static env datagram).leases with
    ⟨packet, state, hrecv, hstate, hleases⟩ | ⟨heq, -⟩
  · have hset : env.nowSet ≤ entry.expires := UInt32.le_iff_toNat_le.mpr (hexpires ▸ hend)
    have hunexpired := UInt32.le_trans hsearch hset
    refine hleases.mem hreserving.exclusive hmem ?_ (hnip ▸ hzero) hunexpired ?_
    · exact fun h => hmac packet hrecv (h.symm.trans hnone)
    · intro hdiscover
      exact offerYiaddr_ne hreserving hmem (hnip ▸ hzero) hnone (hmac packet hrecv)
        (UInt32.le_trans hcheck hunexpired) (hwithholds.2 packet hrecv state hstate hdiscover)
  · rw [heq]
    exact hmem

theorem Ordered.receive (h : Ordered s) (env : Env) (datagram : Option (List UInt8)) :
    Ordered (receive s env datagram) := by
  have hafter := tableAfter_receive h.static env datagram
  refine ⟨(congrArg ServerConfig.staticLeases hafter.config).trans h.static, ?_⟩
  rcases hafter.leases with ⟨packet, state, -, -, hleases⟩ | ⟨heq, -⟩
  · exact hleases.exclusive h.exclusive
  · exact heq ▸ h.exclusive

theorem Ordered.clearleaseBymac (h : Ordered s) (mac : Mac) : Ordered (clearleaseBymac s mac) := by
  unfold Dhcpd.clearleaseBymac
  split
  · refine ⟨h.static, ?_, ?_, ?_⟩
    · exact h.exclusive.nip.set _ fun hne => absurd rfl hne
    · exact h.exclusive.mac.set _ fun hne => absurd rfl hne
    · intro entry hmem hne
      rcases List.mem_or_eq_of_mem_set hmem with hmem | rfl
      · exact h.exclusive.addressed entry hmem hne
      · exact absurd rfl hne
  · exact h

theorem Ordered.step {t : Server} {event : Event} (h : Ordered s)
    (hstep : step s event = some t) : Ordered t := by
  cases event with
  | receive env datagram => exact step_receive hstep ▸ h.receive env datagram
  | clearleaseBymac mac => exact step_clearleaseBymac hstep ▸ h.clearleaseBymac mac

theorem ordered_udhcpdStart (pleaseConfig : Option PleaseConfig) (ipaddr gw subnet : UInt32) :
    Ordered (udhcpdStart (udhcpdRunConfig pleaseConfig ipaddr gw subnet)) :=
  ⟨staticLeases_udhcpdRunConfig _ _ _ _, exclusive_replicate _⟩

theorem withheld_receive (hreserving : Reserving w) {env : Env}
    {datagram : Option (List UInt8)} (htimely : Timely w (.receive env datagram))
    (hwithholds : Withholds w (.receive env datagram))
    (hstep : watch w (.receive env datagram) = some w') : Reserving w' := by
  obtain ⟨t, hnext, rfl⟩ := Option.map_eq_some_iff.mp hstep
  cases step_receive hnext
  have hafter := tableAfter_receive hreserving.static env datagram
  refine ⟨hreserving.toOrdered.receive env datagram, hafter.direct hreserving.direct, ?_⟩
  intro nip since hdeclined hend
  obtain ⟨-, hclock, hcheck, hsearch, hwrap, hmac⟩ := id htimely
  simp only [hafter.config] at hend
  rcases List.mem_append.mp hdeclined with hnew | hold
  · obtain ⟨packet, hrecv, hdecline⟩ := Option.bind_eq_some_iff.mp (Option.mem_toList.mp hnew)
    obtain ⟨rfl, hnip, hmatches, state, hstate, htype⟩ := declineOf_some hdecline
    rcases hafter.leases with ⟨packet', state', hrecv', hstate', hleases⟩ | ⟨-, hnone⟩
    · cases hrecv.symm.trans hrecv'
      cases hstate.symm.trans hstate'
      obtain ⟨entry, hmem, hentryNip, hzero, hentryMac, hexpires⟩ :=
        withheld_new hleases hreserving.exclusive (hmac packet hrecv) htype hmatches hnip
      refine ⟨entry, hmem, hentryNip, hzero, hentryMac, ?_⟩
      rw [hexpires, UInt32.toNat_add, hafter.config, Nat.mod_eq_of_lt hwrap]
    · cases (hnone packet hrecv).symm.trans hstate
  · have hle : w.clock.toNat ≤ env.nowSet.toNat := UInt32.le_iff_toNat_le.mp
      (UInt32.le_trans hclock (UInt32.le_trans hcheck hsearch))
    obtain ⟨entry, hentry⟩ := hreserving.withheld nip since hold (hle.trans hend)
    refine ⟨entry, withheld_kept hreserving htimely hwithholds hentry hend, ?_⟩
    rw [hafter.config]
    exact hentry.2

theorem withheld_clearleaseBymac (hreserving : Reserving w) {mac : Mac}
    (hmac : mac ≠ noMac) (hstep : watch w (.clearleaseBymac mac) = some w') : Reserving w' := by
  obtain ⟨t, hnext, rfl⟩ := Option.map_eq_some_iff.mp hstep
  cases step_clearleaseBymac hnext
  have hordered := hreserving.toOrdered.clearleaseBymac mac
  unfold clearleaseBymac at hordered ⊢
  cases hfound : findLeaseByMac w.server.gLeases mac with
  | none => exact hreserving
  | some i =>
    rw [hfound] at hordered
    refine ⟨hordered, hreserving.direct, ?_⟩
    intro nip since hdeclined hend
    obtain ⟨entry, hmem, hnip, hzero, hnone, hexpires⟩ :=
      hreserving.withheld nip since hdeclined hend
    refine ⟨entry, ?_, hnip, hzero, hnone, hexpires⟩
    exact mem_set_of_findLeaseByMac hmem hfound fun hsame => hmac (hsame.trans hnone)

theorem ordered_run {pleaseConfig : Option PleaseConfig} {ipaddr gw subnet : UInt32}
    {events : List Event} (hrun : Run watch Timely
      (watchStart (udhcpdRunConfig pleaseConfig ipaddr gw subnet)) events w) :
    Ordered w.server := by
  refine hrun.invariant (I := fun w => Ordered w.server) (ordered_udhcpdStart _ _ _ _) ?_
  intro w event w' hordered _ hstep
  obtain ⟨t, hnext, rfl⟩ := Option.map_eq_some_iff.mp hstep
  cases event <;> exact hordered.step hnext

theorem reserving_run {pleaseConfig : Option PleaseConfig} {ipaddr gw subnet : UInt32}
    {events : List Event}
    (hrun : Run watch (fun w event => Timely w event ∧ Withholds w event)
      (watchStart (udhcpdRunConfig pleaseConfig ipaddr gw subnet)) events w) : Reserving w := by
  refine hrun.invariant (I := Reserving) ?_ ?_
  · refine ⟨ordered_udhcpdStart _ _ _ _, ?_, ?_⟩
    · intro reply hreply
      cases hreply
    · intro nip since hdeclined
      cases hdeclined
  · intro w event w' hreserving hallowed hstep
    cases event with
    | receive env datagram => exact withheld_receive hreserving hallowed.1 hallowed.2 hstep
    | clearleaseBymac mac => exact withheld_clearleaseBymac hreserving hallowed.1 hstep

/-! ### What is given -/

/-- A lease that has not expired is the client's own, or the last resort of a DISCOVER
when the pool is exhausted. -/
theorem holder_of_grant (hreserving : Reserving w) {env : Env} {type : UInt8}
    (hbuilt : built w.server env packet type = some reply) (hgrants : Grants reply nip)
    (hmem : entry ∈ w.server.gLeases) (hnip : entry.leaseNip = nip)
    (hunexpired : env.nowCheck ≤ entry.expires) :
    entry.leaseMac = packet.mac ∨ type = dhcpDiscover ∧ Searches w.server env packet ∧
      Exhausted w.server.config w.server.gLeases ∧
      oldestOffline w.server.config w.server.gLeases env.toLeaseEnv = some entry := by
  have hzero : entry.leaseNip ≠ 0 := hnip ▸ hgrants.2.2
  have hkept : ¬ isExpiredLease entry env.toLeaseEnv = true := by
    intro hexpired
    exact UInt32.lt_irrefl _ (UInt32.lt_of_lt_of_le (of_decide_eq_true hexpired) hunexpired)
  rcases built_grants hreserving.static hbuilt hgrants with
    ⟨hdiscover, hoffer⟩ | ⟨own, hown, hownMac, hownNip⟩
  · rcases holder_of_offerYiaddr hreserving.static hreserving.exclusive hmem
      (hnip.trans hoffer) hzero with hclient | hexpired | hfallback
    · exact .inl hclient
    · exact absurd hexpired hkept
    · exact .inr ⟨hdiscover, hfallback⟩
  · left
    rw [hreserving.exclusive.nip.eq_of_mem hmem hown (hnip.trans hownNip.symm) hzero]
    exact hownMac

theorem available_of_reserving (hreserving : Reserving w) {env : Env}
    {datagram : Option (List UInt8)} (htimely : Timely w (.receive env datagram))
    (hwithholds : Withholds w (.receive env datagram)) {state : Nat}
    (hrecv : udhcpRecvKernelPacket env.heap datagram = some packet)
    (hstate : udhcpGetOption packet dhcpMessageType = some state)
    (hbuilt : built w.server env packet (packet state) = some reply)
    (hgrants : Grants reply nip) : Available w env packet.mac nip := by
  obtain ⟨-, hclock, hcheck, hsearch, -, hmac⟩ := htimely
  constructor
  · intro entry hmem hnip hother hunexpired
    rcases holder_of_grant hreserving hbuilt hgrants hmem hnip hunexpired with
      hclient | ⟨-, -, -, hoffline⟩
    · exact absurd hclient hother
    · exact (mem_of_oldestOffline hoffline).2
  · intro since hdeclined
    by_contra hlate
    have hend : env.nowCheck.toNat ≤ since.toNat + w.server.config.declineTime.toNat := by
      omega
    obtain ⟨entry, hmem, hnip, hzero, hnone, hexpires⟩ := hreserving.withheld nip since hdeclined
      ((UInt32.le_iff_toNat_le.mp hclock).trans hend)
    have hunexpired : env.nowCheck ≤ entry.expires :=
      UInt32.le_iff_toNat_le.mpr (hexpires ▸ hend)
    rcases holder_of_grant hreserving hbuilt hgrants hmem hnip hunexpired with
      hclient | ⟨hdiscover, hsearches, hexhausted, hoffline⟩
    · exact hmac packet hrecv (hclient.symm.trans hnone)
    · have hexpired := hwithholds.2 packet hrecv state hstate hdiscover hsearches hexhausted entry
        hoffline hnone
      exact UInt32.lt_irrefl _ (UInt32.lt_of_lt_of_le (of_decide_eq_true hexpired) hunexpired)

theorem grantsAvailable_of_reserving (hreserving : Reserving w) {event : Event}
    (htimely : Timely w event) (hwithholds : Withholds w event) : GrantsAvailable w event := by
  cases event with
  | clearleaseBymac mac => exact trivial
  | receive env datagram =>
    intro sent hsent reply hreply nip hgrants
    obtain ⟨packet, state, hrecv, hstate, hbuilt, hto⟩ :=
      hwithholds.1.built_of_sent hreserving.direct hsent hreply
    rw [client_eq hto]
    exact available_of_reserving hreserving htimely hwithholds hrecv hstate hbuilt hgrants

/-- No two entries ever share an address or a client, and in a run whose turns withhold
what is declined every offer and acknowledgement gives an address that is available. -/
theorem exclusive_of_withholds (pleaseConfig : Option PleaseConfig) (ipaddr gw subnet : UInt32)
    (events : List Event) (w : Watched) :
    (Run watch Timely (watchStart (udhcpdRunConfig pleaseConfig ipaddr gw subnet)) events w →
      UniqueKey DynLease.leaseNip 0 w.server.gLeases ∧
        UniqueKey DynLease.leaseMac noMac w.server.gLeases) ∧
    (Run watch (fun w event => Timely w event ∧ Withholds w event)
        (watchStart (udhcpdRunConfig pleaseConfig ipaddr gw subnet)) events w →
      ∀ event, Timely w event → Withholds w event → GrantsAvailable w event) := by
  constructor
  · intro hrun
    have hexclusive := (ordered_run hrun).exclusive
    exact ⟨hexclusive.nip, hexclusive.mac⟩
  · intro hrun event htimely hwithholds
    exact grantsAvailable_of_reserving (reserving_run hrun) htimely hwithholds

/-! ### Two stations -/

def message (station : UInt8) (options : List UInt8) : List UInt8 :=
  [1, 1, 6, 0] ++ List.replicate 24 0 ++ [2, 0, 0, 0, 0, station] ++ List.replicate 202 0 ++
    [0x63, 0x82, 0x53, 0x63] ++ options

def packetOf (bytes : List UInt8) : DhcpPacket := fun i => if i < dhcpSize then bytes.getD i 0 else 0

def discover (station : UInt8) : List UInt8 := message station [0x35, 1, 1, 0xff]

def decline (station : UInt8) : List UInt8 :=
  message station [0x35, 1, 4, 0x36, 4, 0xc0, 0xa8, 0x19, 0x01, 0x32, 4, 0xc0, 0xa8, 0x19, 0x65, 0xff]

def request : List UInt8 :=
  message 1 [0x35, 1, 3, 0x36, 4, 0xc0, 0xa8, 0x19, 0x01, 0x32, 4, 0xc0, 0xa8, 0x19, 0x65, 0xff]

/-- No station is associated. -/
def atSecond (now : UInt32) : Env where
  nowCheck := now
  nowSearch := now
  nowSet := now
  offline := fun _ => true
  heap := fun _ => 0
  sender := ⟨0, 68⟩
  memAlloc := true
  relaySocket := true

theorem mac_message (station : UInt8) (options : List UInt8) :
    (packetOf (message station options)).mac = #v[2, 0, 0, 0, 0, station] := rfl

theorem recv_packetOf {bytes : List UInt8}
    (hcookie : moveFromUnaligned32 (packetOf bytes) cookieOffset = htonl 0x63825363) :
    udhcpRecvKernelPacket (fun _ => 0) (some bytes) = some (packetOf bytes) :=
  if_neg (not_not_intro hcookie)

theorem recv_discover {station : UInt8} (hstation : station = 1 ∨ station = 2) :
    udhcpRecvKernelPacket (fun _ => 0) (some (discover station)) =
      some (packetOf (discover station)) := by
  rcases hstation with rfl | rfl
  · exact recv_packetOf (by decide)
  · exact recv_packetOf (by decide)

theorem recv_decline :
    udhcpRecvKernelPacket (fun _ => 0) (some (decline 1)) = some (packetOf (decline 1)) :=
  recv_packetOf (by decide)

theorem discover_options {station : UInt8} (hstation : station = 1 ∨ station = 2) :
    udhcpGetOption (packetOf (discover station)) dhcpMessageType = some 242 ∧
      udhcpGetOption (packetOf (discover station)) dhcpRequestedIp = none ∧
      udhcpGetOption (packetOf (discover station)) dhcpLeaseTime = none ∧
      udhcpGetOption (packetOf (discover station)) dhcpHostName = none := by
  rcases hstation with rfl | rfl
  · refine ⟨findOption_of_fuel 3 ?_, findOption_of_fuel 3 ?_, findOption_of_fuel 3 ?_,
      findOption_of_fuel 3 ?_⟩ <;> decide
  · refine ⟨findOption_of_fuel 3 ?_, findOption_of_fuel 3 ?_, findOption_of_fuel 3 ?_,
      findOption_of_fuel 3 ?_⟩ <;> decide

theorem decline_options :
    udhcpGetOption (packetOf (decline 1)) dhcpMessageType = some 242 ∧
      udhcpGetOption (packetOf (decline 1)) dhcpRequestedIp = some 251 ∧
      udhcpGetOption (packetOf (decline 1)) dhcpServerId = some 245 := by
  refine ⟨findOption_of_fuel 3 ?_, findOption_of_fuel 3 ?_, findOption_of_fuel 3 ?_⟩ <;>
    decide

theorem recv_request :
    udhcpRecvKernelPacket (fun _ => 0) (some request) = some (packetOf request) :=
  recv_packetOf (by decide)

theorem request_options :
    udhcpGetOption (packetOf request) dhcpMessageType = some 242 ∧
      udhcpGetOption (packetOf request) dhcpRequestedIp = some 251 ∧
      udhcpGetOption (packetOf request) dhcpLeaseTime = none ∧
      udhcpGetOption (packetOf request) dhcpHostName = none := by
  refine ⟨findOption_of_fuel 4 ?_, findOption_of_fuel 4 ?_, findOption_of_fuel 4 ?_,
    findOption_of_fuel 4 ?_⟩ <;> decide

def someLease (expires : UInt32) (mac : Mac) : DynLease :=
  ⟨expires, 0x6519a8c0, mac, Vector.replicate 20 0⟩

theorem nullRead_receive (env : Env) {datagram : Option (List UInt8)} {state : Nat}
    (hrecv : udhcpRecvKernelPacket env.heap datagram = some packet)
    (hstate : udhcpGetOption packet dhcpMessageType = some state) :
    (receive s env datagram).nullRead = s.nullRead := by
  rw [receive_some s hrecv]
  exact (MessageFilter.untouched_handlePacket _ _ packet hstate).2

theorem watch_receive (hnull : w.server.nullRead = false) (env : Env)
    (datagram : Option (List UInt8)) :
    watch w (.receive env datagram) = some
      { server := receive w.server env datagram
        clock := env.nowSet
        declinedAt := ((udhcpRecvKernelPacket env.heap datagram).bind
          (declineOf w.server env)).toList ++ w.declinedAt } := by
  simp only [watch, step, hnull, Bool.false_eq_true, if_false, Option.map_some]

theorem timely_atSecond {now : UInt32} {bytes : List UInt8} (hclock : w.clock ≤ now)
    (hfirst : 1 ≤ now) (hwrap : now.toNat + w.server.config.declineTime.toNat < 2 ^ 32)
    (hrecv : udhcpRecvKernelPacket (fun _ => 0) (some bytes) = some packet)
    (hmac : packet.mac ≠ noMac) : Timely w (.receive (atSecond now) (some bytes)) := by
  refine ⟨hfirst, hclock, UInt32.le_refl _, UInt32.le_refl _, hwrap, ?_⟩
  intro packet' hpacket'
  cases hrecv.symm.trans hpacket'
  exact hmac

theorem declineOf_eq_none {state : Nat}
    (hstate : udhcpGetOption packet dhcpMessageType = some state)
    (htype : packet state ≠ dhcpDecline) : declineOf s env packet = none := by
  rw [declineOf, hstate, Option.bind_some]
  exact if_neg fun h => htype h.1

/-- A message with a type is a turn of the run. -/
theorem turn_atSecond (now : UInt32) {bytes : List UInt8} {state : Nat}
    (hnull : w.server.nullRead = false) (hstatic : w.server.config.staticLeases = [])
    (hrecv : udhcpRecvKernelPacket (fun _ => 0) (some bytes) = some packet)
    (hstate : udhcpGetOption packet dhcpMessageType = some state) :
    ∃ w', watch w (.receive (atSecond now) (some bytes)) = some w' ∧
      w'.server = receive w.server (atSecond now) (some bytes) ∧
      w'.server.config = w.server.config ∧ w'.server.nullRead = false ∧ w'.clock = now ∧
      w'.declinedAt = (declineOf w.server (atSecond now) packet).toList ++ w.declinedAt := by
  have hrecv' : udhcpRecvKernelPacket (atSecond now).heap (some bytes) = some packet := hrecv
  refine ⟨_, watch_receive hnull _ _, rfl, (tableAfter_receive hstatic _ _).config,
    (nullRead_receive _ hrecv hstate).trans hnull, rfl, ?_⟩
  rw [hrecv', Option.bind_some]

theorem findLease_first {mac : Mac} {expires : UInt32} {later : List DynLease}
    (hstatic : s.config.staticLeases = []) (hleases : s.gLeases = someLease expires mac :: later)
    (hmac : packet.mac = mac) : findLease s packet = .entry 0 := by
  have hfound : findLeaseByMac s.gLeases packet.mac = some 0 := by
    rw [hleases, findLeaseByMac, List.findIdx?_cons]
    exact if_pos (decide_eq_true hmac.symm)
  rw [(findLease_eq hstatic _).2, hfound]

theorem offerYiaddr_discover {station : UInt8} (hstation : station = 1 ∨ station = 2)
    (hstatic : s.config.staticLeases = []) (env : Env)
    (hnone : findLeaseByMac s.gLeases (packetOf (discover station)).mac = none) :
    offerYiaddr s env (packetOf (discover station)) =
      findFreeOrExpiredNip s.config s.gLeases env.toLeaseEnv := by
  rcases offerYiaddr_new hstatic env hnone with ⟨reqNip, hreqNip, -⟩ | ⟨-, hoffer⟩
  · rw [requestedIp, (discover_options hstation).2.1] at hreqNip
    cases hreqNip
  · exact hoffer

theorem replies_discover {station : UInt8} {now : UInt32} (hstation : station = 1 ∨ station = 2)
    (hoffer : offerYiaddr s (atSecond now) (packetOf (discover station)) = nip) (hzero : nip ≠ 0)
    (hexpired : ∃ lease ∈ clearLeases s.gLeases (packetOf (discover station)).mac nip,
      lease.expires < now) :
    Replies s (.receive (atSecond now) (some (discover station))) := by
  intro packet hrecv state hstate _
  cases (recv_discover hstation).symm.trans hrecv
  refine ⟨rfl, ?_, fun _ => .inr ⟨?_, ?_⟩⟩
  · rcases hstation with rfl | rfl <;> decide
  · rwa [hoffer]
  · rwa [hoffer]

theorem sent_discover {station : UInt8} {now : UInt32} (hstation : station = 1 ∨ station = 2)
    (hstatic : s.config.staticLeases = [])
    (hoffer : offerYiaddr s (atSecond now) (packetOf (discover station)) = nip) (hzero : nip ≠ 0)
    (hexpired : ∃ lease ∈ clearLeases s.gLeases (packetOf (discover station)).mac nip,
      lease.expires < now) :
    ∃ sent ∈ sentSince s (receive s (atSecond now) (some (discover station))), ∃ reply,
      sent.packet = some reply ∧ messageType reply = some [dhcpOffer] ∧
        client reply = (packetOf (discover station)).mac ∧ reply.yiaddr = nip := by
  obtain ⟨htype, -⟩ := discover_options hstation
  have hdiscover : packetOf (discover station) 242 = dhcpDiscover ∧
      (packetOf (discover station)).gatewayNip = 0 := by
    rcases hstation with rfl | rfl <;> decide
  have hbuilt : built s (atSecond now) (packetOf (discover station)) dhcpDiscover =
      some (builtOffer s (atSecond now) (packetOf (discover station))) := by
    refine (if_neg fun h => Bool.noConfusion h).trans ((if_pos rfl).trans (if_pos (.inr ⟨?_, ?_⟩)))
    · rwa [hoffer]
    · rwa [hoffer]
  have hreplies := built_repliesTo hbuilt
  obtain ⟨sent, hsent, -, -, hpacket⟩ := sent_of_answered s (atSecond now)
    (recv_discover hstation) htype (.inl hdiscover.1)
  rw [hdiscover.1] at hpacket
  refine ⟨sent, hsent, _, hpacket _ hbuilt (hreplies.2.trans hdiscover.2), ?_,
    client_eq hreplies.1, ?_⟩
  · exact messageType_addLeaseOptions _ _ _ (List.cons_ne_nil _ _)
  · exact (if_neg (not_not.mpr (findLease_eq hstatic _).1)).trans hoffer

theorem leases_decline {expires : UInt32} {later : List DynLease}
    (hstatic : s.config.staticLeases = []) (htime : s.config.declineTime = 3600)
    (hleases : s.gLeases = someLease expires (packetOf (discover 1)).mac :: later) :
    (receive s (atSecond 1010) (some (decline 1))).gLeases = someLease 4610 noMac :: later ∧
      declineOf s (atSecond 1010) (packetOf (decline 1)) = some (0x6519a8c0, 1010) := by
  obtain ⟨htype, hrequested, hserver⟩ := decline_options
  have hdecline : packetOf (decline 1) 242 = dhcpDecline := by decide
  have hnip : requestedIp (packetOf (decline 1)) = some 0x6519a8c0 := by
    unfold requestedIp
    rw [hrequested]
    decide
  have hlease : findLease s (packetOf (decline 1)) = .entry 0 :=
    findLease_first hstatic hleases (mac_message 1 _)
  have hmatches : declineMatches s (packetOf (decline 1)) = true := by
    simp only [declineMatches, hserver, hnip, hlease, hleases, Lease.nip]
    rfl
  constructor
  · have hhandle : handlePacket (atSender s (atSecond 1010) (some (decline 1))) (atSecond 1010)
        (packetOf (decline 1)) = modifyLease (atSender s (atSecond 1010) (some (decline 1)))
          (findLease s (packetOf (decline 1))) (declined s (atSecond 1010)) := by
      simp only [handlePacket, htype, hdecline]
      exact if_pos hmatches
    rw [receive_some s recv_decline, hhandle, hlease]
    simp only [modifyLease, atSender, hleases]
    unfold declined
    rw [htime]
    rfl
  · simp only [declineOf, htype, Option.bind_some, hdecline, hmatches, hnip]
    rfl

/-! ### A pool of two addresses, one declined -/

def oneAddress : PleaseConfig where
  startIp := 0xc0a81965
  endIp := 0xc0a81965
  subnet := 0xffffff00
  gw := 0xc0a81901
  dns := 0xc0a81901
  maxLeases := 1
  declineTime := 3600
  offerTime := 60
  minLeaseSec := 60
  maxLeaseSec := 864000

def twoAddresses : PleaseConfig := { oneAddress with endIp := 0xc0a81966, maxLeases := 2 }

def twoConfig : ServerConfig := udhcpdRunConfig (some twoAddresses) 0x0119a8c0 0 0

theorem leases_offer :
    (receive (udhcpdStart twoConfig) (atSecond 1000) (some (discover 1))).gLeases =
      [someLease 1060 (packetOf (discover 1)).mac, noLease] := by
  obtain ⟨htype, hrequested, htime, hname⟩ := discover_options (.inl rfl)
  have hdiscover : packetOf (discover 1) 242 = dhcpDiscover := by decide
  rw [receive_some _ (recv_discover (.inl rfl))]
  simp only [handlePacket, htype, hdiscover, if_true, safeWrite, sendOffer, hname, offerYiaddr,
    requestedIp, hrequested, selectLeaseTime, htime]
  decide

theorem leases_ack (hconfig : s.config = twoConfig)
    (hleases : s.gLeases = [someLease 1060 (packetOf (discover 1)).mac, noLease]) :
    (receive s (atSecond 1005) (some request)).gLeases =
      [someLease 865005 (packetOf (discover 1)).mac, noLease] := by
  obtain ⟨htype, hrequested, htime, hname⟩ := request_options
  have hrequest : packetOf request 242 = dhcpRequest := by decide
  have hnip : requestedIp (packetOf request) = some 0x6519a8c0 := by
    unfold requestedIp
    rw [hrequested]
    decide
  have hlease : findLease s (packetOf request) = .entry 0 :=
    findLease_first (by rw [hconfig]; rfl) hleases (mac_message 1 _)
  rw [receive_some s recv_request]
  simp only [handlePacket, htype, hrequest]
  rw [if_neg (by decide), if_pos trivial, onRequest, hnip]
  simp only [reduceCtorEq, false_and, if_false, Option.getD_some]
  rw [if_pos, safeWrite, sendAck]
  · simp only [gLeases_sendPacket, selectLeaseTime, htime, hname]
    rw [if_neg (by decide)]
    simp only [atSender, hconfig, hleases]
    rw [show (packetOf (discover 1)).mac = #v[2, 0, 0, 0, 0, 1] from mac_message 1 _]
    decide
  · rw [show findLease (atSender s _ _) _ = _ from hlease, atSender, hleases]
    decide

/-- A DISCOVER that finds a free address and a blank entry withholds what is declined. -/
theorem withholds_discover {station : UInt8} {now : UInt32} (nip : UInt32)
    (hstation : station = 1 ∨ station = 2) (hstatic : w.server.config.staticLeases = [])
    (hnone : findLeaseByMac w.server.gLeases (packetOf (discover station)).mac = none)
    (hfound : findFreeOrExpiredNip w.server.config w.server.gLeases
      (atSecond now).toLeaseEnv = nip) (hzero : nip ≠ 0)
    (hfree : nip ∈ pool w.server.config ∧ findLeaseByNip w.server.gLeases nip = none)
    (hexpired : ∃ lease ∈ clearLeases w.server.gLeases (packetOf (discover station)).mac nip,
      lease.expires < now) :
    Withholds w (.receive (atSecond now) (some (discover station))) := by
  have hoffer := (offerYiaddr_discover hstation hstatic (atSecond now) hnone).trans hfound
  constructor
  · exact replies_discover hstation hoffer hzero hexpired
  · intro packet _ state _ _ _ hexhausted
    exact absurd hfree.2 (hexhausted nip hfree.1)

/-- Any other message that is no DISCOVER. -/
theorem withholds_message {now : UInt32} {bytes : List UInt8} {state : Nat}
    (hrecv : udhcpRecvKernelPacket (fun _ => 0) (some bytes) = some packet)
    (hstate : udhcpGetOption packet dhcpMessageType = some state)
    (htype : packet state ≠ dhcpDiscover) (hgateway : packet.gatewayNip = 0) :
    Withholds w (.receive (atSecond now) (some bytes)) := by
  constructor
  · intro packet' hrecv' state' hstate' _
    cases hrecv.symm.trans hrecv'
    cases hstate.symm.trans hstate'
    exact ⟨rfl, hgateway, fun hdiscover => absurd hdiscover htype⟩
  · intro packet' hrecv' state' hstate' hdiscover
    cases hrecv.symm.trans hrecv'
    cases hstate.symm.trans hstate'
    exact absurd hdiscover htype

/-- An address is offered, acknowledged and declined, and the next client gets the other one. -/
theorem exclusive_of_withholds_declined :
    ∃ w, Run watch (fun w event => Timely w event ∧ Withholds w event) (watchStart twoConfig)
        [.receive (atSecond 1000) (some (discover 1)), .receive (atSecond 1005) (some request),
          .receive (atSecond 1010) (some (decline 1))] w ∧
      w.declinedAt = [(0x6519a8c0, 1010)] ∧
      (UniqueKey DynLease.leaseNip 0 w.server.gLeases ∧
        UniqueKey DynLease.leaseMac noMac w.server.gLeases) ∧
      GrantsAvailable w (.receive (atSecond 1020) (some (discover 2))) ∧
      ∃ sent ∈ sentSince w.server (receive w.server (atSecond 1020) (some (discover 2))),
        ∃ reply, sent.packet = some reply ∧ Grants reply 0x6619a8c0 := by
  have hstatic : (watchStart twoConfig).server.config.staticLeases = [] := rfl
  have hmac {station : UInt8} (options : List UInt8) (hstation : station = 1 ∨ station = 2) :
      (packetOf (message station options)).mac ≠ noMac := by
    rw [mac_message]
    rcases hstation with rfl | rfl <;> decide
  obtain ⟨w₁, hw₁, hserver₁, hconfig₁, hnull₁, hclock₁, hlist₁⟩ :=
    turn_atSecond (w := watchStart twoConfig) 1000 rfl hstatic (recv_discover (.inl rfl))
      (discover_options (.inl rfl)).1
  obtain ⟨w₂, hw₂, hserver₂, hconfig₂, hnull₂, hclock₂, hlist₂⟩ :=
    turn_atSecond 1005 hnull₁ (hconfig₁ ▸ hstatic) recv_request request_options.1
  obtain ⟨w₃, hw₃, hserver₃, hconfig₃, hnull₃, hclock₃, hlist₃⟩ :=
    turn_atSecond 1010 hnull₂ (hconfig₂ ▸ hconfig₁ ▸ hstatic) recv_decline
      decline_options.1
  have hleases₁ := hserver₁ ▸ leases_offer
  have hleases₂ := hserver₂ ▸ leases_ack hconfig₁ hleases₁
  have hconfig₂ : w₂.server.config = twoConfig := hconfig₂.trans hconfig₁
  obtain ⟨hleases₃, hdecline⟩ := leases_decline (by rw [hconfig₂]; rfl) (by rw [hconfig₂]; rfl)
    hleases₂
  rw [← hserver₃] at hleases₃
  have hconfig₃ : w₃.server.config = twoConfig := hconfig₃.trans hconfig₂
  have hnone : findLeaseByMac w₃.server.gLeases (packetOf (discover 2)).mac = none := by
    rw [hleases₃]
    decide
  have hfound : findFreeOrExpiredNip w₃.server.config w₃.server.gLeases
      (atSecond 1020).toLeaseEnv = 0x6619a8c0 := by
    rw [hconfig₃, hleases₃]
    decide
  have hexpired : ∃ lease ∈ clearLeases w₃.server.gLeases (packetOf (discover 2)).mac 0x6619a8c0,
      lease.expires < 1020 := by
    rw [hleases₃]
    decide
  have hrun₁ : Run watch (fun w event => Timely w event ∧ Withholds w event)
      (watchStart twoConfig) [.receive (atSecond 1000) (some (discover 1))] w₁ := by
    refine Run.nil.snoc ⟨?_, ?_⟩ hw₁
    · exact timely_atSecond (by decide) (by decide) (by decide) (recv_discover (.inl rfl))
        (hmac _ (.inl rfl))
    · exact withholds_discover 0x6519a8c0 (.inl rfl) rfl (by decide) (by decide)
        (by decide) (by decide) (by decide)
  have hrun₂ := hrun₁.snoc ⟨timely_atSecond (by rw [hclock₁]; decide) (by decide)
    (by rw [hconfig₁]; decide) recv_request (hmac _ (.inl rfl)),
    withholds_message recv_request request_options.1 (by decide) (by decide)⟩ hw₂
  have hrun₃ := hrun₂.snoc ⟨timely_atSecond (by rw [hclock₂]; decide) (by decide)
    (by rw [hconfig₂]; decide) recv_decline (hmac _ (.inl rfl)),
    withholds_message recv_decline decline_options.1 (by decide) (by decide)⟩ hw₃
  have hunique := (exclusive_of_withholds (some twoAddresses) 0x0119a8c0 0 0 _ w₃).1
    (hrun₃.mono fun _ _ h => h.1)
  have havailable := (exclusive_of_withholds (some twoAddresses) 0x0119a8c0 0 0 _ w₃).2 hrun₃
  refine ⟨w₃, hrun₃, ?_, hunique, ?_, ?_⟩
  · rw [hlist₃, hdecline, hlist₂, hlist₁, declineOf_eq_none request_options.1 (by decide),
      declineOf_eq_none (discover_options (.inl rfl)).1 (by decide)]
    rfl
  · refine havailable _ ?_ ?_
    · exact timely_atSecond (by rw [hclock₃]; decide) (by decide) (by rw [hconfig₃]; decide)
        (recv_discover (.inr rfl)) (hmac _ (.inr rfl))
    · exact withholds_discover 0x6619a8c0 (.inr rfl) (by rw [hconfig₃]; rfl) hnone hfound (by decide)
        (by rw [hconfig₃, hleases₃]; decide) hexpired
  · obtain ⟨sent, hsent, reply, hreply, htype, -, hnip⟩ := sent_discover (.inr rfl)
      (by rw [hconfig₃]; rfl)
      ((offerYiaddr_discover (.inr rfl) (by rw [hconfig₃]; rfl) (atSecond 1020) hnone).trans hfound)
      (by decide) hexpired
    exact ⟨sent, hsent, reply, hreply, .inl htype, hnip, by decide⟩

/-! ### A pool of one address, declined -/

def oneConfig : ServerConfig := udhcpdRunConfig (some oneAddress) 0x0119a8c0 0 0

theorem leases_discover :
    (receive (udhcpdStart oneConfig) (atSecond 1000) (some (discover 1))).gLeases =
      [someLease 1060 (packetOf (discover 1)).mac] := by
  obtain ⟨htype, hrequested, htime, hname⟩ := discover_options (.inl rfl)
  have hdiscover : packetOf (discover 1) 242 = dhcpDiscover := by decide
  rw [receive_some _ (recv_discover (.inl rfl))]
  simp only [handlePacket, htype, hdiscover, if_true, safeWrite, sendOffer, hname, offerYiaddr,
    requestedIp, hrequested, selectLeaseTime, htime]
  decide

theorem declined_offered :
    ¬ ∀ (pleaseConfig : Option PleaseConfig) (ipaddr gw subnet : UInt32) (events : List Event)
      (w : Watched),
      Run watch Timely (watchStart (udhcpdRunConfig pleaseConfig ipaddr gw subnet)) events w →
        ∀ event, Timely w event → GrantsAvailable w event := by
  intro havailable
  let s := receive (udhcpdStart oneConfig) (atSecond 1000) (some (discover 1))
  let t := receive s (atSecond 1010) (some (decline 1))
  have hs : s.config = oneConfig :=
    (tableAfter_receive (s := udhcpdStart oneConfig) rfl (atSecond 1000) _).config
  have ht : t.config = oneConfig :=
    (tableAfter_receive (s := s) (by rw [hs]; rfl) (atSecond 1010) _).config.trans hs
  obtain ⟨hleases, hdecline⟩ :=
    leases_decline (by rw [hs]; rfl) (by rw [hs]; rfl) leases_discover
  have hdiscover : declineOf (udhcpdStart oneConfig) (atSecond 1000) (packetOf (discover 1)) =
      none := by
    rw [declineOf, (discover_options (.inl rfl)).1, Option.bind_some]
    refine if_neg ?_
    rintro ⟨h, -⟩
    exact absurd h (by decide)
  have hnull : s.nullRead = false :=
    nullRead_receive _ (recv_discover (.inl rfl)) (discover_options (.inl rfl)).1
  have hfirst : watch (watchStart oneConfig) (.receive (atSecond 1000) (some (discover 1))) =
      some ⟨s, 1000, []⟩ := by
    have hrecv : udhcpRecvKernelPacket (atSecond 1000).heap (some (discover 1)) = _ :=
      recv_discover (.inl rfl)
    rw [watch_receive (by rfl), hrecv, Option.bind_some]
    rw [show declineOf (watchStart oneConfig).server = declineOf (udhcpdStart oneConfig) from rfl,
      hdiscover]
    rfl
  have hsecond : watch ⟨s, 1000, []⟩ (.receive (atSecond 1010) (some (decline 1))) =
      some ⟨t, 1010, [(0x6519a8c0, 1010)]⟩ := by
    have hrecv : udhcpRecvKernelPacket (atSecond 1010).heap (some (decline 1)) = _ := recv_decline
    rw [watch_receive hnull, hrecv, Option.bind_some, hdecline]
    rfl
  have hrun : Run watch Timely (watchStart oneConfig)
      [.receive (atSecond 1000) (some (discover 1)), .receive (atSecond 1010) (some (decline 1))]
      ⟨t, 1010, [(0x6519a8c0, 1010)]⟩ := by
    have hdiscovered : Run watch Timely (watchStart oneConfig)
        [.receive (atSecond 1000) (some (discover 1))] ⟨s, 1000, []⟩ := by
      refine Run.nil.snoc ?_ hfirst
      exact timely_atSecond (by decide) (by decide) (by decide)
        (recv_discover (.inl rfl)) (by decide)
    refine hdiscovered.snoc ?_ hsecond
    refine timely_atSecond (by decide) (by decide) ?_ recv_decline (by decide)
    rw [show (⟨s, 1000, []⟩ : Watched).server.config = s.config from rfl, hs]
    decide
  have htimely : Timely ⟨t, 1010, [(0x6519a8c0, 1010)]⟩
      (.receive (atSecond 1020) (some (discover 2))) := by
    refine timely_atSecond (by decide) (by decide) ?_ (recv_discover (.inr rfl))
      (by decide)
    rw [show (⟨t, 1010, [(0x6519a8c0, 1010)]⟩ : Watched).server.config = t.config from rfl, ht]
    decide
  have hoffer : offerYiaddr t (atSecond 1020) (packetOf (discover 2)) = 0x6519a8c0 := by
    rw [offerYiaddr_discover (.inr rfl) (by rw [ht]; rfl) _ (by rw [hleases]; decide), ht, hleases]
    decide
  obtain ⟨sent, hsent, reply, hreply, htype, -, hnip⟩ := sent_discover (.inr rfl)
    (by rw [ht]; rfl) hoffer (by decide) (by rw [hleases]; decide)
  have hend := (havailable (some oneAddress) 0x0119a8c0 0 0 _ _ hrun _ htimely sent hsent reply
    hreply _ ⟨.inl htype, hnip, by decide⟩).2 1010 (List.mem_singleton_self _)
  rw [show (⟨t, 1010, [(0x6519a8c0, 1010)]⟩ : Watched).server.config = t.config from rfl, ht]
    at hend
  exact absurd hend (by decide)

end Sv6x66.Udhcp.LeaseExclusive
