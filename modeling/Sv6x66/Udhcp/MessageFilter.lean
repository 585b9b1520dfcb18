import Sv6x66.Lib.Run
import Sv6x66.Udhcp.Dhcpd

/-! Which packets the DHCP server acts on. Nothing but the message switch keeps a
packet the checks complain about from being served. -/
namespace Sv6x66.Udhcp.MessageFilter
open Sv6x66.Lib
open Sv6x66.Udhcp.Packet
open Sv6x66.Udhcp.Leases
open Sv6x66.Udhcp.Dhcpd

/-- One of the checks of a received packet complains. -/
def Rejected (s : Server) (packet : DhcpPacket) : Prop :=
  packet.hlen ≠ 6 ∨ packet.op ≠ bootrequest ∨
    (∀ state, udhcpGetOption packet dhcpMessageType = some state →
      packet state < dhcpDiscover ∨ packet state > dhcpInform) ∨
    ∃ serverId, udhcpGetOption packet dhcpServerId = some serverId ∧
      moveFromUnaligned32 packet serverId ≠ s.config.serverNip

/-- No lease changed and nothing was sent. -/
def Untouched (s t : Server) : Prop := t.gLeases = s.gLeases ∧ t.sent = s.sent

/-- What is promised of one turn. -/
def Lawful (s : Server) : Event → Prop
  | .receive env datagram => ∀ packet, udhcpRecvKernelPacket env.heap datagram = some packet →
    (receive s env datagram).nullRead = false ∧
      (Rejected s packet → Untouched s (receive s env datagram))
  | .clearleaseBymac _ => True

/-- A request the server does not answer: it names no address, or it names one
that is not the client's and does not ask for it in an option. -/
def Unanswered (s : Server) (packet : DhcpPacket) : Prop :=
  requestedIp packet = none ∧
    (packet.ciaddr = 0 ∨ (findLease s packet).nip s.gLeases ≠ some packet.ciaddr ∧
      udhcpGetOption packet dhcpServerId = none)

/-- The lease is on the stack, or the change leaves it as it is. -/
def Vain (s : Server) (lease : Lease) (change : DynLease → DynLease) : Prop :=
  ∀ i entry, lease = .entry i → s.gLeases[i]? = some entry → change entry = entry

/-- The message of type `type` has no effect. -/
def Inert (s : Server) (env : Env) (packet : DhcpPacket) (type : UInt8) : Prop :=
  type ≠ dhcpDiscover ∧ type ≠ dhcpInform ∧
    (type = dhcpRequest → Unanswered s packet) ∧
    (type = dhcpDecline → declineMatches s packet = true →
      Vain s (findLease s packet) (declined s env)) ∧
    (type = dhcpRelease → releaseMatches s packet = true →
      Vain s (findLease s packet) (released env))

/-- A packet has its message type, and if a check complains about it the message
has no effect. -/
def Filtered (s : Server) : Event → Prop
  | .receive env datagram => ∀ packet, udhcpRecvKernelPacket env.heap datagram = some packet →
    ∃ state, udhcpGetOption packet dhcpMessageType = some state ∧
      (Rejected s packet → Inert s env packet (packet state))
  | .clearleaseBymac _ => True

variable {s t : Server} {env : Env} {packet : DhcpPacket}

/-! ### What is sent and read -/

/-- A part of the handling may send and change leases, and goes on. -/
structure Extends (s t : Server) : Prop where
  sent : s.sent <+: t.sent
  nullRead : t.nullRead = s.nullRead

theorem Extends.refl (s : Server) : Extends s s := ⟨List.prefix_refl _, rfl⟩

theorem Extends.leases {leases : List DynLease} (h : Extends { s with gLeases := leases } t) :
    Extends s t := ⟨h.sent, h.nullRead⟩

theorem extends_sendPacket (s : Server) (env : Env) (reply : Reply) (force : Bool) :
    Extends s (sendPacket s env reply force) := by
  unfold sendPacket sendPacketToRelay sendPacketToClient
  split
  · split
    · exact ⟨List.prefix_append _ _, rfl⟩
    · exact .refl s
  · exact ⟨List.prefix_refl _, rfl⟩

theorem extends_sendOffer (s : Server) (env : Env) (packet : DhcpPacket) :
    Extends s (sendOffer s env packet) := by
  simp only [sendOffer]
  split
  · exact .refl s
  · split
    · exact extends_sendPacket _ _ _ _
    · split
      · exact .refl s
      · split
        · exact ⟨List.prefix_refl _, rfl⟩
        · exact (extends_sendPacket _ _ _ _).leases

theorem extends_sendNak (s : Server) (env : Env) (packet : DhcpPacket) :
    Extends s (sendNak s env packet) := by
  unfold sendNak
  split
  · exact .refl s
  · exact extends_sendPacket _ _ _ _

theorem extends_sendAck (s : Server) (env : Env) (packet : DhcpPacket) (yiaddr : UInt32) :
    Extends s (sendAck s env packet yiaddr) := by
  simp only [sendAck]
  split
  · exact .refl s
  · have h := extends_sendPacket s env
    exact ⟨(h _ _).sent, (h _ _).nullRead⟩

theorem extends_sendInform (s : Server) (env : Env) (packet : DhcpPacket) :
    Extends s (sendInform s env packet) := by
  unfold sendInform
  split
  · exact .refl s
  · exact extends_sendPacket _ _ _ _

/-- Every branch that ends in `safe_write` sends. -/
theorem Extends.safeWrite (h : Extends s t) :
    ¬ Untouched s (safeWrite t) ∧ (safeWrite t).nullRead = s.nullRead := by
  refine ⟨?_, h.nullRead⟩
  rintro ⟨-, hsent⟩
  have hlen := congrArg List.length hsent
  have hle := h.sent.length_le
  simp only [Dhcpd.safeWrite, List.length_append, List.length_singleton] at hlen
  omega

/-! ### One lemma for each message -/

theorem untouched_onRequest (s : Server) (env : Env) (packet : DhcpPacket) :
    (Untouched s (onRequest s env packet) ↔ Unanswered s packet) ∧
      (onRequest s env packet).nullRead = s.nullRead := by
  have hsame : Untouched s s := ⟨rfl, rfl⟩
  unfold onRequest Unanswered
  cases hrequested : requestedIp packet with
  | some nip =>
    simp only [Option.getD_some, reduceCtorEq, false_and, if_false, Option.isSome_some, or_true,
      if_true, iff_false]
    split
    · exact (extends_sendAck s env packet nip).safeWrite
    · exact (extends_sendNak s env packet).safeWrite
  | none =>
    simp only [Option.getD_none, true_and, Option.isSome_none, Bool.false_eq_true, or_false]
    split
    · exact ⟨iff_of_true hsame (.inl ‹_›), rfl⟩
    · rename_i hciaddr
      rw [or_iff_right hciaddr]
      split
      · rename_i hlease
        obtain ⟨htouched, hread⟩ := (extends_sendAck s env packet packet.ciaddr).safeWrite
        exact ⟨iff_of_false htouched fun h => h.1 hlease, hread⟩
      · split
        · rename_i hserver
          obtain ⟨htouched, hread⟩ := (extends_sendNak s env packet).safeWrite
          refine ⟨iff_of_false htouched ?_, hread⟩
          rintro ⟨-, hnone⟩
          rw [hnone] at hserver
          cases hserver
        · rename_i hlease hserver
          refine ⟨iff_of_true hsame ⟨hlease, ?_⟩, rfl⟩
          exact Option.not_isSome_iff_eq_none.mp hserver

theorem untouched_modifyLease (s : Server) (lease : Lease) (change : DynLease → DynLease) :
    (Untouched s (modifyLease s lease change) ↔ Vain s lease change) ∧
      (modifyLease s lease change).nullRead = s.nullRead := by
  have hsame : Untouched s s := ⟨rfl, rfl⟩
  cases lease with
  | null => exact ⟨iff_of_true hsame nofun, rfl⟩
  | fake nip => exact ⟨iff_of_true hsame nofun, rfl⟩
  | entry i =>
    refine ⟨?_, rfl⟩
    constructor
    · rintro ⟨hleases, -⟩ j entry hlease hentry
      cases hlease
      have hi := congrArg (·[i]?) hleases
      simp only [modifyLease, List.getElem?_modify, if_true, hentry] at hi
      exact Option.some.inj hi
    · intro hvain
      refine ⟨?_, rfl⟩
      apply List.ext_getElem?
      intro j
      simp only [modifyLease, List.getElem?_modify]
      split
      · rename_i hij
        subst hij
        cases hentry : s.gLeases[i]? with
        | none => rfl
        | some entry => exact congrArg some (hvain i entry rfl hentry)
      · exact id_map _

/-- A DECLINE and a RELEASE change the lease of the client, if they match it. -/
theorem untouched_modifyLease_if (s : Server) (matching : Bool) (lease : Lease)
    (change : DynLease → DynLease) :
    (Untouched s (if matching then modifyLease s lease change else s) ↔
        (matching = true → Vain s lease change)) ∧
      (if matching then modifyLease s lease change else s).nullRead = s.nullRead := by
  cases matching with
  | false => exact ⟨iff_of_true ⟨rfl, rfl⟩ nofun, rfl⟩
  | true =>
    obtain ⟨hiff, hread⟩ := untouched_modifyLease s lease change
    exact ⟨hiff.trans ⟨fun hvain _ => hvain, fun hvain => hvain rfl⟩, hread⟩

theorem inert_request : Inert s env packet dhcpRequest ↔ Unanswered s packet := by
  simp [Inert, dhcpDiscover, dhcpRequest, dhcpInform, dhcpDecline, dhcpRelease]

theorem inert_decline : Inert s env packet dhcpDecline ↔
    (declineMatches s packet = true → Vain s (findLease s packet) (declined s env)) := by
  simp [Inert, dhcpDiscover, dhcpRequest, dhcpInform, dhcpDecline, dhcpRelease]

theorem inert_release : Inert s env packet dhcpRelease ↔
    (releaseMatches s packet = true → Vain s (findLease s packet) (released env)) := by
  simp [Inert, dhcpDiscover, dhcpRequest, dhcpInform, dhcpDecline, dhcpRelease]

/-- Handling a packet that has its message type. -/
theorem untouched_handlePacket (s : Server) (env : Env) (packet : DhcpPacket) {state : Nat}
    (hstate : udhcpGetOption packet dhcpMessageType = some state) :
    (Untouched s (handlePacket s env packet) ↔ Inert s env packet (packet state)) ∧
      (handlePacket s env packet).nullRead = s.nullRead := by
  unfold handlePacket
  rw [hstate]
  dsimp only
  split
  · rename_i htype
    obtain ⟨htouched, hread⟩ := (extends_sendOffer s env packet).safeWrite
    exact ⟨iff_of_false htouched fun h => h.1 htype, hread⟩
  split
  · rename_i htype
    rw [htype]
    obtain ⟨hiff, hread⟩ := untouched_onRequest s env packet
    exact ⟨hiff.trans inert_request.symm, hread⟩
  split
  · rename_i htype
    rw [htype]
    obtain ⟨hiff, hread⟩ := untouched_modifyLease_if s (declineMatches s packet)
      (findLease s packet) (declined s env)
    exact ⟨hiff.trans inert_decline.symm, hread⟩
  split
  · rename_i htype
    rw [htype]
    obtain ⟨hiff, hread⟩ := untouched_modifyLease_if s (releaseMatches s packet)
      (findLease s packet) (released env)
    exact ⟨hiff.trans inert_release.symm, hread⟩
  split
  · rename_i htype
    obtain ⟨htouched, hread⟩ := (extends_sendInform s env packet).safeWrite
    exact ⟨iff_of_false htouched fun h => h.2.1 htype, hread⟩
  · rename_i hdiscover hrequest hdecline hrelease hinform
    refine ⟨iff_of_true ⟨rfl, rfl⟩ ⟨hdiscover, hinform, ?_, ?_, ?_⟩, rfl⟩
    · exact fun h => absurd h hrequest
    · exact fun h => absurd h hdecline
    · exact fun h => absurd h hrelease

/-! ### Runs -/

theorem lawful_iff_filtered (hread : s.nullRead = false) (event : Event) :
    Lawful s event ↔ Filtered s event := by
  cases event with
  | clearleaseBymac mac => exact Iff.rfl
  | receive env datagram =>
    refine forall₂_congr fun packet hrecv => ?_
    have hreceive : receive s env datagram =
        handlePacket { s with destSin := if datagram.isSome then env.sender else s.destSin } env
          packet := by
      simp only [receive, hrecv]
    rw [hreceive]
    cases hstate : udhcpGetOption packet dhcpMessageType with
    | none =>
      refine iff_of_false ?_ ?_
      · rintro ⟨hnull, -⟩
        simp only [handlePacket, hstate] at hnull
        cases hnull
      · rintro ⟨state, hstate, -⟩
        cases hstate
    | some state =>
      -- The address of the sender decides nothing.
      obtain ⟨hiff, hkeeps⟩ := untouched_handlePacket
        { s with destSin := if datagram.isSome then env.sender else s.destSin } env packet hstate
      constructor
      · rintro ⟨-, huntouched⟩
        exact ⟨state, rfl, fun hrejected => hiff.mp (huntouched hrejected)⟩
      · rintro ⟨state', hstate', hinert⟩
        cases hstate'
        exact ⟨hkeeps.trans hread, fun hrejected => hiff.mpr (hinert hrejected)⟩

theorem nullRead_of_step {event : Event} (hstep : step s event = some t) :
    s.nullRead = false := by
  by_contra hread
  have hread : s.nullRead = true := Bool.eq_true_of_not_eq_false hread
  cases event with
  | receive env datagram =>
    simp only [step, hread, if_true] at hstep
    cases hstep
  | clearleaseBymac mac =>
    simp only [step, hread, if_true] at hstep
    cases hstep

/-- The server keeps its filter through a run exactly if every packet of the run
that a check complains about is without effect anyway, and none lacks its
message type. -/
theorem filter_iff (config : ServerConfig) (events : List Event) (s : Server) :
    Run step Lawful (udhcpdStart config) events s ↔
      Run step Filtered (udhcpdStart config) events s :=
  Run.allowed_iff fun _ event _ hnext => lawful_iff_filtered (nullRead_of_step hnext) event

/-! ### A DISCOVER without a hardware address -/

def someConfig : ServerConfig where
  serverNip := 0x0119a8c0
  startIp := 0xc0a81965
  endIp := 0xc0a8196e
  subnet := 0xffffff00
  gw := 0xc0a81901
  dns := 0xc0a81901
  maxLeaseSec := 864000
  minLeaseSec := 60
  maxLeases := 10
  declineTime := 3600
  offerTime := 60
  siaddrNip := 0
  staticLeases := []

def someEnv : Env where
  nowCheck := 1000
  nowSearch := 1000
  nowSet := 1000
  offline := fun _ => true
  heap := fun _ => 0
  sender := ⟨0, 68⟩
  memAlloc := true
  relaySocket := true

/-- `hlen` is zero; the option of the message type comes first. -/
def shortDiscover : List UInt8 :=
  [1, 1, 0] ++ List.replicate 233 0 ++ [0x63, 0x82, 0x53, 0x63, 0x35, 1, 1, 0xff]

def shortPacket : DhcpPacket := fun i => if i < dhcpSize then shortDiscover.getD i 0 else 0

theorem shortPacket_type : udhcpGetOption shortPacket dhcpMessageType = some 242 := by
  unfold udhcpGetOption
  rw [findOption, if_neg (by decide), if_neg (by decide), if_neg (by decide)]
  dsimp only
  rw [if_neg (by decide), if_pos (by decide)]
  rfl

theorem shortDiscover_recv :
    udhcpRecvKernelPacket someEnv.heap (some shortDiscover) = some shortPacket := by
  have hcookie : moveFromUnaligned32 shortPacket cookieOffset = htonl 0x63825363 := by
    decide
  simp only [udhcpRecvKernelPacket]
  exact if_neg (not_not_intro hcookie)

theorem short_discover_answered :
    ¬ ∀ events s, Run step anyStep (udhcpdStart someConfig) events s →
      ∀ event, Lawful s event := by
  intro hlawful
  have hrecv := shortDiscover_recv
  have hreceive := hlawful [] _ .nil (.receive someEnv (some shortDiscover)) shortPacket hrecv
  have huntouched := hreceive.2 (.inl (by decide))
  have hdiscover : shortPacket 242 = dhcpDiscover := by decide
  simp only [receive, hrecv, handlePacket, shortPacket_type, hdiscover, if_true] at huntouched
  refine (Extends.safeWrite (extends_sendOffer { udhcpdStart someConfig with
    destSin := if (some shortDiscover).isSome then someEnv.sender
      else (udhcpdStart someConfig).destSin } someEnv shortPacket)).1 ?_
  exact huntouched

end Sv6x66.Udhcp.MessageFilter
