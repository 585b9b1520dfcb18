import Sv6x66.Udhcp.OfferHonoured

/-! How many clients the DHCP server can serve. While they and the addresses they
have declined fit into the table and into the pool, every DISCOVER is answered and
no client loses the address it was given. -/
namespace Sv6x66.Udhcp.Availability
open Sv6x66.Lib
open Sv6x66.Udhcp.Packet
open Sv6x66.Udhcp.Leases
open Sv6x66.Udhcp.Dhcpd
open Sv6x66.Udhcp.LeaseTable
open Sv6x66.Udhcp.OwnReply
open Sv6x66.Udhcp.LeaseExclusive
open Sv6x66.Udhcp.OfferHonoured

/-- The server hears from `clients` only. -/
def Known (clients : Finset Mac) : Event → Prop
  | .receive env datagram =>
    ∀ packet, udhcpRecvKernelPacket env.heap datagram = some packet → packet.mac ∈ clients
  | .clearleaseBymac _ => True

/-- The longest time an entry is given. -/
def longest (config : ServerConfig) : Nat :=
  max config.offerTime.toNat (max config.maxLeaseSec.toNat config.minLeaseSec.toNat)

/-- No entry that is made now ends behind the wrap of the clock. -/
def Unwrapped (w : Watched) : Event → Prop
  | .receive env _ => env.nowSet.toNat + longest w.server.config < 2 ^ 32
  | .clearleaseBymac _ => True

def Serves (clients : Finset Mac) (w : Watched) (event : Event) : Prop :=
  Timely w event ∧ Known clients event ∧ Unwrapped w event

/-- The clients and the addresses declined so far fit into the table and into the
pool. -/
structure Room (clients : Finset Mac) (w : Watched) : Prop where
  table : clients.card + w.declinedAt.length ≤ w.server.config.maxLeases
  pool : clients.card + w.declinedAt.length ≤ (pool w.server.config).toFinset.card

/-- A client asks for an offer, which can be allocated and sent. -/
structure Discovers (env : Env) (datagram : Option (List UInt8)) (packet : DhcpPacket) : Prop where
  recv : udhcpRecvKernelPacket env.heap datagram = some packet
  type : ∃ state, udhcpGetOption packet dhcpMessageType = some state ∧
    packet state = dhcpDiscover
  nip : requestedIp packet ≠ some 0
  memAlloc : env.memAlloc = true
  relay : packet.gatewayNip = 0 ∨ env.relaySocket = true

/-- The client does not decline `nip`, and nobody else asks to be offered it. -/
def Leaves (mac : Mac) (nip : UInt32) : Event → Prop
  | .receive env datagram =>
    ∀ packet, udhcpRecvKernelPacket env.heap datagram = some packet →
      if packet.mac = mac then
        ∀ state, udhcpGetOption packet dhcpMessageType = some state → packet state ≠ dhcpDecline
      else requestedIp packet ≠ some nip
  | .clearleaseBymac other => other ≠ mac

/-- A used entry that is nobody's, as a DECLINE leaves it. -/
def unowned (entry : DynLease) : Bool := entry.leaseMac = noMac ∧ entry ≠ noLease

variable {w w' : Watched} {s : Server} {env : Env} {packet : DhcpPacket} {clients : Finset Mac}
  {leases : List DynLease} {entry own : DynLease} {mac : Mac} {nip : UInt32}

/-! ### The entry that is replaced -/

/-- Of the expired entries the one that expired first is replaced. -/
theorem oldestExpiredFrom_least {i oldest : Nat} {oldestTime : UInt32} {oldestLease : Option Nat}
    {table : List DynLease} (hrest : table.drop i = leases)
    (hoption : ∀ j, oldestLease = some j → ∃ lease, table[j]? = some lease ∧
      lease.expires = oldestTime)
    (h : oldestExpiredFrom leases i oldestTime oldestLease = some oldest) :
    ∃ lease, table[oldest]? = some lease ∧ lease.expires ≤ oldestTime ∧
      ∀ other ∈ leases, lease.expires ≤ other.expires := by
  induction leases generalizing i oldestTime oldestLease with
  | nil =>
    obtain ⟨lease, hlease, hexpires⟩ := hoption oldest h
    refine ⟨lease, hlease, hexpires ▸ UInt32.le_refl _, ?_⟩
    intro other hother
    cases hother
  | cons first rest ih =>
    have hfirst : table[i]? = some first := by
      have hhead := congrArg List.head? hrest
      rwa [List.head?_drop] at hhead
    have hdrop : table.drop (i + 1) = rest := by
      rw [← List.tail_drop, hrest, List.tail_cons]
    unfold oldestExpiredFrom at h
    split at h
    · rename_i hlt
      have hchosen : ∀ j : Nat, some i = some j → ∃ lease, table[j]? = some lease ∧
          lease.expires = first.expires := by
        intro j hj
        cases hj
        exact ⟨first, hfirst, rfl⟩
      obtain ⟨lease, hlease, hle, hrest⟩ := ih hdrop hchosen h
      refine ⟨lease, hlease, UInt32.le_trans hle (UInt32.le_of_lt hlt), ?_⟩
      intro other hother
      rcases List.mem_cons.mp hother with rfl | hother
      · exact hle
      · exact hrest other hother
    · rename_i hge
      obtain ⟨lease, hlease, hle, hrest⟩ := ih hdrop hoption h
      refine ⟨lease, hlease, hle, ?_⟩
      intro other hother
      rcases List.mem_cons.mp hother with rfl | hother
      · exact UInt32.le_trans hle (UInt32.not_lt.mp hge)
      · exact hrest other hother

/-- While there is a blank entry no other one is replaced. -/
theorem addLease_of_blank {env : LeaseEnv} (hblank : noLease ∈ clearLeases leases packet.mac nip)
    (hclock : 1 ≤ env.nowSearch) (leasetime : UInt32) (hostname : Option Nat) :
    ∃ oldest old, (clearLeases leases packet.mac nip)[oldest]? = some old ∧ old.expires = 0 ∧
      addLease leases env packet nip leasetime hostname =
        ((clearLeases leases packet.mac nip).set oldest ⟨env.nowSet + leasetime, nip, packet.mac,
          copyHostname packet hostname⟩, some oldest) := by
  have hexpired : noLease.expires < env.nowSearch := by
    have hpos : 0 < env.nowSearch := UInt32.lt_of_lt_of_le (by decide) hclock
    exact hpos
  have hsome := (isSome_oldestExpiredFrom (clearLeases leases packet.mac nip) 0 env.nowSearch
    none).mpr (.inr ⟨noLease, hblank, hexpired⟩)
  obtain ⟨oldest, holdest⟩ := Option.isSome_iff_exists.mp hsome
  have hnone : ∀ j : Nat, none = some j → ∃ lease : DynLease,
      (clearLeases leases packet.mac nip)[j]? = some lease ∧ lease.expires = env.nowSearch := by
    intro j hj
    cases hj
  obtain ⟨old, hold, -, hleast⟩ := oldestExpiredFrom_least List.drop_zero hnone holdest
  refine ⟨oldest, old, hold, ?_, ?_⟩
  · exact UInt32.le_antisymm (hleast noLease hblank) UInt32.zero_le
  · simp only [addLease, oldestExpiredLease, holdest]

/-! ### Counting the entries -/

/-- The table holds an entry for each of some clients, and one for each address
that was declined. -/
structure Counted (clients : Finset Mac) (w : Watched) : Prop extends Ordered w.server where
  size : w.server.gLeases.length = w.server.config.maxLeases
  known : ∀ entry ∈ w.server.gLeases, entry.leaseMac ≠ noMac → entry.leaseMac ∈ clients
  declined : w.server.gLeases.countP unowned ≤ w.declinedAt.length
  lasting : ∀ entry ∈ w.server.gLeases, entry.leaseMac ≠ noMac → entry.expires ≠ 0

theorem unowned_of_mac (h : entry.leaseMac ≠ noMac) : unowned entry = false :=
  decide_eq_false fun hunowned => h hunowned.1

/-- For a client that has no entry there is room for one more. -/
theorem Counted.used_lt (h : Counted clients w) (hclient : mac ∈ clients)
    (hnone : findLeaseByMac w.server.gLeases mac = none) :
    w.server.gLeases.countP (fun entry => entry ≠ noLease) <
      clients.card + w.declinedAt.length := by
  have hothers : ∀ entry ∈ w.server.gLeases, entry.leaseMac ≠ noMac →
      entry.leaseMac ∈ clients.erase mac := by
    intro entry hmem hmac
    refine Finset.mem_erase.mpr ⟨?_, h.known entry hmem hmac⟩
    exact of_decide_eq_false (List.findIdx?_eq_none_iff.mp hnone entry hmem)
  have howned := h.exclusive.mac.countP_le_card _ hothers
  rw [Finset.card_erase_of_mem hclient] at howned
  have hused := countP_le_add (p := fun entry : DynLease => entry ≠ noLease)
    (q := fun entry => entry.leaseMac ≠ noMac) (r := unowned) ?_ w.server.gLeases
  · have hpos := Finset.card_pos.mpr ⟨mac, hclient⟩
    have hdeclined := h.declined
    omega
  · intro entry hused
    by_cases hmac : entry.leaseMac = noMac
    · exact .inr (decide_eq_true ⟨hmac, of_decide_eq_true hused⟩)
    · exact .inl (decide_eq_true hmac)

/-- There is a blank entry for it. -/
theorem Counted.blank (h : Counted clients w) (hroom : Room clients w) (hclient : mac ∈ clients)
    (hnone : findLeaseByMac w.server.gLeases mac = none) : noLease ∈ w.server.gLeases := by
  by_contra hnot
  have hused : w.server.gLeases.countP (fun entry => entry ≠ noLease) =
      w.server.gLeases.length := by
    rw [List.countP_eq_length]
    intro entry hmem
    refine decide_eq_true ?_
    rintro rfl
    exact hnot hmem
  have hlt := h.used_lt hclient hnone
  have htable := hroom.table
  rw [hused, h.size] at hlt
  omega

/-- The last byte of an address is the first one in memory. -/
theorem low_of_htonl_eq_zero {addr : UInt32} (h : htonl addr = 0) : addr &&& 0xff = 0 := by
  unfold htonl ntohl at h
  simp only [UInt32.or_eq_zero_iff] at h
  have hshift : addr.toNat * 2 ^ 24 % 2 ^ 32 = 0 := by
    have htoNat := congrArg UInt32.toNat h.1.1.1
    rwa [UInt32.toNat_shiftLeft, Nat.shiftLeft_eq] at htoNat
  apply UInt32.toNat.inj
  rw [UInt32.toNat_and, show (0xff : UInt32).toNat = 2 ^ 8 - 1 from rfl,
    Nat.and_two_pow_sub_one_eq_mod]
  change addr.toNat % 2 ^ 8 = 0
  omega

theorem ne_zero_of_mem_poolFrom {config : ServerConfig} {left : Nat} {addr : UInt32}
    (h : nip ∈ poolFrom config left addr) : nip ≠ 0 := by
  induction left generalizing addr with
  | zero => cases h
  | succ left ih =>
    unfold poolFrom at h
    split at h
    · rename_i husable
      rcases List.mem_cons.mp h with rfl | h
      · exact fun hzero => husable (.inl (low_of_htonl_eq_zero hzero))
      · exact ih h
    · exact ih h

/-- There is an address for it that nobody has. -/
theorem Counted.free (h : Counted clients w) (hroom : Room clients w) (hclient : mac ∈ clients)
    (hnone : findLeaseByMac w.server.gLeases mac = none) :
    ∃ nip, (pool w.server.config).find? (isFree w.server.gLeases) = some nip ∧ nip ≠ 0 := by
  cases hfree : (pool w.server.config).find? (isFree w.server.gLeases) with
  | some nip => exact ⟨nip, rfl, ne_zero_of_mem_poolFrom (List.mem_of_find?_eq_some hfree)⟩
  | none =>
    exfalso
    have hsubset : (pool w.server.config).toFinset ⊆
        ((w.server.gLeases.filter fun entry => entry ≠ noLease).map
          DynLease.leaseNip).toFinset := by
      intro nip hnip
      have hpool := List.mem_toFinset.mp hnip
      have htaken := List.find?_eq_none.mp hfree nip hpool
      obtain ⟨entry, hentry⟩ := Option.ne_none_iff_exists'.mp fun hnone =>
        htaken (Option.isNone_iff_eq_none.mpr hnone)
      obtain ⟨hmem, rfl⟩ := findLeaseByNip_some hentry
      refine List.mem_toFinset.mpr (List.mem_map.mpr ⟨entry, List.mem_filter.mpr ⟨hmem, ?_⟩, rfl⟩)
      refine decide_eq_true ?_
      rintro rfl
      exact ne_zero_of_mem_poolFrom hpool rfl
    have hcard := (Finset.card_le_card hsubset).trans (List.toFinset_card_le _)
    rw [List.length_map, ← List.countP_eq_length_filter] at hcard
    have hlt := h.used_lt hclient hnone
    have hpool := hroom.pool
    omega

/-! ### What a turn does to them -/

theorem selectLeaseTime_le (config : ServerConfig) (packet : DhcpPacket) :
    (selectLeaseTime config packet).toNat ≤ longest config := by
  unfold selectLeaseTime longest
  split
  · omega
  · simp only []
    split_ifs with hlong hshort hshort
    · omega
    · omega
    · omega
    · have hle : ¬ config.maxLeaseSec.toNat < _ := UInt32.lt_iff_toNat_lt.not.mp hlong
      omega

theorem expires_ne_zero {now leasetime : UInt32} (hclock : 1 ≤ now)
    (hwrap : now.toNat + leasetime.toNat < 2 ^ 32) : now + leasetime ≠ 0 := by
  intro hzero
  have htoNat := congrArg UInt32.toNat hzero
  rw [UInt32.toNat_add, Nat.mod_eq_of_lt hwrap] at htoNat
  have hpos : 1 ≤ now.toNat := UInt32.le_iff_toNat_le.mp hclock
  have hsum : now.toNat + leasetime.toNat = 0 := htoNat
  omega

theorem mem_of_mem_addLease {env : LeaseEnv} {leasetime : UInt32} {hostname : Option Nat}
    (hmem : entry ∈ (addLease leases env packet nip leasetime hostname).1)
    (hmac : entry.leaseMac ≠ noMac) :
    entry ∈ leases ∨ entry.leaseMac = packet.mac ∧ entry.expires = env.nowSet + leasetime := by
  have hcleared (hmem : entry ∈ clearLeases leases packet.mac nip) : entry ∈ leases := by
    obtain ⟨lease, hlease, rfl⟩ := mem_clearLeases_iff.mp hmem
    split at hmac
    · exact absurd rfl hmac
    · rwa [if_neg ‹_›]
  rcases addLease_cases leases env packet nip leasetime hostname with
    heq | ⟨oldest, old, -, -, heq⟩
  · rw [heq] at hmem
    exact .inl (hcleared hmem)
  · rw [heq] at hmem
    rcases List.mem_or_eq_of_mem_set hmem with hmem | rfl
    · exact .inl (hcleared hmem)
    · exact .inr ⟨rfl, rfl⟩

/-- A message makes entries for its sender only. -/
theorem owner_of_leasesTo {type : UInt8} (h : LeasesTo s env packet type leases)
    (hclock : 1 ≤ env.nowSet) (hwrap : env.nowSet.toNat + longest s.config < 2 ^ 32)
    (hmem : entry ∈ leases) (hmac : entry.leaseMac ≠ noMac) :
    entry ∈ s.gLeases ∨ entry.leaseMac = packet.mac ∧ entry.expires ≠ 0 := by
  cases h with
  | same => exact .inl hmem
  | offer =>
    refine (mem_of_mem_addLease hmem hmac).imp_right fun ⟨hsame, hexpires⟩ => ⟨hsame, ?_⟩
    rw [hexpires]
    refine expires_ne_zero hclock ?_
    unfold longest at hwrap
    omega
  | ack =>
    refine (mem_of_mem_addLease hmem hmac).imp_right fun ⟨hsame, hexpires⟩ => ⟨hsame, ?_⟩
    rw [hexpires]
    have hle := selectLeaseTime_le s.config packet
    exact expires_ne_zero hclock (by omega)
  | decline _ _ _ hown =>
    rw [modify_eq_set _ hown] at hmem
    rcases List.mem_or_eq_of_mem_set hmem with hmem | rfl
    · exact .inl hmem
    · exact absurd rfl hmac
  | release _ hfound =>
    obtain ⟨own, hown, hownMac⟩ := findLeaseByMac_some hfound
    rw [modify_eq_set _ hown] at hmem
    rcases List.mem_or_eq_of_mem_set hmem with hmem | rfl
    · exact .inl hmem
    · refine .inr ⟨hownMac, ?_⟩
      intro hzero
      exact absurd hclock (by rw [show env.nowSet = 0 from hzero]; decide)

theorem countP_clearLeases_le (leases : List DynLease) (mac : Mac) (nip : UInt32) :
    (clearLeases leases mac nip).countP unowned ≤ leases.countP unowned := by
  rw [clearLeases, List.countP_map]
  refine List.countP_mono_left fun entry _ hunowned => ?_
  simp only [Function.comp_apply] at hunowned
  split at hunowned
  · exact absurd hunowned (by decide)
  · exact hunowned

theorem countP_addLease_le (leases : List DynLease) (env : LeaseEnv) (leasetime : UInt32)
    (hostname : Option Nat) (hmac : packet.mac ≠ noMac) :
    (addLease leases env packet nip leasetime hostname).1.countP unowned ≤
      leases.countP unowned := by
  have hcleared := countP_clearLeases_le leases packet.mac nip
  rcases addLease_cases leases env packet nip leasetime hostname with
    heq | ⟨oldest, old, -, -, heq⟩
  · rw [heq]
    exact hcleared
  · rw [heq]
    refine (countP_set_le _ _ _ _).trans ?_
    rw [unowned_of_mac hmac]
    exact hcleared

/-- Only a DECLINE leaves an entry that is nobody's. -/
theorem countP_leasesTo {state : Nat}
    (hstate : udhcpGetOption packet dhcpMessageType = some state)
    (h : LeasesTo s env packet (packet state) leases) (hmac : packet.mac ≠ noMac) :
    leases.countP unowned ≤
      s.gLeases.countP unowned + (declineOf s env packet).toList.length := by
  cases h with
  | same => exact Nat.le_add_right _ _
  | offer => exact (countP_addLease_le _ _ _ _ hmac).trans (Nat.le_add_right _ _)
  | ack => exact (countP_addLease_le _ _ _ _ hmac).trans (Nat.le_add_right _ _)
  | decline htype hmatches hfound hown hrequested =>
    have hdeclined : (declineOf s env packet).toList.length = 1 := by
      simp only [declineOf, hstate, Option.bind_some, htype, hmatches, hrequested]
      rfl
    rw [modify_eq_set _ hown, hdeclined]
    refine (countP_set_le _ _ _ _).trans ?_
    split <;> omega
  | release _ hfound =>
    obtain ⟨own, hown, hownMac⟩ := findLeaseByMac_some hfound
    have hreleased : unowned (released env own) = false :=
      unowned_of_mac (hownMac.trans_ne hmac)
    rw [modify_eq_set _ hown]
    refine (countP_set_le _ _ _ _).trans ?_
    rw [hreleased]
    exact Nat.le_add_right _ _

theorem Counted.receive (h : Counted clients w) {datagram : Option (List UInt8)}
    (hserves : Serves clients w (.receive env datagram))
    (hstep : watch w (.receive env datagram) = some w') : Counted clients w' := by
  obtain ⟨t, hnext, rfl⟩ := Option.map_eq_some_iff.mp hstep
  obtain ⟨⟨hfirst, -, hcheck, hsearch, -, hmac⟩, hknown, hwrap⟩ := hserves
  have hclock : 1 ≤ env.nowSet := UInt32.le_trans hfirst (UInt32.le_trans hcheck hsearch)
  have hsame := sameTable_step hnext
  cases step_receive hnext
  have hordered := h.toOrdered.receive env datagram
  have hafter := tableAfter_receive h.static env datagram
  refine ⟨hordered, ?_, ?_, ?_, ?_⟩
  · exact hsame.length.trans (h.size.trans (congrArg ServerConfig.maxLeases hsame.config).symm)
  · intro entry hmem hentry
    rcases hafter.leases with ⟨packet, state, hrecv, -, hleases⟩ | ⟨heq, -⟩
    · rcases owner_of_leasesTo hleases hclock hwrap hmem hentry with hold | ⟨hsender, -⟩
      · exact h.known entry hold hentry
      · exact hsender ▸ hknown packet hrecv
    · exact h.known entry (heq ▸ hmem) hentry
  · rcases hafter.leases with ⟨packet, state, hrecv, hstate, hleases⟩ | ⟨heq, -⟩
    · have hcount := countP_leasesTo hstate hleases (hmac packet hrecv)
      have hdeclined := h.declined
      simp only [hrecv, Option.bind_some, List.length_append]
      omega
    · simp only [heq, List.length_append]
      exact h.declined.trans (Nat.le_add_left _ _)
  · intro entry hmem hentry
    rcases hafter.leases with ⟨packet, state, hrecv, -, hleases⟩ | ⟨heq, -⟩
    · rcases owner_of_leasesTo hleases hclock hwrap hmem hentry with hold | ⟨-, hexpires⟩
      · exact h.lasting entry hold hentry
      · exact hexpires
    · exact h.lasting entry (heq ▸ hmem) hentry

theorem Counted.clearleaseBymac (h : Counted clients w)
    (hstep : watch w (.clearleaseBymac mac) = some w') : Counted clients w' := by
  obtain ⟨t, hnext, rfl⟩ := Option.map_eq_some_iff.mp hstep
  have hsame := sameTable_step hnext
  cases step_clearleaseBymac hnext
  have hordered := h.toOrdered.clearleaseBymac mac
  have hmem (entry : DynLease) (hmem : entry ∈ (clearleaseBymac w.server mac).gLeases)
      (hentry : entry.leaseMac ≠ noMac) : entry ∈ w.server.gLeases := by
    unfold Dhcpd.clearleaseBymac at hmem
    split at hmem
    · exact (List.mem_or_eq_of_mem_set hmem).resolve_right fun heq => hentry (heq ▸ rfl)
    · exact hmem
  refine ⟨hordered, ?_, ?_, ?_, ?_⟩
  · exact hsame.length.trans (h.size.trans (congrArg ServerConfig.maxLeases hsame.config).symm)
  · exact fun entry hentry hmac => h.known entry (hmem entry hentry hmac) hmac
  · refine le_trans ?_ h.declined
    simp only [Dhcpd.clearleaseBymac]
    split
    · exact countP_set_le _ _ _ _
    · exact Nat.le_refl _
  · exact fun entry hentry hmac => h.lasting entry (hmem entry hentry hmac) hmac

theorem Counted.watch (h : Counted clients w) {event : Event} (hserves : Serves clients w event)
    (hstep : watch w event = some w') : Counted clients w' := by
  cases event with
  | receive env datagram => exact h.receive hserves hstep
  | clearleaseBymac mac => exact h.clearleaseBymac hstep

theorem counted_run {pleaseConfig : Option PleaseConfig} {ipaddr gw subnet : UInt32}
    {events : List Event} (hrun : Run watch (Serves clients)
      (watchStart (udhcpdRunConfig pleaseConfig ipaddr gw subnet)) events w) :
    Counted clients w := by
  refine hrun.invariant (I := Counted clients) ?_ fun w event w' h => h.watch
  refine ⟨ordered_udhcpdStart _ _ _ _, List.length_replicate, ?_, ?_, ?_⟩
  · intro entry hmem hmac
    rw [List.eq_of_mem_replicate hmem] at hmac
    exact absurd rfl hmac
  · refine Nat.le_of_eq (List.countP_eq_zero.mpr fun entry hmem => ?_)
    rw [List.eq_of_mem_replicate hmem]
    decide
  · intro entry hmem hmac
    rw [List.eq_of_mem_replicate hmem] at hmac
    exact absurd rfl hmac

/-! ### The offer -/

theorem offerYiaddr_own (hstatic : s.config.staticLeases = []) {i : Nat}
    (hfound : findLeaseByMac s.gLeases packet.mac = some i) (hown : s.gLeases[i]? = some own) :
    offerYiaddr s env packet = own.leaseNip := by
  simp only [offerYiaddr, (findLease_eq hstatic packet).2, hfound, Lease.nip, hown,
    Option.map_some]

/-- A client without an entry gets the address it asks for or a free one. -/
theorem Counted.offerYiaddr_new (h : Counted clients w) (env : Env) (hroom : Room clients w)
    (hclient : packet.mac ∈ clients)
    (hnone : findLeaseByMac w.server.gLeases packet.mac = none) :
    requestedIp packet = some (offerYiaddr w.server env packet) ∨
      offerYiaddr w.server env packet ≠ 0 ∧
        isFree w.server.gLeases (offerYiaddr w.server env packet) = true := by
  rcases LeaseTable.offerYiaddr_new h.static env hnone with
    ⟨reqNip, hreqNip, -, hoffer⟩ | ⟨-, hoffer⟩
  · exact .inl (hoffer ▸ hreqNip)
  · obtain ⟨nip, hfree, hzero⟩ := h.free hroom hclient hnone
    rw [findFreeOrExpiredNip_eq, hfree, Option.getD_some] at hoffer
    rw [hoffer]
    exact .inr ⟨hzero, List.find?_some hfree⟩

theorem Counted.blank_clearLeases (h : Counted clients w) (hroom : Room clients w)
    (hclient : packet.mac ∈ clients) (nip : UInt32) :
    noLease ∈ clearLeases w.server.gLeases packet.mac nip := by
  rw [mem_clearLeases_iff]
  cases hfound : findLeaseByMac w.server.gLeases packet.mac with
  | some i =>
    obtain ⟨own, hown, hmac⟩ := findLeaseByMac_some hfound
    exact ⟨own, List.mem_of_getElem? hown, if_pos (.inl hmac)⟩
  | none => exact ⟨noLease, h.blank hroom hclient hfound, ite_self _⟩

theorem Counted.offers (h : Counted clients w) (hroom : Room clients w)
    (hclient : packet.mac ∈ clients) (hmac : packet.mac ≠ noMac) (hclock : 1 ≤ env.nowSearch)
    (hnip : requestedIp packet ≠ some 0) : Offers w.server env packet := by
  refine .inr ⟨?_, noLease, h.blank_clearLeases hroom hclient _, ?_⟩
  · cases hfound : findLeaseByMac w.server.gLeases packet.mac with
    | some i =>
      obtain ⟨own, hown, hownMac⟩ := findLeaseByMac_some hfound
      rw [offerYiaddr_own h.static hfound hown]
      exact h.exclusive.addressed own (List.mem_of_getElem? hown) (hownMac ▸ hmac)
    | none =>
      rcases h.offerYiaddr_new env hroom hclient hfound with hrequested | ⟨hzero, -⟩
      · intro hzero
        exact hnip (hzero ▸ hrequested)
      · exact hzero
  · have hpos : 0 < env.nowSearch := UInt32.lt_of_lt_of_le (by decide) hclock
    exact hpos

theorem sendOffer_eq (hstatic : s.config.staticLeases = []) (hmem : env.memAlloc = true)
    (hoffers : Offers s env packet) :
    sendOffer s env packet = sendPacket
      { s with gLeases := (addLease s.gLeases env.toLeaseEnv packet (offerYiaddr s env packet)
          s.config.offerTime (udhcpGetOption packet dhcpHostName)).1 } env
      (builtOffer s env packet) false := by
  have hzero := (findLease_eq hstatic packet).1
  obtain ⟨hyiaddr, hexpired⟩ := hoffers.resolve_left (not_not.mpr hzero)
  have hadded := (addLease_snd_eq_none_iff s.gLeases env.toLeaseEnv packet
    (offerYiaddr s env packet) s.config.offerTime (udhcpGetOption packet dhcpHostName)).not.mpr
    (not_not.mpr hexpired)
  have hreply : builtOffer s env packet = addLeaseOptions s.config
      { initPacket s.config packet dhcpOffer with yiaddr := offerYiaddr s env packet }
      (selectLeaseTime s.config packet) := by
    simp only [builtOffer, offeredNip, hzero, ne_eq, not_true_eq_false, if_false]
  rw [hreply]
  simp only [sendOffer, hmem, hzero, hyiaddr, hadded, Bool.not_true, Bool.false_eq_true, ne_eq,
    not_true_eq_false, if_false]

theorem sends_offer (hstatic : s.config.staticLeases = []) (hoffers : Offers s env packet)
    {datagram : Option (List UInt8)} (hdiscovers : Discovers env datagram packet) :
    Sends s (receive s env datagram) dhcpOffer packet.mac (offerYiaddr s env packet) := by
  obtain ⟨state, hstate, htype⟩ := hdiscovers.type
  have hsends := sendOffer_eq (s := atSender s env datagram) hstatic hdiscovers.memAlloc hoffers
  have hreceive : receive s env datagram =
      safeWrite (sendOffer (atSender s env datagram) env packet) := by
    rw [receive_some s hdiscovers.recv]
    simp only [handlePacket, hstate, htype, if_true]
  have hrelay : (builtOffer s env packet).gatewayNip = 0 ∨ env.relaySocket = true :=
    hdiscovers.relay
  rw [hreceive, hsends]
  obtain ⟨sent, hsent, hpacket⟩ := sent_sendPacket
    { atSender s env datagram with gLeases := (addLease s.gLeases env.toLeaseEnv packet
        (offerYiaddr s env packet) s.config.offerTime (udhcpGetOption packet dhcpHostName)).1 }
    false hrelay
  refine ⟨sent, hsent, _, hpacket, ?_, ?_, ?_⟩
  · exact messageType_addLeaseOptions _ _ _ (List.cons_ne_nil _ _)
  · exact client_eq ((repliesTo_initPacket s.config packet (.inl rfl)).leaseOptions _ _ _
      (List.cons_ne_nil _ _))
  · exact if_neg (not_not.mpr (findLease_eq hstatic packet).1)

/-- The client has the address. -/
def Has (s : Server) (mac : Mac) (nip : UInt32) : Prop :=
  ∃ entry ∈ s.gLeases, entry.leaseMac = mac ∧ entry.leaseNip = nip

/-- While there is room every client gets an offer, and has the address it is offered. -/
theorem discover_offered (pleaseConfig : Option PleaseConfig) (ipaddr gw subnet : UInt32)
    (clients : Finset Mac) (events : List Event) (w : Watched)
    (hrun : Run watch (Serves clients)
      (watchStart (udhcpdRunConfig pleaseConfig ipaddr gw subnet)) events w)
    (hroom : Room clients w) (env : Env) (datagram : Option (List UInt8)) (packet : DhcpPacket)
    (t : Server) (hserves : Serves clients w (.receive env datagram))
    (hdiscovers : Discovers env datagram packet)
    (hturn : step w.server (.receive env datagram) = some t) :
    ∃ nip ≠ 0, Sends w.server t dhcpOffer packet.mac nip ∧ Has t packet.mac nip := by
  have hcounted := counted_run hrun
  cases step_receive hturn
  obtain ⟨⟨hfirst, -, hcheck, -, -, hmac⟩, hknown, -⟩ := hserves
  have hoffers := hcounted.offers hroom (hknown packet hdiscovers.recv)
    (hmac packet hdiscovers.recv) (UInt32.le_trans hfirst hcheck) hdiscovers.nip
  obtain ⟨hzero, entry, hentry, hentryMac, hentryNip, -⟩ := noted_sendOffer
    (s := atSender w.server env datagram) hcounted.static hdiscovers.memAlloc hoffers
  refine ⟨_, hzero, sends_offer hcounted.static hoffers hdiscovers, entry, ?_, hentryMac,
    hentryNip⟩
  obtain ⟨state, hstate, htype⟩ := hdiscovers.type
  rw [receive_some _ hdiscovers.recv]
  simp only [handlePacket, hstate, htype, if_true]
  exact hentry

/-! ### Two clients, and a pool of two addresses -/

def twoClients : Finset Mac := {(packetOf (discover 1)).mac, (packetOf (discover 2)).mac}

theorem mem_twoClients {station : UInt8} (hstation : station = 1 ∨ station = 2) :
    (packetOf (discover station)).mac ∈ twoClients ∧ (packetOf (discover station)).mac ≠ noMac := by
  rcases hstation with rfl | rfl
  · exact ⟨Finset.mem_insert_self _ _, by decide⟩
  · exact ⟨Finset.mem_insert_of_mem (Finset.mem_singleton_self _), by decide⟩

theorem discovers_discover {station : UInt8} (hstation : station = 1 ∨ station = 2)
    (now : UInt32) :
    Discovers (atSecond now) (some (discover station)) (packetOf (discover station)) := by
  obtain ⟨htype, hrequested, -⟩ := discover_options hstation
  refine ⟨recv_discover hstation, ⟨242, htype, ?_⟩, ?_, rfl, .inr rfl⟩
  · rcases hstation with rfl | rfl <;> decide
  · rw [requestedIp, hrequested]
    exact Option.some_ne_none _ ∘ Eq.symm

theorem serves_discover {station : UInt8} {now : UInt32} (hstation : station = 1 ∨ station = 2)
    (hconfig : w.server.config = twoConfig) (hclock : w.clock ≤ now) (hfirst : 1 ≤ now)
    (hwrap : now.toNat + 864000 < 2 ^ 32) :
    Serves twoClients w (.receive (atSecond now) (some (discover station))) := by
  have hlongest : longest twoConfig = 864000 := by decide
  have hdecline : twoConfig.declineTime.toNat = 3600 := by decide
  refine ⟨timely_atSecond hclock hfirst ?_ (recv_discover hstation) (mem_twoClients hstation).2,
    ?_, ?_⟩
  · rw [hconfig, hdecline]
    omega
  · intro packet hpacket
    cases (recv_discover hstation).symm.trans hpacket
    exact (mem_twoClients hstation).1
  · have hend : now.toNat + longest w.server.config < 2 ^ 32 := by
      rw [hconfig, hlongest]
      exact hwrap
    exact hend

theorem room_twoClients (hconfig : w.server.config = twoConfig) (hdeclined : w.declinedAt = []) :
    Room twoClients w := by
  have hcard : twoClients.card ≤ 2 := Finset.card_le_two
  constructor
  · rw [hconfig, hdeclined]
    exact hcard
  · rw [hconfig, hdeclined]
    exact hcard.trans (by decide)

/-- The turns of the two clients, while nothing is declined. -/
structure Serving (w : Watched) (now : UInt32) : Prop where
  config : w.server.config = twoConfig
  nullRead : w.server.nullRead = false
  clock : w.clock = now
  declinedAt : w.declinedAt = []

theorem Serving.room {now : UInt32} (h : Serving w now) : Room twoClients w :=
  room_twoClients h.config h.declinedAt

theorem Serving.turn {station : UInt8} {now : UInt32} (h : Serving w now) (later : UInt32)
    (hstation : station = 1 ∨ station = 2) (hlater : now ≤ later) (hfirst : 1 ≤ later)
    (hwrap : later.toNat + 864000 < 2 ^ 32) :
    ∃ w', watch w (.receive (atSecond later) (some (discover station))) = some w' ∧
      Serves twoClients w (.receive (atSecond later) (some (discover station))) ∧
      w'.server = receive w.server (atSecond later) (some (discover station)) ∧
      Serving w' later := by
  obtain ⟨htype, -⟩ := discover_options hstation
  have hother : packetOf (discover station) 242 ≠ dhcpDecline := by
    rcases hstation with rfl | rfl <;> decide
  obtain ⟨w', hstep, hserver, hconfig, hread, hclock, hdeclined⟩ :=
    turn_atSecond later h.nullRead (by rw [h.config]; rfl) (recv_discover hstation) htype
  refine ⟨w', hstep, serves_discover hstation h.config (h.clock ▸ hlater) hfirst hwrap, hserver,
    hconfig.trans h.config, hread, hclock, ?_⟩
  rw [hdeclined, declineOf_eq_none htype hother, h.declinedAt]
  rfl

theorem Serving.clearlease {now : UInt32} (h : Serving w now) (mac : Mac) :
    ∃ w', watch w (.clearleaseBymac mac) = some w' ∧ Serving w' now := by
  have hstep : watch w (.clearleaseBymac mac) =
      some { w with server := clearleaseBymac w.server mac } := by
    simp only [watch, step, h.nullRead, Bool.false_eq_true, if_false, Option.map_some]
  refine ⟨_, hstep, ?_⟩
  unfold clearleaseBymac
  cases findLeaseByMac w.server.gLeases mac with
  | none => exact h
  | some i => exact ⟨h.config, h.nullRead, h.clock, h.declinedAt⟩

/-- Each gets its offer, and the first one again after its entry was cleared. -/
theorem discover_offered_again :
    ∃ w, Run watch (Serves twoClients) (watchStart twoConfig)
        [.receive (atSecond 1000) (some (discover 1)), .receive (atSecond 1010) (some (discover 2)),
          .clearleaseBymac (packetOf (discover 1)).mac] w ∧
      ∃ nip ≠ 0, Sends w.server (receive w.server (atSecond 1020) (some (discover 1))) dhcpOffer
          (packetOf (discover 1)).mac nip ∧
        Has (receive w.server (atSecond 1020) (some (discover 1))) (packetOf (discover 1)).mac
          nip := by
  have hstart : Serving (watchStart twoConfig) 0 := ⟨rfl, rfl, rfl, rfl⟩
  obtain ⟨w₁, hw₁, hserves₁, -, h₁⟩ :=
    hstart.turn 1000 (.inl rfl) (by decide) (by decide) (by decide)
  obtain ⟨w₂, hw₂, hserves₂, -, h₂⟩ :=
    h₁.turn 1010 (.inr rfl) (by decide) (by decide) (by decide)
  obtain ⟨w₃, hw₃, h₃⟩ := h₂.clearlease (packetOf (discover 1)).mac
  have hclear : Serves twoClients w₂
      (.clearleaseBymac (packetOf (discover 1)).mac) :=
    ⟨(mem_twoClients (.inl rfl)).2, trivial, trivial⟩
  have hrun := ((Run.nil.snoc hserves₁ hw₁).snoc hserves₂ hw₂).snoc hclear hw₃
  refine ⟨w₃, hrun, ?_⟩
  refine discover_offered (some twoAddresses) 0x0119a8c0 0 0 twoClients _ w₃ hrun h₃.room
    (atSecond 1020) (some (discover 1)) (packetOf (discover 1)) _
    (serves_discover (.inl rfl) h₃.config (by rw [h₃.clock]; decide) (by decide) (by decide))
    (discovers_discover (.inl rfl) 1020) ?_
  simp only [step, h₃.nullRead, Bool.false_eq_true, if_false]

/-! ### The address is kept -/

theorem mem_addLease_of_blank {env : LeaseEnv}
    (hblank : noLease ∈ clearLeases leases packet.mac nip) (hclock : 1 ≤ env.nowSearch)
    (leasetime : UInt32) (hostname : Option Nat) (hmem : entry ∈ leases)
    (hmac : entry.leaseMac ≠ packet.mac) (hnip : entry.leaseNip ≠ nip)
    (hlasting : entry.expires ≠ 0) :
    entry ∈ (addLease leases env packet nip leasetime hostname).1 := by
  obtain ⟨oldest, old, hold, hexpires, heq⟩ :=
    addLease_of_blank hblank hclock leasetime hostname
  rw [heq]
  obtain ⟨i, hi⟩ := List.mem_iff_getElem?.mp (mem_clearLeases hmem hmac hnip)
  have hother : oldest ≠ i := by
    rintro rfl
    cases hold.symm.trans hi
    exact hlasting hexpires
  refine List.mem_iff_getElem?.mpr ⟨i, ?_⟩
  rwa [List.getElem?_set_ne hother]

theorem exists_mem_addLease {env : LeaseEnv}
    (hblank : noLease ∈ clearLeases leases packet.mac nip) (hclock : 1 ≤ env.nowSearch)
    (leasetime : UInt32) (hostname : Option Nat) :
    ∃ entry ∈ (addLease leases env packet nip leasetime hostname).1,
      entry.leaseMac = packet.mac ∧ entry.leaseNip = nip := by
  obtain ⟨oldest, old, hold, -, heq⟩ := addLease_of_blank hblank hclock leasetime hostname
  rw [heq]
  exact ⟨_, List.mem_set (List.getElem?_eq_some_iff.mp hold).1 _, rfl, rfl⟩

/-- Another client's entry is left alone. -/
theorem mem_modify_of_findLeaseByMac {i : Nat} (change : DynLease → DynLease)
    (hmem : entry ∈ leases) (hfound : findLeaseByMac leases mac = some i)
    (hother : entry.leaseMac ≠ mac) : entry ∈ leases.modify i change := by
  obtain ⟨own, hown, hownMac⟩ := findLeaseByMac_some hfound
  obtain ⟨j, hj⟩ := List.mem_iff_getElem?.mp hmem
  have hij : i ≠ j := by
    rintro rfl
    cases hown.symm.trans hj
    exact hother hownMac
  refine List.mem_iff_getElem?.mpr ⟨j, ?_⟩
  rwa [List.getElem?_modify_ne _ _ hij]

/-- The address that is noted for a sender is the client's own, if the client sent the
message, and not the client's otherwise. -/
structure Notes (entry : DynLease) (packet : DhcpPacket) (nip : UInt32) : Prop where
  own : packet.mac = entry.leaseMac → nip = entry.leaseNip
  other : packet.mac ≠ entry.leaseMac → entry.leaseNip ≠ nip

theorem notes_own (hordered : Ordered s) (hmem : entry ∈ s.gLeases)
    (hmac : entry.leaseMac ≠ noMac) {i : Nat}
    (hfound : findLeaseByMac s.gLeases packet.mac = some i) (hown : s.gLeases[i]? = some own) :
    Notes entry packet own.leaseNip := by
  obtain ⟨own', hown', hownMac⟩ := findLeaseByMac_some hfound
  cases hown.symm.trans hown'
  have hownMem := List.mem_of_getElem? hown
  constructor
  · intro hsame
    rw [hordered.exclusive.mac.eq_of_mem hmem hownMem (hsame.symm.trans hownMac.symm) hmac]
  · intro hother hnip
    refine hother ?_
    rw [hordered.exclusive.nip.eq_of_mem hmem hownMem hnip
      (hordered.exclusive.addressed entry hmem hmac)]
    exact hownMac.symm

theorem Counted.notes_offer (h : Counted clients w) (env : Env) (hroom : Room clients w)
    (hclient : packet.mac ∈ clients) (hmem : entry ∈ w.server.gLeases)
    (hmac : entry.leaseMac ≠ noMac)
    (hrequested : packet.mac ≠ entry.leaseMac → requestedIp packet ≠ some entry.leaseNip) :
    Notes entry packet (offerYiaddr w.server env packet) := by
  cases hfound : findLeaseByMac w.server.gLeases packet.mac with
  | some i =>
    obtain ⟨own, hown, -⟩ := findLeaseByMac_some hfound
    rw [offerYiaddr_own h.static hfound hown]
    exact notes_own h.toOrdered hmem hmac hfound hown
  | none =>
    constructor
    · intro hsame
      exact absurd hsame.symm
        (of_decide_eq_false (List.findIdx?_eq_none_iff.mp hfound entry hmem))
    · intro hother hnip
      rcases h.offerYiaddr_new env hroom hclient hfound with hasked | ⟨-, hfree⟩
      · exact hrequested hother (hnip ▸ hasked)
      · rw [← hnip] at hfree
        exact findLeaseByNip_ne_none hmem (Option.isNone_iff_eq_none.mp hfree)

theorem has_addLease {env : LeaseEnv} (hblank : noLease ∈ clearLeases leases packet.mac nip)
    (hclock : 1 ≤ env.nowSearch) (leasetime : UInt32) (hostname : Option Nat)
    (hmem : entry ∈ leases) (hlasting : entry.expires ≠ 0) (hnotes : Notes entry packet nip) :
    ∃ kept ∈ (addLease leases env packet nip leasetime hostname).1,
      kept.leaseMac = entry.leaseMac ∧ kept.leaseNip = entry.leaseNip := by
  by_cases hsame : packet.mac = entry.leaseMac
  · rw [← hsame, ← hnotes.own hsame]
    exact exists_mem_addLease hblank hclock leasetime hostname
  · refine ⟨entry, ?_, rfl, rfl⟩
    exact mem_addLease_of_blank hblank hclock leasetime hostname hmem (Ne.symm hsame)
      (hnotes.other hsame) hlasting

/-- One case for each message. -/
theorem Counted.has_leasesTo (h : Counted clients w) (hroom : Room clients w)
    (hclient : packet.mac ∈ clients) (hclock : 1 ≤ env.nowSearch) (hmac : mac ≠ noMac)
    (hhas : Has w.server mac nip) {type : UInt8}
    (hleases : LeasesTo w.server env packet type leases)
    (hdecline : packet.mac = mac → type ≠ dhcpDecline)
    (hrequested : packet.mac ≠ mac → requestedIp packet ≠ some nip) :
    ∃ kept ∈ leases, kept.leaseMac = mac ∧ kept.leaseNip = nip := by
  obtain ⟨entry, hmem, rfl, rfl⟩ := hhas
  have hlasting := h.lasting entry hmem hmac
  cases hleases with
  | same => exact ⟨entry, hmem, rfl, rfl⟩
  | offer =>
    exact has_addLease (h.blank_clearLeases hroom hclient _) hclock _ _ hmem hlasting
      (h.notes_offer env hroom hclient hmem hmac hrequested)
  | ack _ hfound hown =>
    exact has_addLease (h.blank_clearLeases hroom hclient _) hclock _ _ hmem hlasting
      (notes_own h.toOrdered hmem hmac hfound hown)
  | decline htype _ hfound =>
    have hother : entry.leaseMac ≠ packet.mac := fun hsame => hdecline hsame.symm htype
    exact ⟨entry, mem_modify_of_findLeaseByMac _ hmem hfound hother, rfl, rfl⟩
  | release _ hfound =>
    by_cases hsame : entry.leaseMac = packet.mac
    · obtain ⟨own, hown, hownMac⟩ := findLeaseByMac_some hfound
      have heq := h.exclusive.mac.eq_of_mem hmem (List.mem_of_getElem? hown)
        (hsame.trans hownMac.symm) hmac
      rw [modify_eq_set _ hown, heq]
      exact ⟨_, List.mem_set (List.getElem?_eq_some_iff.mp hown).1 _, rfl, rfl⟩
    · exact ⟨entry, mem_modify_of_findLeaseByMac _ hmem hfound hsame, rfl, rfl⟩

theorem has_clearleaseBymac {other : Mac} (h : Has s mac nip) (hother : other ≠ mac) :
    Has (clearleaseBymac s other) mac nip := by
  obtain ⟨entry, hmem, hentryMac, hentryNip⟩ := h
  refine ⟨entry, ?_, hentryMac, hentryNip⟩
  unfold Dhcpd.clearleaseBymac
  split
  · exact mem_set_of_findLeaseByMac hmem ‹_› fun hsame => hother (hsame.trans hentryMac)
  · exact hmem

theorem Counted.has_watch (h : Counted clients w) (hroom : Room clients w) {event : Event}
    (hserves : Serves clients w event) (hleaves : Leaves mac nip event) (hmac : mac ≠ noMac)
    (hhas : Has w.server mac nip) (hstep : LeaseExclusive.watch w event = some w') :
    Has w'.server mac nip := by
  obtain ⟨t, hnext, rfl⟩ := Option.map_eq_some_iff.mp hstep
  cases event with
  | receive env datagram =>
    cases step_receive hnext
    obtain ⟨⟨hfirst, -, hcheck, -⟩, hknown, -⟩ := hserves
    rcases (tableAfter_receive h.static env datagram).leases with
      ⟨packet, state, hrecv, hstate, hleases⟩ | ⟨heq, -⟩
    · have hpacket := hleaves packet hrecv
      refine h.has_leasesTo hroom (hknown packet hrecv) (UInt32.le_trans hfirst hcheck) hmac hhas
        hleases ?_ ?_
      · intro hsame
        rw [if_pos hsame] at hpacket
        exact hpacket state hstate
      · intro hother
        rwa [if_neg hother] at hpacket
    · unfold Has
      rw [heq]
      exact hhas
  | clearleaseBymac other =>
    cases step_clearleaseBymac hnext
    exact has_clearleaseBymac hhas hleaves

/-- While there is room a client keeps its address, however long it is away: the next
offer and the next acknowledgement are for it. -/
theorem address_kept (pleaseConfig : Option PleaseConfig) (ipaddr gw subnet : UInt32)
    (clients : Finset Mac) (events later : List Event) (w w' : Watched) (mac : Mac)
    (nip : UInt32)
    (hrun : Run watch (Serves clients)
      (watchStart (udhcpdRunConfig pleaseConfig ipaddr gw subnet)) events w)
    (hmac : mac ≠ noMac) (hhas : Has w.server mac nip)
    (hlater : Run watch
      (fun w event => Serves clients w event ∧ Room clients w ∧ Leaves mac nip event) w later w')
    (env : Env) (datagram : Option (List UInt8)) (packet : DhcpPacket) (t : Server)
    (hturn : step w'.server (.receive env datagram) = some t) :
    (Discovers env datagram packet → packet.mac = mac →
      Serves clients w' (.receive env datagram) → Room clients w' →
        Sends w'.server t dhcpOffer mac nip) ∧
    (Requests env datagram mac nip packet → Sends w'.server t dhcpAck mac nip) := by
  have hkept : Counted clients w' ∧ Has w'.server mac nip := by
    refine hlater.invariant (I := fun w => Counted clients w ∧ Has w.server mac nip)
      ⟨counted_run hrun, hhas⟩ ?_
    rintro w event w' ⟨hcounted, hhas⟩ ⟨hserves, hroom, hleaves⟩ hstep
    exact ⟨hcounted.watch hserves hstep,
      hcounted.has_watch hroom hserves hleaves hmac hhas hstep⟩
  obtain ⟨hcounted, entry, hmem, hentryMac, hentryNip⟩ := hkept
  have hread := MessageFilter.nullRead_of_step hturn
  cases step_receive hturn
  constructor
  · intro hdiscovers hsame hserves hroom
    obtain ⟨⟨hfirst, -, hcheck, -⟩, hknown, -⟩ := hserves
    have hclient := hknown packet hdiscovers.recv
    have hoffers := hcounted.offers hroom hclient (hsame ▸ hmac)
      (UInt32.le_trans hfirst hcheck) hdiscovers.nip
    have hnotes := hcounted.notes_offer env hroom hclient hmem (hentryMac ▸ hmac)
      fun hother => absurd (hsame.trans hentryMac.symm) hother
    rw [← hentryNip, ← hnotes.own (hsame.trans hentryMac.symm), ← hsame]
    exact sends_offer hcounted.static hoffers hdiscovers
  · intro hrequests
    have hzero : nip ≠ 0 :=
      hentryNip ▸ hcounted.exclusive.addressed entry hmem (hentryMac ▸ hmac)
    have hreserved : Reserved w'.server mac nip 0 :=
      ⟨hcounted.toOrdered, hread, entry, hmem, hentryMac, hentryNip, Nat.zero_le _⟩
    exact acknowledged hreserved hmac hzero hrequests

theorem leaves_discover {now : UInt32} :
    Leaves (packetOf (discover 1)).mac 0x6519a8c0
      (.receive (atSecond now) (some (discover 2))) := by
  intro packet hpacket
  cases (recv_discover (.inr rfl)).symm.trans hpacket
  rw [if_neg (by decide), requestedIp, (discover_options (.inr rfl)).2.1]
  exact Option.some_ne_none _ ∘ Eq.symm

/-- The first client comes back long after its offer has run out, while the other one has
come twice and was cleared. -/
theorem address_kept_return :
    ∃ w w', Run watch (Serves twoClients) (watchStart twoConfig)
        [.receive (atSecond 1000) (some (discover 1))] w ∧
      Has w.server (packetOf (discover 1)).mac 0x6519a8c0 ∧
      Run watch (fun w event => Serves twoClients w event ∧ Room twoClients w ∧
          Leaves (packetOf (discover 1)).mac 0x6519a8c0 event) w
        [.receive (atSecond 1010) (some (discover 2)), .receive (atSecond 5000) (some (discover 2)),
          .clearleaseBymac (packetOf (discover 2)).mac] w' ∧
      Sends w'.server (receive w'.server (atSecond 9000) (some (discover 1))) dhcpOffer
        (packetOf (discover 1)).mac 0x6519a8c0 ∧
      Sends w'.server (receive w'.server (atSecond 9000) (some request)) dhcpAck
        (packetOf (discover 1)).mac 0x6519a8c0 := by
  have hstart : Serving (watchStart twoConfig) 0 := ⟨rfl, rfl, rfl, rfl⟩
  obtain ⟨w₁, hw₁, hserves₁, hserver, h₁⟩ :=
    hstart.turn 1000 (.inl rfl) (by decide) (by decide) (by decide)
  obtain ⟨w₂, hw₂, hserves₂, -, h₂⟩ :=
    h₁.turn 1010 (.inr rfl) (by decide) (by decide) (by decide)
  obtain ⟨w₃, hw₃, hserves₃, -, h₃⟩ :=
    h₂.turn 5000 (.inr rfl) (by decide) (by decide) (by decide)
  obtain ⟨w₄, hw₄, h₄⟩ := h₃.clearlease (packetOf (discover 2)).mac
  have hother : (packetOf (discover 2)).mac ≠
      (packetOf (discover 1)).mac := by decide
  have hclear : Serves twoClients w₃
      (.clearleaseBymac (packetOf (discover 2)).mac) :=
    ⟨(mem_twoClients (.inr rfl)).2, trivial, trivial⟩
  have hhas : Has w₁.server (packetOf (discover 1)).mac 0x6519a8c0 := by
    refine ⟨someLease 1060 (packetOf (discover 1)).mac, ?_, rfl, rfl⟩
    rw [hserver, show (receive (watchStart twoConfig).server _ _).gLeases = _ from leases_offer]
    exact List.mem_cons_self
  have hrun := Run.nil.snoc hserves₁ hw₁
  have hlater : Run watch (fun w event => Serves twoClients w event ∧ Room twoClients w ∧
      Leaves (packetOf (discover 1)).mac 0x6519a8c0 event) w₁
      [.receive (atSecond 1010) (some (discover 2)),
        .receive (atSecond 5000) (some (discover 2)),
        .clearleaseBymac (packetOf (discover 2)).mac] w₄ :=
    ((Run.nil.snoc ⟨hserves₂, h₁.room, leaves_discover⟩ hw₂).snoc
      ⟨hserves₃, h₂.room, leaves_discover⟩ hw₃).snoc ⟨hclear, h₃.room, hother⟩ hw₄
  have hmac := (mem_twoClients (.inl rfl)).2
  refine ⟨w₁, w₄, hrun, hhas, hlater, ?_, ?_⟩
  · refine (address_kept (some twoAddresses) 0x0119a8c0 0 0 twoClients _ _ w₁ w₄ _ _ hrun hmac
      hhas hlater (atSecond 9000) (some (discover 1))
      (packetOf (discover 1)) _ ?_).1 (discovers_discover (.inl rfl) 9000) rfl
      (serves_discover (.inl rfl) h₄.config (by rw [h₄.clock]; decide) (by decide) (by decide))
      h₄.room
    simp only [step, h₄.nullRead, Bool.false_eq_true, if_false]
  · refine (address_kept (some twoAddresses) 0x0119a8c0 0 0 twoClients _ _ w₁ w₄ _ _ hrun hmac
      hhas hlater (atSecond 9000) (some request) (packetOf request) _ ?_).2 (requests_request 9000)
    simp only [step, h₄.nullRead, Bool.false_eq_true, if_false]

end Sv6x66.Udhcp.Availability
