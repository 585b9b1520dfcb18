import Mathlib.Data.List.MinMax
import Sv6x66.Lib.KeyTable
import Sv6x66.Udhcp.Dhcpd

/-! What the handling of a packet does to the lease table, and who holds the
address of an offer. -/
namespace Sv6x66.Udhcp.LeaseTable
open Sv6x66.Lib
open Sv6x66.Udhcp.Packet
open Sv6x66.Udhcp.Leases
open Sv6x66.Udhcp.Dhcpd

variable {s t : Server} {env : Env} {packet : DhcpPacket} {leases : List DynLease}
  {config : ServerConfig} {lease entry : DynLease}

/-- The MAC of an entry that is no client's. -/
def noMac : Mac := Vector.replicate 6 0

/-! ### Adding a lease -/

theorem oldestExpiredFrom_expired {i oldest : Nat} {oldestTime now : UInt32}
    {oldestLease : Option Nat} {table : List DynLease} (hrest : table.drop i = leases)
    (htime : oldestTime ≤ now)
    (hoption : ∀ j, oldestLease = some j → ∃ lease, table[j]? = some lease ∧ lease.expires < now)
    (h : oldestExpiredFrom leases i oldestTime oldestLease = some oldest) :
    ∃ lease, table[oldest]? = some lease ∧ lease.expires < now := by
  induction leases generalizing i oldestTime oldestLease with
  | nil => exact hoption oldest h
  | cons lease rest ih =>
    have hlease : table[i]? = some lease := by
      have hhead := congrArg List.head? hrest
      rwa [List.head?_drop] at hhead
    have hrest : table.drop (i + 1) = rest := by
      rw [← List.tail_drop, hrest, List.tail_cons]
    unfold oldestExpiredFrom at h
    split at h
    · rename_i hexpired
      refine ih hrest (UInt32.le_trans (UInt32.le_of_lt hexpired) htime) ?_ h
      intro j hj
      cases hj
      exact ⟨lease, hlease, UInt32.lt_of_lt_of_le hexpired htime⟩
    · exact ih hrest htime hoption h

theorem oldestExpiredLease_expired {now : UInt32} {oldest : Nat}
    (h : oldestExpiredLease leases now = some oldest) :
    ∃ lease, leases[oldest]? = some lease ∧ lease.expires < now := by
  refine oldestExpiredFrom_expired (i := 0) List.drop_zero (UInt32.le_refl now) ?_ h
  intro j hj
  cases hj

/-- The entries of the client and of the address are cleared, and if an entry is
expired then the new one takes its place. -/
theorem addLease_cases (leases : List DynLease) (env : LeaseEnv) (packet : DhcpPacket)
    (yiaddr leasetime : UInt32) (hostname : Option Nat) :
    addLease leases env packet yiaddr leasetime hostname =
        (clearLeases leases packet.mac yiaddr, none) ∨
      ∃ oldest old, (clearLeases leases packet.mac yiaddr)[oldest]? = some old ∧
        old.expires < env.nowSearch ∧
        addLease leases env packet yiaddr leasetime hostname =
          ((clearLeases leases packet.mac yiaddr).set oldest ⟨env.nowSet + leasetime, yiaddr,
            packet.mac, copyHostname packet hostname⟩, some oldest) := by
  simp only [addLease]
  cases holdest : oldestExpiredLease (clearLeases leases packet.mac yiaddr) env.nowSearch with
  | none => exact .inl rfl
  | some oldest =>
    obtain ⟨old, hold, hexpired⟩ := oldestExpiredLease_expired holdest
    exact .inr ⟨oldest, old, hold, hexpired, rfl⟩

theorem mem_clearLeases_iff {mac : Mac} {yiaddr : UInt32} :
    entry ∈ clearLeases leases mac yiaddr ↔ ∃ lease ∈ leases,
      (if lease.leaseMac = mac ∨ yiaddr ≠ 0 ∧ lease.leaseNip = yiaddr then noLease else lease) =
        entry := List.mem_map

theorem mem_clearLeases {mac : Mac} {yiaddr : UInt32} (hmem : entry ∈ leases)
    (hmac : entry.leaseMac ≠ mac) (hnip : entry.leaseNip ≠ yiaddr) :
    entry ∈ clearLeases leases mac yiaddr := by
  refine mem_clearLeases_iff.mpr ⟨entry, hmem, if_neg ?_⟩
  rintro (h | ⟨-, h⟩)
  · exact hmac h
  · exact hnip h

/-- An entry of somebody else with another address stays until it expires. -/
theorem mem_addLease {env : LeaseEnv} {yiaddr leasetime : UInt32} {hostname : Option Nat}
    (hmem : entry ∈ leases) (hmac : entry.leaseMac ≠ packet.mac) (hnip : entry.leaseNip ≠ yiaddr)
    (hunexpired : env.nowSearch ≤ entry.expires) :
    entry ∈ (addLease leases env packet yiaddr leasetime hostname).1 := by
  have hcleared := mem_clearLeases hmem hmac hnip
  rcases addLease_cases leases env packet yiaddr leasetime hostname with
    h | ⟨oldest, old, hold, hexpired, h⟩
  · rw [h]
    exact hcleared
  · rw [h]
    obtain ⟨i, hi⟩ := List.mem_iff_getElem?.mp hcleared
    refine List.mem_iff_getElem?.mpr ⟨i, ?_⟩
    rw [List.getElem?_set_ne ?_]
    · exact hi
    · rintro rfl
      cases hold.symm.trans hi
      exact UInt32.lt_irrefl _ (UInt32.lt_of_lt_of_le hexpired hunexpired)

/-! ### One entry for each client and each address -/

/-- No two entries share an address or a client, and those of a client have an
address. -/
structure Exclusive (leases : List DynLease) : Prop where
  nip : UniqueKey DynLease.leaseNip 0 leases
  mac : UniqueKey DynLease.leaseMac noMac leases
  addressed : ∀ entry ∈ leases, entry.leaseMac ≠ noMac → entry.leaseNip ≠ 0

theorem exclusive_replicate (n : Nat) : Exclusive (List.replicate n noLease) where
  nip := .replicate n rfl
  mac := .replicate n rfl
  addressed := by
    intro entry hmem hmac
    rw [List.eq_of_mem_replicate hmem] at hmac
    exact absurd rfl hmac

theorem Exclusive.clearLeases (h : Exclusive leases) (mac : Mac) (yiaddr : UInt32) :
    Exclusive (clearLeases leases mac yiaddr) where
  nip := h.nip.map fun lease => by
    split
    · exact .inr rfl
    · exact .inl rfl
  mac := h.mac.map fun lease => by
    split
    · exact .inr rfl
    · exact .inl rfl
  addressed := by
    intro entry hmem hmac
    obtain ⟨lease, hlease, rfl⟩ := mem_clearLeases_iff.mp hmem
    split at hmac
    · exact absurd rfl hmac
    · rw [if_neg ‹_›]
      exact h.addressed lease hlease hmac

theorem ne_of_mem_clearLeases {mac : Mac} {yiaddr : UInt32}
    (hmem : entry ∈ clearLeases leases mac yiaddr) :
    (mac ≠ noMac → entry.leaseMac ≠ mac) ∧ (yiaddr ≠ 0 → entry.leaseNip ≠ yiaddr) := by
  obtain ⟨lease, -, rfl⟩ := mem_clearLeases_iff.mp hmem
  split
  · exact ⟨fun h => h.symm, fun h => h.symm⟩
  · rename_i hkept
    exact ⟨fun _ h => hkept (.inl h), fun hne h => hkept (.inr ⟨hne, h⟩)⟩

theorem Exclusive.addLease (h : Exclusive leases) (env : LeaseEnv) (packet : DhcpPacket)
    {yiaddr : UInt32} (leasetime : UInt32) (hostname : Option Nat)
    (hyiaddr : packet.mac ≠ noMac → yiaddr ≠ 0) :
    Exclusive (addLease leases env packet yiaddr leasetime hostname).1 := by
  have hcleared := h.clearLeases packet.mac yiaddr
  rcases addLease_cases leases env packet yiaddr leasetime hostname with
    heq | ⟨oldest, old, -, -, heq⟩
  · rw [heq]
    exact hcleared
  · rw [heq]
    exact {
      nip := hcleared.nip.set oldest fun hne entry hmem => (ne_of_mem_clearLeases hmem).2 hne
      mac := hcleared.mac.set oldest fun hne entry hmem => (ne_of_mem_clearLeases hmem).1 hne
      addressed := by
        intro entry hmem hmac
        rcases List.mem_or_eq_of_mem_set hmem with hmem | rfl
        · exact hcleared.addressed entry hmem hmac
        · exact hyiaddr hmac }

/-! ### The search for an address -/

/-- An address the search does not skip. -/
def Usable (config : ServerConfig) (addr : UInt32) : Prop :=
  ¬ (addr &&& 0xff = 0 ∨ addr &&& 0xff = 0xff ∨ htonl addr = config.serverNip ∨
    isNipReserved config.staticLeases (htonl addr) = true)

instance (config : ServerConfig) : DecidablePred (Usable config) := fun _ =>
  inferInstanceAs (Decidable (¬ (_ ∨ _ ∨ _ ∨ _)))

/-- The addresses of the pool that the search goes through from `addr` on. -/
def poolFrom (config : ServerConfig) : (left : Nat) → (addr : UInt32) → List UInt32
  | 0, _ => []
  | left + 1, addr =>
    if Usable config addr then htonl addr :: poolFrom config left (addr + 1)
    else poolFrom config left (addr + 1)

def pool (config : ServerConfig) : List UInt32 :=
  let count := (config.endIp + 1 - config.startIp).toNat
  poolFrom config (if count = 0 then 2 ^ 32 else count) config.startIp

def isFree (leases : List DynLease) (nip : UInt32) : Bool := (findLeaseByNip leases nip).isNone

/-- The entries of addresses of the pool whose station is not associated. -/
def offlineLeases (leases : List DynLease) (env : LeaseEnv) (nips : List UInt32) :
    List DynLease :=
  (nips.filterMap (findLeaseByNip leases)).filter fun lease => env.offline lease.leaseMac

/-- The one of them that expires first. -/
def oldestOffline (config : ServerConfig) (leases : List DynLease) (env : LeaseEnv) :
    Option DynLease :=
  (offlineLeases leases env (pool config)).argmin fun lease => lease.expires.toNat

def firstExpiring (lease oldest : DynLease) : Prop :=
  lease.expires.toNat < oldest.expires.toNat

instance : DecidableRel firstExpiring := fun _ _ => inferInstanceAs (Decidable (_ < _))

/-- The test of the loop on an entry that is in the way. -/
theorem argAux_firstExpiring (oldestLease : Option DynLease) (lease : DynLease) :
    List.argAux firstExpiring oldestLease lease =
      if (match oldestLease with
        | none => true
        | some oldest => decide (lease.expires < oldest.expires)) then some lease
      else oldestLease := by
  cases oldestLease with
  | none => rfl
  | some oldest =>
    simp only [List.argAux, firstExpiring, decide_eq_true_eq, UInt32.lt_iff_toNat_lt]
    rfl

theorem findFreeFrom_eq (config : ServerConfig) (leases : List DynLease) (env : LeaseEnv)
    (left : Nat) (addr : UInt32) (oldestLease : Option DynLease) :
    findFreeFrom config leases env left addr oldestLease =
      ((poolFrom config left addr).find? (isFree leases)).getD
        ((((offlineLeases leases env (poolFrom config left addr)).foldl
          (List.argAux firstExpiring) oldestLease).map DynLease.leaseNip).getD 0) := by
  induction left generalizing addr oldestLease with
  | zero => cases oldestLease <;> rfl
  | succ left ih =>
    unfold findFreeFrom poolFrom
    by_cases husable : Usable config addr
    · rw [if_neg husable, if_pos husable]
      cases hlease : findLeaseByNip leases (htonl addr) with
      | none => simp only [List.find?_cons, isFree, hlease, Option.isNone_none, Option.getD_some]
      | some lease =>
        simp only [List.find?_cons, isFree, hlease, Option.isNone_some, offlineLeases,
          List.filterMap_cons, List.filter_cons]
        cases hoffline : env.offline lease.leaseMac with
        | false =>
          simp only [Bool.and_false, Bool.false_eq_true, if_false]
          exact ih _ _
        | true =>
          rw [Bool.and_true, if_pos rfl, List.foldl_cons, argAux_firstExpiring]
          cases oldestLease with
          | none => exact ih _ _
          | some oldest =>
            by_cases hlt : lease.expires < oldest.expires
            · simp only [hlt, decide_true, if_true]
              exact ih _ _
            · simp only [hlt, decide_false, Bool.false_eq_true, if_false]
              exact ih _ _
    · rw [if_pos (not_not.mp husable), if_neg husable]
      exact ih _ _

/-- The first free address is taken, and failing that the one of the oldest entry of
a station that is not associated, expired or not. -/
theorem findFreeOrExpiredNip_eq (config : ServerConfig) (leases : List DynLease)
    (env : LeaseEnv) :
    findFreeOrExpiredNip config leases env = ((pool config).find? (isFree leases)).getD
      (((oldestOffline config leases env).map DynLease.leaseNip).getD 0) :=
  findFreeFrom_eq config leases env _ _ none

theorem mem_of_oldestOffline (h : oldestOffline config leases env.toLeaseEnv = some lease) :
    lease ∈ leases ∧ env.offline lease.leaseMac = true := by
  have hmem := List.argmin_mem h
  obtain ⟨hfound, hoffline⟩ := List.mem_filter.mp hmem
  obtain ⟨nip, -, hnip⟩ := List.mem_filterMap.mp hfound
  exact ⟨List.mem_of_find?_eq_some hnip, hoffline⟩

/-! ### The address of an offer -/

/-- Every usable address of the pool is in the table. -/
def Exhausted (config : ServerConfig) (leases : List DynLease) : Prop :=
  ∀ nip ∈ pool config, findLeaseByNip leases nip ≠ none

/-- The address of the requested-IP option can be offered. -/
def Grantable (s : Server) (env : Env) (reqNip : UInt32) : Prop :=
  s.config.startIp ≤ ntohl reqNip ∧ ntohl reqNip ≤ s.config.endIp ∧
    ∀ lease, findLeaseByNip s.gLeases reqNip = some lease → isExpiredLease lease env.toLeaseEnv

/-- A client without an entry that asks for no address, or for one it cannot have,
is offered one from the pool. -/
def Searches (s : Server) (env : Env) (packet : DhcpPacket) : Prop :=
  findLeaseByMac s.gLeases packet.mac = none ∧
    ∀ reqNip, requestedIp packet = some reqNip → ¬ Grantable s env reqNip

theorem findLease_eq (hstatic : s.config.staticLeases = []) (packet : DhcpPacket) :
    staticNip s packet = 0 ∧ findLease s packet =
      match findLeaseByMac s.gLeases packet.mac with
      | some i => .entry i
      | none => .null := by
  have hzero : staticNip s packet = 0 := by
    unfold staticNip getStaticNipByMac
    rw [hstatic]
    rfl
  refine ⟨hzero, ?_⟩
  unfold findLease
  exact if_neg (not_not.mpr hzero)

theorem findLeaseByMac_some {mac : Mac} {i : Nat} (h : findLeaseByMac leases mac = some i) :
    ∃ lease, leases[i]? = some lease ∧ lease.leaseMac = mac := by
  obtain ⟨hi, hmac, -⟩ := List.findIdx?_eq_some_iff_getElem.mp h
  exact ⟨leases[i], List.getElem?_eq_getElem hi, of_decide_eq_true hmac⟩

/-- The entry of one client is cleared. -/
theorem mem_set_of_findLeaseByMac {mac : Mac} {i : Nat} (hmem : entry ∈ leases)
    (hfound : findLeaseByMac leases mac = some i) (hother : mac ≠ entry.leaseMac) :
    entry ∈ leases.set i noLease := by
  obtain ⟨own, hown, hmac⟩ := findLeaseByMac_some hfound
  obtain ⟨j, hj⟩ := List.mem_iff_getElem?.mp hmem
  have hij : i ≠ j := by
    rintro rfl
    cases hown.symm.trans hj
    exact hother hmac.symm
  refine List.mem_iff_getElem?.mpr ⟨j, ?_⟩
  rwa [List.getElem?_set_ne hij]

theorem findLeaseByNip_some {nip : UInt32} (h : findLeaseByNip leases nip = some lease) :
    lease ∈ leases ∧ lease.leaseNip = nip := by
  have hfound := List.find?_eq_some_iff_append.mp h
  exact ⟨List.mem_of_find?_eq_some h, of_decide_eq_true hfound.1⟩

theorem findLeaseByNip_ne_none (hmem : entry ∈ leases) :
    findLeaseByNip leases entry.leaseNip ≠ none := by
  intro hnone
  exact List.find?_eq_none.mp hnone entry hmem (decide_eq_true rfl)

/-- The address a client without an entry is offered. -/
theorem offerYiaddr_new (hstatic : s.config.staticLeases = []) (env : Env)
    (hnone : findLeaseByMac s.gLeases packet.mac = none) :
    (∃ reqNip, requestedIp packet = some reqNip ∧ Grantable s env reqNip ∧
      offerYiaddr s env packet = reqNip) ∨
    (Searches s env packet ∧ offerYiaddr s env packet =
      findFreeOrExpiredNip s.config s.gLeases env.toLeaseEnv) := by
  obtain ⟨-, hlease⟩ := findLease_eq hstatic packet
  rw [hnone] at hlease
  unfold offerYiaddr
  rw [hlease]
  cases hrequested : requestedIp packet with
  | none =>
    refine .inr ⟨⟨hnone, ?_⟩, rfl⟩
    intro reqNip hreqNip
    cases hrequested.symm.trans hreqNip
  | some reqNip =>
    have hgrantable : (s.config.startIp ≤ ntohl reqNip ∧ ntohl reqNip ≤ s.config.endIp ∧
        (match findLeaseByNip s.gLeases reqNip with
          | none => false
          | some lease => !isExpiredLease lease env.toLeaseEnv) = false) ↔
        Grantable s env reqNip := by
      unfold Grantable
      cases findLeaseByNip s.gLeases reqNip <;> simp
    simp only [Lease.nip]
    split_ifs with hgrant
    · exact .inl ⟨reqNip, rfl, hgrantable.mp hgrant, rfl⟩
    · refine .inr ⟨⟨hnone, ?_⟩, rfl⟩
      intro other hother
      cases hrequested.symm.trans hother
      exact hgrantable.not.mp hgrant

/-- The search gives an address that has an entry only once the pool is exhausted. -/
theorem holder_of_findFreeOrExpiredNip (hexclusive : Exclusive leases)
    (hmem : entry ∈ leases)
    (hnip : entry.leaseNip = findFreeOrExpiredNip config leases env.toLeaseEnv)
    (hzero : entry.leaseNip ≠ 0) :
    Exhausted config leases ∧ oldestOffline config leases env.toLeaseEnv = some entry := by
  rw [findFreeOrExpiredNip_eq] at hnip
  cases hfree : (pool config).find? (isFree leases) with
  | some nip =>
    rw [hfree, Option.getD_some] at hnip
    have hisFree : isFree leases nip = true := List.find?_some hfree
    exact absurd (hnip ▸ Option.isNone_iff_eq_none.mp hisFree) (findLeaseByNip_ne_none hmem)
  | none =>
    rw [hfree, Option.getD_none] at hnip
    refine ⟨fun nip hpool hnone => ?_, ?_⟩
    · exact List.find?_eq_none.mp hfree nip hpool (Option.isNone_iff_eq_none.mpr hnone)
    · cases hoffline : oldestOffline config leases env.toLeaseEnv with
      | none =>
        rw [hoffline] at hnip
        exact absurd hnip hzero
      | some oldest =>
        rw [hoffline] at hnip
        have holdest : oldest.leaseNip = entry.leaseNip := hnip.symm
        rw [hexclusive.nip.eq_of_mem (mem_of_oldestOffline hoffline).1 hmem holdest
          (holdest ▸ hzero)]

/-- Who holds the address of an offer already: the client, a station whose lease has
expired, or one that is not associated once the pool is exhausted. -/
theorem holder_of_offerYiaddr (hstatic : s.config.staticLeases = [])
    (hexclusive : Exclusive s.gLeases) (hmem : entry ∈ s.gLeases)
    (hnip : entry.leaseNip = offerYiaddr s env packet) (hzero : entry.leaseNip ≠ 0) :
    entry.leaseMac = packet.mac ∨ isExpiredLease entry env.toLeaseEnv = true ∨
      Searches s env packet ∧ Exhausted s.config s.gLeases ∧
        oldestOffline s.config s.gLeases env.toLeaseEnv = some entry := by
  obtain ⟨-, hlease⟩ := findLease_eq hstatic packet
  have hsame (other : DynLease) (hother : other ∈ s.gLeases)
      (hothernip : other.leaseNip = offerYiaddr s env packet) : other = entry :=
    hexclusive.nip.eq_of_mem hother hmem (hothernip.trans hnip.symm)
      (hothernip.trans hnip.symm ▸ hzero)
  cases hfound : findLeaseByMac s.gLeases packet.mac with
  | some i =>
    obtain ⟨own, hown, hmac⟩ := findLeaseByMac_some hfound
    have hoffer : offerYiaddr s env packet = own.leaseNip := by
      simp only [offerYiaddr, hlease, hfound, Lease.nip, hown, Option.map_some]
    rw [hsame own (List.mem_of_getElem? hown) hoffer.symm] at hmac
    exact .inl hmac
  | none =>
    right
    rcases offerYiaddr_new hstatic env hfound with
      ⟨reqNip, -, ⟨-, -, hexpired⟩, hoffer⟩ | ⟨hsearches, hoffer⟩
    · cases hholder : findLeaseByNip s.gLeases reqNip with
      | none =>
        rw [hoffer] at hnip
        exact absurd (hnip ▸ hholder) (findLeaseByNip_ne_none hmem)
      | some holder =>
        obtain ⟨hheld, hheldNip⟩ := findLeaseByNip_some hholder
        rw [hsame holder hheld (hheldNip.trans hoffer.symm)] at hholder
        exact .inl (hexpired entry hholder)
    · rw [hoffer] at hnip
      exact .inr ⟨hsearches, holder_of_findFreeOrExpiredNip hexclusive hmem hnip hzero⟩

/-! ### What a message does to the table -/

/-- The tables a message of type `type` can leave behind. -/
inductive LeasesTo (s : Server) (env : Env) (packet : DhcpPacket) (type : UInt8) :
    List DynLease → Prop where
  | same (h : ¬ (type = dhcpDecline ∧ declineMatches s packet = true)) :
    LeasesTo s env packet type s.gLeases
  | offer (htype : type = dhcpDiscover) (hyiaddr : offerYiaddr s env packet ≠ 0) :
    LeasesTo s env packet type (addLease s.gLeases env.toLeaseEnv packet
      (offerYiaddr s env packet) s.config.offerTime (udhcpGetOption packet dhcpHostName)).1
  | ack {i : Nat} {own : DynLease} (htype : type = dhcpRequest)
    (hfound : findLeaseByMac s.gLeases packet.mac = some i) (hown : s.gLeases[i]? = some own) :
    LeasesTo s env packet type (addLease s.gLeases env.toLeaseEnv packet own.leaseNip
      (selectLeaseTime s.config packet) (udhcpGetOption packet dhcpHostName)).1
  | decline {i : Nat} {own : DynLease} (htype : type = dhcpDecline)
    (hmatches : declineMatches s packet = true)
    (hfound : findLeaseByMac s.gLeases packet.mac = some i) (hown : s.gLeases[i]? = some own)
    (hrequested : requestedIp packet = some own.leaseNip) :
    LeasesTo s env packet type (s.gLeases.modify i (declined s env))
  | release {i : Nat} (htype : type = dhcpRelease)
    (hfound : findLeaseByMac s.gLeases packet.mac = some i) :
    LeasesTo s env packet type (s.gLeases.modify i (released env))

theorem own_of_declineMatches (hstatic : s.config.staticLeases = [])
    (h : declineMatches s packet = true) :
    ∃ i own, findLeaseByMac s.gLeases packet.mac = some i ∧ s.gLeases[i]? = some own ∧
      requestedIp packet = some own.leaseNip := by
  obtain ⟨-, hlease⟩ := findLease_eq hstatic packet
  simp only [declineMatches, hlease, Bool.and_eq_true, beq_iff_eq] at h
  obtain ⟨⟨-, hsome⟩, hnip⟩ := h
  obtain ⟨reqNip, hreqNip⟩ := Option.isSome_iff_exists.mp hsome
  cases hfound : findLeaseByMac s.gLeases packet.mac with
  | none =>
    rw [hfound, hreqNip] at hnip
    cases hnip
  | some i =>
    rw [hfound, hreqNip] at hnip
    obtain ⟨own, hown, hownNip⟩ := Option.map_eq_some_iff.mp hnip
    exact ⟨i, own, rfl, hown, hownNip ▸ hreqNip⟩

theorem gLeases_sendPacket (s : Server) (env : Env) (reply : Reply) (force : Bool) :
    (sendPacket s env reply force).gLeases = s.gLeases := by
  unfold sendPacket sendPacketToRelay
  split
  · split <;> rfl
  · rfl

theorem leasesTo_sendOffer (hstatic : s.config.staticLeases = []) (env : Env)
    (packet : DhcpPacket) :
    LeasesTo s env packet dhcpDiscover (sendOffer s env packet).gLeases := by
  have hsame : LeasesTo s env packet dhcpDiscover s.gLeases :=
    .same fun h => absurd h.1 (by decide)
  simp only [sendOffer]
  split
  · exact hsame
  rw [if_neg (not_not.mpr (findLease_eq hstatic packet).1)]
  split
  · exact hsame
  rename_i hyiaddr
  split
  · exact .offer rfl hyiaddr
  · rw [gLeases_sendPacket]
    exact .offer rfl hyiaddr

theorem leasesTo_sendAck (hstatic : s.config.staticLeases = []) (env : Env) {yiaddr : UInt32}
    (hlease : (findLease s packet).nip s.gLeases = some yiaddr) :
    LeasesTo s env packet dhcpRequest (sendAck s env packet yiaddr).gLeases := by
  have hsame : LeasesTo s env packet dhcpRequest s.gLeases :=
    .same fun h => absurd h.1 (by decide)
  simp only [sendAck, gLeases_sendPacket]
  split
  · exact hsame
  · rw [(findLease_eq hstatic packet).2] at hlease
    cases hfound : findLeaseByMac s.gLeases packet.mac with
    | none =>
      rw [hfound] at hlease
      cases hlease
    | some i =>
      rw [hfound] at hlease
      obtain ⟨own, hown, hnip⟩ := Option.map_eq_some_iff.mp hlease
      rw [← hnip]
      exact .ack rfl hfound hown

theorem leasesTo_onRequest (hstatic : s.config.staticLeases = []) (env : Env)
    (packet : DhcpPacket) :
    LeasesTo s env packet dhcpRequest (onRequest s env packet).gLeases := by
  have hsame : LeasesTo s env packet dhcpRequest s.gLeases :=
    .same fun h => absurd h.1 (by decide)
  simp only [onRequest]
  split
  · exact hsame
  split
  · exact leasesTo_sendAck hstatic env ‹_›
  split
  · simp only [safeWrite, sendNak]
    split
    · exact hsame
    · rw [gLeases_sendPacket]
      exact hsame
  · exact hsame

/-- One case for each message. -/
theorem leasesTo_handlePacket (hstatic : s.config.staticLeases = []) (env : Env) {state : Nat}
    (hstate : udhcpGetOption packet dhcpMessageType = some state) :
    LeasesTo s env packet (packet state) (handlePacket s env packet).gLeases := by
  obtain ⟨-, hlease⟩ := findLease_eq hstatic packet
  simp only [handlePacket, hstate]
  split
  · rename_i htype
    rw [htype]
    exact leasesTo_sendOffer hstatic env packet
  split
  · rename_i htype
    rw [htype]
    exact leasesTo_onRequest hstatic env packet
  split
  · rename_i htype
    unfold onDecline
    split
    · rename_i hmatches
      obtain ⟨i, own, hfound, hown, hrequested⟩ := own_of_declineMatches hstatic hmatches
      rw [hlease, hfound]
      exact .decline htype hmatches hfound hown hrequested
    · exact .same fun h => absurd h.2 ‹_›
  rename_i hdecline
  split
  · rename_i htype
    unfold onRelease
    split
    · rw [hlease]
      cases hfound : findLeaseByMac s.gLeases packet.mac with
      | none => exact .same fun h => hdecline h.1
      | some i => exact .release htype hfound
    · exact .same fun h => hdecline h.1
  split
  · simp only [safeWrite, sendInform]
    split
    · exact .same fun h => hdecline h.1
    · rw [gLeases_sendPacket]
      exact .same fun h => hdecline h.1
  · exact .same fun h => hdecline h.1

/-- A client's own entry changes into one that is nobody's, or keeps what it is
known by. -/
theorem Exclusive.modify (h : Exclusive leases) (i : Nat) {change : DynLease → DynLease}
    (hnip : ∀ lease, (change lease).leaseNip = lease.leaseNip)
    (hmac : ∀ lease, (change lease).leaseMac = lease.leaseMac ∨
      (change lease).leaseMac = noMac) : Exclusive (leases.modify i change) where
  nip := h.nip.modify i fun lease => .inl (hnip lease)
  mac := h.mac.modify i hmac
  addressed := by
    intro entry hmem hne
    obtain ⟨j, hj⟩ := List.mem_iff_getElem?.mp hmem
    rw [List.getElem?_modify] at hj
    obtain ⟨lease, hlease, rfl⟩ := Option.map_eq_some_iff.mp hj
    have hmem := List.mem_of_getElem? hlease
    split at hne
    · rw [if_pos ‹_›, hnip]
      rcases hmac lease with hsame | hnone
      · exact h.addressed lease hmem (hsame ▸ hne)
      · exact absurd hnone hne
    · rw [if_neg ‹_›]
      exact h.addressed lease hmem hne

theorem LeasesTo.exclusive {type : UInt8} {leases : List DynLease}
    (h : LeasesTo s env packet type leases) (hexclusive : Exclusive s.gLeases) :
    Exclusive leases := by
  cases h with
  | same => exact hexclusive
  | offer _ hyiaddr => exact hexclusive.addLease _ _ _ _ fun _ => hyiaddr
  | ack _ hfound hown =>
    refine hexclusive.addLease _ _ _ _ fun hne => ?_
    obtain ⟨own, hown', hmac⟩ := findLeaseByMac_some hfound
    cases hown.symm.trans hown'
    exact hexclusive.addressed _ (List.mem_of_getElem? hown) (hmac ▸ hne)
  | decline => exact hexclusive.modify _ (fun _ => rfl) fun _ => .inr rfl
  | release => exact hexclusive.modify _ (fun _ => rfl) fun _ => .inl rfl

/-- An entry of somebody else stays in the table until it expires, unless its address
is offered. -/
theorem LeasesTo.mem {type : UInt8} {leases : List DynLease}
    (h : LeasesTo s env packet type leases) (hexclusive : Exclusive s.gLeases)
    (hmem : entry ∈ s.gLeases) (hmac : entry.leaseMac ≠ packet.mac) (hzero : entry.leaseNip ≠ 0)
    (hunexpired : env.nowSearch ≤ entry.expires)
    (hoffer : type = dhcpDiscover → entry.leaseNip ≠ offerYiaddr s env packet) :
    entry ∈ leases := by
  have hother {i : Nat} (hfound : findLeaseByMac s.gLeases packet.mac = some i)
      (change : DynLease → DynLease) : entry ∈ s.gLeases.modify i change := by
    obtain ⟨own, hown, hownMac⟩ := findLeaseByMac_some hfound
    obtain ⟨j, hj⟩ := List.mem_iff_getElem?.mp hmem
    have hij : i ≠ j := by
      rintro rfl
      cases hown.symm.trans hj
      exact hmac hownMac
    refine List.mem_iff_getElem?.mpr ⟨j, ?_⟩
    rwa [List.getElem?_modify_ne _ _ hij]
  cases h with
  | same => exact hmem
  | offer htype _ => exact mem_addLease hmem hmac (hoffer htype) hunexpired
  | ack _ hfound hown =>
    refine mem_addLease hmem hmac ?_ hunexpired
    intro hnip
    obtain ⟨own, hown', hownMac⟩ := findLeaseByMac_some hfound
    cases hown.symm.trans hown'
    rw [hexclusive.nip.eq_of_mem hmem (List.mem_of_getElem? hown) hnip hzero] at hmac
    exact hmac hownMac
  | decline _ _ hfound => exact hother hfound _
  | release _ hfound => exact hother hfound _

end Sv6x66.Udhcp.LeaseTable
