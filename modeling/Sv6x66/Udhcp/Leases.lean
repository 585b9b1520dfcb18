import Sv6x66.Udhcp.Packet

/-! The lease table of the DHCP server, `leases.c`. -/
namespace Sv6x66.Udhcp.Leases
open Sv6x66.Udhcp.Packet

structure DynLease where
  expires : UInt32
  leaseNip : UInt32
  leaseMac : Mac
  hostname : Vector UInt8 20
  deriving DecidableEq

/-- A lease cleared by `memset`. -/
def noLease : DynLease := ⟨0, 0, Vector.replicate 6 0, Vector.replicate 20 0⟩

/-- The fields of `server_config` that are not constantly zero; `load_config`
leaves `options`, `sname` and `boot_file` so. -/
structure ServerConfig where
  serverNip : UInt32
  startIp : UInt32
  endIp : UInt32
  subnet : UInt32
  gw : UInt32
  dns : UInt32
  maxLeaseSec : UInt32
  minLeaseSec : UInt32
  maxLeases : Nat
  declineTime : UInt32
  offerTime : UInt32
  siaddrNip : UInt32
  staticLeases : List (Mac × UInt32)

/-- The clock as it is read on the way through one packet, and the station list
of the access point. -/
structure LeaseEnv where
  nowCheck : UInt32
  nowSearch : UInt32
  nowSet : UInt32
  offline : Mac → Bool

def getStaticNipByMac (staticLeases : List (Mac × UInt32)) (mac : Mac) : UInt32 :=
  match staticLeases.find? (·.1 = mac) with
  | some lease => lease.2
  | none => 0

def isNipReserved (staticLeases : List (Mac × UInt32)) (nip : UInt32) : Bool :=
  staticLeases.any (·.2 = nip)

/-- The loop of `oldest_expired_lease` over the leases from number `i` on. -/
def oldestExpiredFrom : List DynLease → Nat → UInt32 → Option Nat → Option Nat
  | [], _, _, oldestLease => oldestLease
  | lease :: rest, i, oldestTime, oldestLease =>
    if lease.expires < oldestTime then oldestExpiredFrom rest (i + 1) lease.expires (some i)
    else oldestExpiredFrom rest (i + 1) oldestTime oldestLease

def oldestExpiredLease (leases : List DynLease) (now : UInt32) : Option Nat :=
  oldestExpiredFrom leases 0 now none

def clearLeases (leases : List DynLease) (chaddr : Mac) (yiaddr : UInt32) : List DynLease :=
  leases.map fun lease =>
    if lease.leaseMac = chaddr ∨ yiaddr ≠ 0 ∧ lease.leaseNip = yiaddr then noLease else lease

/-- `strncpy` of the host name and its sanitization. -/
def copyHostname (packet : DhcpPacket) (hostname : Option Nat) : Vector UInt8 20 :=
  match hostname with
  | none => Vector.replicate 20 0
  | some name =>
    let hostnameLen := min ((packet (name - 1)).toNat + 1) 20
    Vector.ofFn fun i =>
      if i < hostnameLen ∧ ∀ j < i.val + 1, packet (name + j) ≠ 0 then
        if packet (name + i) < 0x20 ∨ packet (name + i) > 126 then 0x5e else packet (name + i)
      else 0

def addLease (leases : List DynLease) (env : LeaseEnv) (packet : DhcpPacket) (yiaddr : UInt32)
    (leasetime : UInt32) (hostname : Option Nat) : List DynLease × Option Nat :=
  let leases := clearLeases leases packet.mac yiaddr
  match oldestExpiredLease leases env.nowSearch with
  | none => (leases, none)
  | some oldest =>
    (leases.set oldest
      ⟨env.nowSet + leasetime, yiaddr, packet.mac, copyHostname packet hostname⟩, some oldest)

def isExpiredLease (lease : DynLease) (env : LeaseEnv) : Bool := lease.expires < env.nowCheck

def findLeaseByMac (leases : List DynLease) (mac : Mac) : Option Nat :=
  leases.findIdx? (·.leaseMac = mac)

def findLeaseByNip (leases : List DynLease) (nip : UInt32) : Option DynLease :=
  leases.find? (·.leaseNip = nip)

/-- The loop of `find_free_or_expired_nip` over `left` more addresses; nobody
ever responds to `arpping`. -/
def findFreeFrom (config : ServerConfig) (leases : List DynLease) (env : LeaseEnv) :
    (left : Nat) → (addr : UInt32) → (oldestLease : Option DynLease) → UInt32
  | 0, _, oldestLease => match oldestLease with
    | some lease => lease.leaseNip
    | none => 0
  | left + 1, addr, oldestLease =>
    if addr &&& 0xff = 0 ∨ addr &&& 0xff = 0xff ∨ htonl addr = config.serverNip ∨
        isNipReserved config.staticLeases (htonl addr) = true then
      findFreeFrom config leases env left (addr + 1) oldestLease
    else
      match findLeaseByNip leases (htonl addr) with
      | none => htonl addr
      | some lease =>
        let older := match oldestLease with
          | none => true
          | some oldest => lease.expires < oldest.expires
        if older && env.offline lease.leaseMac then
          findFreeFrom config leases env left (addr + 1) (some lease)
        else findFreeFrom config leases env left (addr + 1) oldestLease

/-- The loop is a do-while: with `end_ip + 1 = start_ip` it goes through all
addresses. -/
def findFreeOrExpiredNip (config : ServerConfig) (leases : List DynLease) (env : LeaseEnv) :
    UInt32 :=
  let count := (config.endIp + 1 - config.startIp).toNat
  findFreeFrom config leases env (if count = 0 then 2 ^ 32 else count) config.startIp none

/-! ### The search finds an expired entry -/

theorem isSome_oldestExpiredFrom (leases : List DynLease) (i : Nat) (oldestTime : UInt32)
    (oldestLease : Option Nat) :
    (oldestExpiredFrom leases i oldestTime oldestLease).isSome ↔
      oldestLease.isSome ∨ ∃ lease ∈ leases, lease.expires < oldestTime := by
  induction leases generalizing i oldestTime oldestLease with
  | nil => simp [oldestExpiredFrom]
  | cons lease rest ih =>
    unfold oldestExpiredFrom
    split
    · rename_i hexpired
      simp [ih, hexpired]
    · rename_i hexpired
      simp [ih, hexpired]

/-! ### The table keeps its size -/

@[simp] theorem length_clearLeases (leases : List DynLease) (chaddr : Mac) (yiaddr : UInt32) :
    (clearLeases leases chaddr yiaddr).length = leases.length := List.length_map _

@[simp] theorem length_addLease (leases : List DynLease) (env : LeaseEnv) (packet : DhcpPacket)
    (yiaddr leasetime : UInt32) (hostname : Option Nat) :
    (addLease leases env packet yiaddr leasetime hostname).1.length = leases.length := by
  simp only [addLease]
  split
  · exact length_clearLeases _ _ _
  · rw [List.length_set, length_clearLeases]

end Sv6x66.Udhcp.Leases
