import Sv6x66.Udhcp.LeaseTable

/-! Whether a lease expires when its time is over. The seconds of `ssv_time` are those of a
tick in milliseconds that wraps, so the clock falls back by 4294967 seconds every 49 days.
Times since the start are counted in milliseconds without a bound. -/
namespace Sv6x66.Udhcp.LeaseClock
open Sv6x66.Udhcp.Packet
open Sv6x66.Udhcp.Leases
open Sv6x66.Udhcp.LeaseTable

def osGetSysTick (time : Nat) : UInt32 := UInt32.ofNat time

def ssvTime (time : Nat) : UInt32 := osGetSysTick time / 1000

/-- The entry is treated as expired exactly if more than `leasetime` seconds have passed:
by the test on it, and by the search, which may find another expired entry first. -/
def TreatedRight (leases : List DynLease) (i : Nat) (entry : DynLease) (env : LeaseEnv)
    (leasetime : UInt32) (start now : Nat) : Prop :=
  (isExpiredLease entry { env with nowCheck := ssvTime now } = true ↔
    1000 * leasetime.toNat < now - start) ∧
  (oldestExpiredLease leases (ssvTime now) = some i → 1000 * leasetime.toNat < now - start) ∧
  (1000 * leasetime.toNat < now - start → oldestExpiredLease leases (ssvTime now) ≠ none)

/-- If the time is over, the tick has not wrapped since the lease was entered, and the next
full second of the clock has begun. -/
def Noticed (leasetime : UInt32) (start now : Nat) : Prop :=
  1000 * leasetime.toNat < now - start →
    start / 2 ^ 32 = now / 2 ^ 32 ∧
      1000 * (leasetime.toNat + 1) ≤ now - start + start % 2 ^ 32 % 1000

instance (leasetime : UInt32) (start now : Nat) : Decidable (Noticed leasetime start now) :=
  inferInstanceAs (Decidable (_ → _))

/-- Ten days. -/
def longestLease : UInt32 := 864000

/-! ### The clock -/

theorem toNat_ssvTime (time : Nat) : (ssvTime time).toNat = time % 2 ^ 32 / 1000 := by
  rw [ssvTime, osGetSysTick, UInt32.toNat_div, UInt32.toNat_ofNat']
  rfl

theorem toNat_expires {leasetime : UInt32} (hlease : leasetime ≤ longestLease) (start : Nat) :
    (ssvTime start + leasetime).toNat = start % 2 ^ 32 / 1000 + leasetime.toNat := by
  have hle : leasetime.toNat ≤ 864000 := UInt32.le_iff_toNat_le.mp hlease
  rw [UInt32.toNat_add, toNat_ssvTime, Nat.mod_eq_of_lt (by omega)]

/-- Comparing with the stored second is right as long as the clock has not fallen back. -/
theorem expired_iff {leasetime : UInt32} (hlease : leasetime ≤ longestLease) {start now : Nat}
    (hstart : start ≤ now) (hnow : now < start + 2 ^ 31) :
    (ssvTime start + leasetime < ssvTime now ↔ 1000 * leasetime.toNat < now - start) ↔
      Noticed leasetime start now := by
  have hexpires := toNat_expires hlease start
  rw [UInt32.lt_iff_toNat_lt, hexpires, toNat_ssvTime, Noticed]
  omega

/-! ### The search -/

/-- An expired entry is not passed over, though another one may be found. -/
theorem oldestExpiredLease_ne_none {leases : List DynLease} {now : UInt32} {entry : DynLease}
    (hmem : entry ∈ leases) (hexpired : entry.expires < now) :
    oldestExpiredLease leases now ≠ none :=
  Option.isSome_iff_ne_none.mp
    ((isSome_oldestExpiredFrom leases 0 now none).mpr (.inr ⟨entry, hmem, hexpired⟩))

theorem expires_addLease {before : List DynLease} {env : LeaseEnv} {packet : DhcpPacket}
    {yiaddr leasetime : UInt32} {hostname : Option Nat} {place : Nat} {entry : DynLease}
    (hadd : (addLease before env packet yiaddr leasetime hostname).2 = some place)
    (hentry : (addLease before env packet yiaddr leasetime hostname).1[place]? = some entry) :
    entry.expires = env.nowSet + leasetime := by
  rcases addLease_cases before env packet yiaddr leasetime hostname with
    hnone | ⟨oldest, old, hold, -, hset⟩
  · rw [hnone] at hadd
    cases hadd
  · rw [hset] at hadd hentry
    cases hadd
    rw [List.getElem?_set_self (List.getElem?_eq_some_iff.mp hold).1] at hentry
    cases hentry
    rfl

/-- For an entry of `add_lease` that is in the table at a later time. -/
theorem treatedRight_iff (before : List DynLease) (env : LeaseEnv) (packet : DhcpPacket)
    (yiaddr leasetime : UInt32) (hostname : Option Nat) (place : Nat) (leases : List DynLease)
    (i : Nat) (entry : DynLease) (start now : Nat)
    (hset : env.nowSet = ssvTime start)
    (hadd : (addLease before env packet yiaddr leasetime hostname).2 = some place)
    (hentry : (addLease before env packet yiaddr leasetime hostname).1[place]? = some entry)
    (hmem : leases[i]? = some entry) (hlease : leasetime ≤ longestLease)
    (hstart : start ≤ now) (hnow : now < start + 2 ^ 31) :
    TreatedRight leases i entry env leasetime start now ↔ Noticed leasetime start now := by
  have hexpires := expires_addLease hadd hentry
  have htest : isExpiredLease entry { env with nowCheck := ssvTime now } = true ↔
      entry.expires < ssvTime now := decide_eq_true_iff
  have hclock := expired_iff hlease hstart hnow
  rw [← hset, ← hexpires, ← htest] at hclock
  rw [← hclock, TreatedRight]
  refine ⟨And.left, fun hright => ⟨hright, ?_, ?_⟩⟩
  · intro holdest
    obtain ⟨lease, hlease', hexpired⟩ := oldestExpiredLease_expired holdest
    cases hmem.symm.trans hlease'
    exact hright.mp (htest.mpr hexpired)
  · intro hover
    exact oldestExpiredLease_ne_none (List.mem_of_getElem? hmem) (htest.mp (hright.mpr hover))

/-- A table and a clock for one lease of a minute, entered a second before the tick wraps. -/
def beforeWrap : Nat := 2 ^ 32 - 1000

def lateEnv : LeaseEnv := ⟨ssvTime beforeWrap, ssvTime beforeWrap, ssvTime beforeWrap, fun _ => true⟩

def lateEntry : DynLease :=
  ⟨ssvTime beforeWrap + 60, 5, Vector.replicate 6 0, Vector.replicate 20 0⟩

theorem treatedRight_iff_late :
    TreatedRight [lateEntry] 0 lateEntry lateEnv 60 beforeWrap (beforeWrap + 30000) ↔
      Noticed 60 beforeWrap (beforeWrap + 30000) :=
  treatedRight_iff [noLease] lateEnv (fun _ => 0) 5 60 none 0 [lateEntry] 0 lateEntry beforeWrap
    (beforeWrap + 30000) rfl (by decide) (by decide) rfl (by decide) (by decide)
    (by decide)

/-- A day later the lease of a minute still counts as running. -/
theorem lateEntry_stays :
    isExpiredLease lateEntry { lateEnv with nowCheck := ssvTime (beforeWrap + 86400000) } = false ∧
      ¬ TreatedRight [lateEntry] 0 lateEntry lateEnv 60 beforeWrap (beforeWrap + 86400000) := by
  have hfresh : isExpiredLease lateEntry
      { lateEnv with nowCheck := ssvTime (beforeWrap + 86400000) } = false := by decide
  refine ⟨hfresh, fun hright => ?_⟩
  have hexpired := hright.1.mpr (by decide)
  rw [hfresh] at hexpired
  cases hexpired

end Sv6x66.Udhcp.LeaseClock
