import Sv6x66.Udhcp.Dhcpd

/-! `dhcpd_lease_get_api`, which copies the leases in use into an array of its caller, and
`dhcpd_lease_show`, which prints what fits on its stack. -/
namespace Sv6x66.Udhcp.LeaseList
open Sv6x66.Lib
open Sv6x66.Udhcp.Packet
open Sv6x66.Udhcp.Leases
open Sv6x66.Udhcp.Dhcpd

/-- The loop, with `*count` leases copied so far. A copy behind the array has no result. -/
def leaseGetLoop (size : Int) : List DynLease → List DynLease → Nat →
    Option (List DynLease × Nat)
  | [], lease, count => some (lease, count)
  | entry :: gLeases, lease, count =>
    if entry.leaseNip ≠ 0 then
      if (count : Int) > size then some (lease, count)
      else if count < lease.length then
        leaseGetLoop size gLeases (lease.set count entry) (count + 1)
      else none
    else leaseGetLoop size gLeases lease count

/-- The returned value, the array and `*count`; `none` among the arguments is `NULL`. -/
def dhcpdLeaseGetApi (gLeases lease : Option (List DynLease)) (count : Option Int) :
    Option (Int × Option (List DynLease) × Option Int) :=
  match gLeases, lease, count with
  | some gLeases, some lease, some size =>
    (leaseGetLoop size gLeases lease 0).map fun after => (0, some after.1, some (after.2 : Int))
  | _, lease, count => some (-1, lease, count)

/-- The lines that `dhcpd_lease_show` prints, with what its stack holds before. -/
def dhcpdLeaseShow (gLeases : Option (List DynLease)) (stack : Vector DynLease 10) :
    Option (List (Mac × UInt32)) := do
  let (ret, lease, count) ← dhcpdLeaseGetApi gLeases (some stack.toList) (some 10)
  if ret = 0 then
    some (((lease.getD []).take (count.getD 0).toNat).map fun entry =>
      (entry.leaseMac, entry.leaseNip))
  else some []

/-! ### What it is for -/

/-- The leases in use. -/
def inUse (gLeases : List DynLease) : List DynLease := gLeases.filter (·.leaseNip ≠ 0)

/-- The array holds the first leases in use, as many as it has room for, and `*count` says
how many. -/
def Lists (gLeases lease : List DynLease) : Prop :=
  let listed := (inUse gLeases).take lease.length
  dhcpdLeaseGetApi (some gLeases) (some lease) (some lease.length) =
    some (0, some (listed ++ lease.drop listed.length), some (listed.length : Int))

/-! ### The loop -/

theorem inUse_cons_used {entry : DynLease} (h : entry.leaseNip ≠ 0) (gLeases : List DynLease) :
    inUse (entry :: gLeases) = entry :: inUse gLeases :=
  List.filter_cons_of_pos (by simpa using h)

theorem inUse_cons_unused {entry : DynLease} (h : entry.leaseNip = 0) (gLeases : List DynLease) :
    inUse (entry :: gLeases) = inUse gLeases :=
  List.filter_cons_of_neg (by simpa using h)

/-- With room for all leases in use they are appended to the ones copied before. -/
theorem leaseGetLoop_of_fits (gLeases copied room : List DynLease)
    (h : (inUse gLeases).length ≤ room.length) :
    leaseGetLoop (copied ++ room).length gLeases (copied ++ room) copied.length =
      some (copied ++ (inUse gLeases ++ room.drop (inUse gLeases).length),
        copied.length + (inUse gLeases).length) := by
  induction gLeases generalizing copied room with
  | nil => rfl
  | cons entry gLeases ih =>
    rw [leaseGetLoop]
    by_cases hused : entry.leaseNip ≠ 0
    · rw [inUse_cons_used hused, List.length_cons] at h
      cases room with
      | nil => cases h
      | cons slot room =>
        have hfits : (inUse gLeases).length ≤ room.length := Nat.le_of_succ_le_succ h
        have hnext := ih (copied ++ [entry]) room hfits
        have hset : (copied ++ slot :: room).set copied.length entry =
            copied ++ [entry] ++ room := by simp
        have hsize : (copied ++ slot :: room).length = (copied ++ [entry] ++ room).length := by
          simp
        have hroom : copied.length < (copied ++ slot :: room).length := by simp
        rw [if_pos hused, if_neg (by omega), if_pos hroom, hset, hsize]
        have hcopied : (copied ++ [entry]).length = copied.length + 1 := List.length_append
        rw [hcopied] at hnext
        rw [hnext, inUse_cons_used hused]
        simp only [List.append_assoc, List.cons_append, List.nil_append, List.length_cons,
          List.drop_succ_cons]
        congr 2
        omega
    · have hunused : entry.leaseNip = 0 := not_not.mp hused
      rw [inUse_cons_unused hunused] at h ⊢
      rw [if_neg hused, ih _ _ h]

/-- The lease behind the last one there is room for is copied behind the array: the bound
is tested with one lease too many. -/
theorem leaseGetLoop_of_more (gLeases copied room : List DynLease)
    (h : room.length < (inUse gLeases).length) :
    leaseGetLoop (copied ++ room).length gLeases (copied ++ room) copied.length = none := by
  induction gLeases generalizing copied room with
  | nil => cases h
  | cons entry gLeases ih =>
    rw [leaseGetLoop]
    by_cases hused : entry.leaseNip ≠ 0
    · rw [inUse_cons_used hused, List.length_cons] at h
      have hlength : (copied ++ room).length = copied.length + room.length := List.length_append
      rw [if_pos hused, if_neg (by omega)]
      cases room with
      | nil => exact if_neg (by simp)
      | cons slot room =>
        have hnext := ih (copied ++ [entry]) room (Nat.lt_of_succ_lt_succ h)
        have hset : (copied ++ slot :: room).set copied.length entry =
            copied ++ [entry] ++ room := by simp
        have hsize : (copied ++ slot :: room).length = (copied ++ [entry] ++ room).length := by
          simp
        have hcopied : (copied ++ [entry]).length = copied.length + 1 := List.length_append
        rw [hcopied] at hnext
        rw [if_pos (by simp), hset, hsize]
        exact hnext
    · have hunused : entry.leaseNip = 0 := not_not.mp hused
      rw [inUse_cons_unused hunused] at h
      rw [if_neg hused, ih _ _ h]

/-! ### Every table and every array -/

theorem lists_iff (gLeases lease : List DynLease) :
    Lists gLeases lease ↔ (inUse gLeases).length ≤ lease.length := by
  have hfits := leaseGetLoop_of_fits gLeases [] lease
  have hmore := leaseGetLoop_of_more gLeases [] lease
  simp only [List.nil_append, List.length_nil, Nat.zero_add] at hfits hmore
  unfold Lists dhcpdLeaseGetApi
  dsimp only
  constructor
  · intro h
    by_contra hlong
    rw [hmore (not_le.mp hlong)] at h
    cases h
  · intro h
    rw [hfits h, List.take_of_length_le h]
    rfl

/-- Eleven leases overrun the array that `dhcpd_lease_show` has on its stack. -/
theorem elevenLeases_overrun :
    ¬ Lists (List.replicate 11 ⟨100, 1, Vector.replicate 6 1, Vector.replicate 20 0⟩)
      (List.replicate 10 noLease) := by
  rw [lists_iff]
  decide

/-! ### The caller -/

theorem dhcpdLeaseShow_eq_some {gLeases : List DynLease} (h : (inUse gLeases).length ≤ 10)
    (stack : Vector DynLease 10) :
    dhcpdLeaseShow (some gLeases) stack =
      some ((inUse gLeases).map fun entry => (entry.leaseMac, entry.leaseNip)) := by
  have hlength : stack.toList.length = 10 := Vector.length_toList
  have hlists := (lists_iff gLeases stack.toList).mpr (h.trans_eq hlength.symm)
  rw [Lists, hlength, List.take_of_length_le h] at hlists
  rw [dhcpdLeaseShow]
  have hcall : dhcpdLeaseGetApi (some gLeases) (some stack.toList) (some 10) = _ := hlists
  rw [hcall]
  simp

theorem length_inUse_le (gLeases : List DynLease) : (inUse gLeases).length ≤ gLeases.length :=
  List.length_filter_le _ _

/-- A server with at most ten leases lists them all whenever it is asked. -/
theorem dhcpdLeaseShow_of_run {config : ServerConfig} (hconfig : config.maxLeases ≤ 10)
    {events : List Event} {s : Server} (hrun : Run step anyStep (udhcpdStart config) events s)
    (stack : Vector DynLease 10) :
    dhcpdLeaseShow (some s.gLeases) stack =
      some ((inUse s.gLeases).map fun entry => (entry.leaseMac, entry.leaseNip)) := by
  apply dhcpdLeaseShow_eq_some
  have hlength := length_gLeases hrun
  have hinUse := length_inUse_le s.gLeases
  omega

/-- That is so with the configuration of `load_config`. -/
theorem maxLeases_udhcpdRunConfig_none (ipaddr gw subnet : UInt32) :
    (udhcpdRunConfig none ipaddr gw subnet).maxLeases ≤ 10 := Nat.min_le_left _ _

end Sv6x66.Udhcp.LeaseList
