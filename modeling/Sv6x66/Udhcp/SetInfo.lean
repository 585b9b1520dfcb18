import Sv6x66.Udhcp.Dhcpd

/-! `dhcps_set_info_api`, and what the next `udhcpd_run` makes of the configuration it
leaves. -/
namespace Sv6x66.Udhcp.SetInfo
open Sv6x66.Udhcp.Packet
open Sv6x66.Udhcp.Leases
open Sv6x66.Udhcp.Dhcpd

/-- `dhcps_info`, with the addresses in host order. -/
structure DhcpsInfo where
  startIp : UInt32
  endIp : UInt32
  maxLeases : UInt32
  subnet : UInt32
  gw : UInt32
  dns : UInt32
  autoTime : UInt32
  declineTime : UInt32
  conflictTime : UInt32
  offerTime : UInt32
  maxLeaseSec : UInt32
  minLeaseSec : UInt32

/-- `please_config`, with two times that the server does not read. -/
structure Pending extends PleaseConfig where
  autoTime : UInt32
  conflictTime : UInt32

structure Serving extends ServerConfig where
  autoTime : UInt32
  conflictTime : UInt32

def pendingOf (info : DhcpsInfo) : Pending :=
  { startIp := info.startIp
    endIp := info.endIp
    maxLeases := info.maxLeases
    subnet := info.subnet
    gw := info.gw
    dns := info.dns
    autoTime := info.autoTime
    declineTime := info.declineTime
    conflictTime := info.conflictTime
    offerTime := info.offerTime
    minLeaseSec := info.minLeaseSec
    maxLeaseSec := info.maxLeaseSec }

/-- The returned value and `please_config` afterwards; `allocated` is false if `OS_MemAlloc`
fails. -/
def dhcpsSetInfoApi (pleaseConfig : Option Pending) (ifDhcps : Option DhcpsInfo)
    (ipaddr : UInt32) (allocated : Bool) : Int × Option Pending :=
  match ifDhcps with
  | none => (0, pleaseConfig)
  | some info =>
    let softapIp := htonl ipaddr
    if info.startIp ≤ softapIp ∧ softapIp ≤ info.endIp then (-1, pleaseConfig)
    else
      let softapIp := softapIp >>> 8
      if info.startIp >>> 8 ≠ softapIp ∨ info.endIp >>> 8 ≠ softapIp then (-1, pleaseConfig)
      else if info.endIp - info.startIp > info.maxLeases then (-1, pleaseConfig)
      -- the old configuration is released before the new one is allocated
      else if allocated then (0, some (pendingOf info))
      else (-1, none)

/-- What `udhcpd_run` serves with. -/
def servedConfig (pleaseConfig : Option Pending) (ipaddr gw subnet : UInt32) : Serving :=
  { udhcpdRunConfig (pleaseConfig.map Pending.toPleaseConfig) ipaddr gw subnet with
    autoTime := (pleaseConfig.map Pending.autoTime).getD 7200
    conflictTime := (pleaseConfig.map Pending.conflictTime).getD 3600 }

/-! ### What it is for -/

def addresses (info : DhcpsInfo) : Nat := info.endIp.toNat - info.startIp.toNat + 1

/-- The addresses lie in the segment of the local one, which is not among them, and there
are leases for all of them. -/
structure IsValid (info : DhcpsInfo) (ipaddr : UInt32) : Prop where
  ordered : info.startIp ≤ info.endIp
  startSegment : info.startIp >>> 8 = htonl ipaddr >>> 8
  endSegment : info.endIp >>> 8 = htonl ipaddr >>> 8
  excludes : ¬ (info.startIp ≤ htonl ipaddr ∧ htonl ipaddr ≤ info.endIp)
  fits : addresses info ≤ info.maxLeases.toNat

/-- The range, the times and the limits are the configured ones. -/
structure Serves (config : Serving) (info : DhcpsInfo) : Prop where
  startIp : config.startIp = info.startIp
  endIp : config.endIp = info.endIp
  autoTime : config.autoTime = info.autoTime
  declineTime : config.declineTime = info.declineTime
  conflictTime : config.conflictTime = info.conflictTime
  offerTime : config.offerTime = info.offerTime
  minLeaseSec : config.minLeaseSec = info.minLeaseSec
  maxLeaseSec : config.maxLeaseSec = info.maxLeaseSec
  maxLeases : config.maxLeases = info.maxLeases.toNat

/-- A call returns 0 for a valid configuration only, which the next server has; otherwise
the pending one stays. -/
structure SetsRight (pleaseConfig : Option Pending) (ifDhcps : Option DhcpsInfo)
    (ipaddr : UInt32) (allocated : Bool) : Prop where
  accepts : (dhcpsSetInfoApi pleaseConfig ifDhcps ipaddr allocated).1 = 0 ↔
    ∃ info, ifDhcps = some info ∧ IsValid info ipaddr
  keeps : (dhcpsSetInfoApi pleaseConfig ifDhcps ipaddr allocated).1 ≠ 0 →
    (dhcpsSetInfoApi pleaseConfig ifDhcps ipaddr allocated).2 = pleaseConfig
  serves : (dhcpsSetInfoApi pleaseConfig ifDhcps ipaddr allocated).1 = 0 →
    ∀ info, ifDhcps = some info → ∀ ipaddr' gw subnet,
      Serves (servedConfig (dhcpsSetInfoApi pleaseConfig ifDhcps ipaddr allocated).2
        ipaddr' gw subnet) info

/-- One of the three tests turns the configuration down. -/
def Rejected (info : DhcpsInfo) (ipaddr : UInt32) : Prop :=
  (info.startIp ≤ htonl ipaddr ∧ htonl ipaddr ≤ info.endIp) ∨
    (info.startIp >>> 8 ≠ htonl ipaddr >>> 8 ∨ info.endIp >>> 8 ≠ htonl ipaddr >>> 8) ∨
    info.maxLeases < info.endIp - info.startIp

/-- The configuration is turned down; or it is valid, there is memory for it, the longest
lease is the default one and there are as many leases as addresses; or it is one that
should have been turned down, but there is no memory and nothing was pending. -/
def IsHandled (pleaseConfig : Option Pending) (info : DhcpsInfo) (ipaddr : UInt32)
    (allocated : Bool) : Prop :=
  Rejected info ipaddr ∨
    (IsValid info ipaddr ∧ allocated = true ∧ info.maxLeaseSec = defaultLeaseTime ∧
      info.maxLeases.toNat = addresses info) ∨
    (¬ IsValid info ipaddr ∧ allocated = false ∧ pleaseConfig = none)

/-! ### Every call -/

section

variable (pleaseConfig : Option Pending) {info : DhcpsInfo} {ipaddr : UInt32}

theorem dhcpsSetInfoApi_rejected (h : Rejected info ipaddr) (allocated : Bool) :
    dhcpsSetInfoApi pleaseConfig (some info) ipaddr allocated = (-1, pleaseConfig) := by
  rw [dhcpsSetInfoApi]
  dsimp only
  split
  · rfl
  split
  · rfl
  split
  · rfl
  · rename_i hlocal hsegment hmany
    exact absurd h (not_or.mpr ⟨hlocal, not_or.mpr ⟨hsegment, hmany⟩⟩)

theorem dhcpsSetInfoApi_passed (h : ¬ Rejected info ipaddr) (allocated : Bool) :
    dhcpsSetInfoApi pleaseConfig (some info) ipaddr allocated =
      if allocated then (0, some (pendingOf info)) else (-1, none) := by
  obtain ⟨hlocal, hrest⟩ := not_or.mp h
  obtain ⟨hsegment, hmany⟩ := not_or.mp hrest
  rw [dhcpsSetInfoApi]
  dsimp only
  rw [if_neg hlocal, if_neg hsegment, if_neg hmany]

theorem not_rejected_of_isValid (h : IsValid info ipaddr) : ¬ Rejected info ipaddr := by
  rintro (hlocal | (hstart | hend) | hmany)
  · exact h.excludes hlocal
  · exact hstart h.startSegment
  · exact hend h.endSegment
  · have hfits := h.fits
    rw [UInt32.lt_iff_toNat_lt, UInt32.toNat_sub_of_le _ _ h.ordered] at hmany
    rw [addresses] at hfits
    omega

/-- The next server has the range and the times; its longest lease is the default one, and
it has no more leases than addresses. -/
theorem serves_iff (h : IsValid info ipaddr) (ipaddr' gw subnet : UInt32) :
    Serves (servedConfig (some (pendingOf info)) ipaddr' gw subnet) info ↔
      info.maxLeaseSec = defaultLeaseTime ∧ info.maxLeases.toNat = addresses info := by
  have hfits := h.fits
  have hmax := info.maxLeases.toNat_lt
  have hcount : (info.endIp - info.startIp + 1).toNat = addresses info := by
    rw [UInt32.toNat_add, UInt32.toNat_sub_of_le _ _ h.ordered, addresses]
    rw [addresses] at hfits
    exact Nat.mod_eq_of_lt (by simpa using by omega)
  have hleases : (servedConfig (some (pendingOf info)) ipaddr' gw subnet).maxLeases =
      min info.maxLeases.toNat (info.endIp - info.startIp + 1).toNat := rfl
  rw [hcount] at hleases
  constructor
  · intro hserves
    refine ⟨hserves.maxLeaseSec.symm, ?_⟩
    have heq := hserves.maxLeases
    rw [hleases] at heq
    omega
  · rintro ⟨hsec, hall⟩
    exact ⟨rfl, rfl, rfl, rfl, rfl, rfl, rfl, hsec.symm, by rw [hleases, hall, Nat.min_self]⟩

end

theorem setsRight_iff (pleaseConfig : Option Pending) (ifDhcps : Option DhcpsInfo)
    (ipaddr : UInt32) (allocated : Bool) :
    SetsRight pleaseConfig ifDhcps ipaddr allocated ↔
      ∃ info, ifDhcps = some info ∧ IsHandled pleaseConfig info ipaddr allocated := by
  cases ifDhcps with
  | none =>
    refine iff_of_false (fun h => ?_) ?_
    · obtain ⟨info, hinfo, -⟩ := h.accepts.mp rfl
      cases hinfo
    · rintro ⟨info, hinfo, -⟩
      cases hinfo
  | some info =>
    have hsome (P : DhcpsInfo → Prop) : (∃ other, some info = some other ∧ P other) ↔ P info :=
      ⟨fun ⟨_, heq, h⟩ => Option.some.inj heq ▸ h, fun h => ⟨info, rfl, h⟩⟩
    rw [hsome, IsHandled]
    by_cases hrejected : Rejected info ipaddr
    · have hcall := dhcpsSetInfoApi_rejected pleaseConfig hrejected allocated
      have hinvalid : ¬ IsValid info ipaddr := fun h => not_rejected_of_isValid h hrejected
      have hret : (-1 : Int) ≠ 0 := by decide
      refine iff_of_true ⟨?_, ?_, ?_⟩ (.inl hrejected)
      · rw [hcall, hsome]
        exact iff_of_false hret hinvalid
      · rw [hcall]
        exact fun _ => rfl
      · rw [hcall]
        exact fun h => absurd h hret
    · have hcall := dhcpsSetInfoApi_passed pleaseConfig hrejected allocated
      cases allocated with
      | true =>
        rw [if_pos rfl] at hcall
        constructor
        · intro h
          have hvalid := (hsome _).mp (h.accepts.mp (by rw [hcall]))
          have hserves := h.serves (by rw [hcall]) info rfl 0 0 0
          rw [hcall, serves_iff hvalid] at hserves
          exact .inr (.inl ⟨hvalid, rfl, hserves⟩)
        · rintro (h | ⟨hvalid, -, hlimits⟩ | ⟨-, h, -⟩)
          · exact absurd h hrejected
          · refine ⟨?_, ?_, ?_⟩
            · rw [hcall, hsome]
              exact iff_of_true rfl hvalid
            · rw [hcall]
              exact fun h => absurd rfl h
            · rw [hcall]
              intro _ other hother ipaddr' gw subnet
              cases hother
              exact (serves_iff hvalid ipaddr' gw subnet).mpr hlimits
          · cases h
      | false =>
        rw [if_neg Bool.false_ne_true] at hcall
        constructor
        · intro h
          refine .inr (.inr ⟨fun hvalid => ?_, rfl, ?_⟩)
          · have hret := h.accepts.mpr ((hsome _).mpr hvalid)
            rw [hcall] at hret
            cases hret
          · have hkept := h.keeps (by rw [hcall]; decide)
            rw [hcall] at hkept
            exact hkept.symm
        · rintro (h | ⟨-, h, -⟩ | ⟨hinvalid, -, hnone⟩)
          · exact absurd h hrejected
          · cases h
          · refine ⟨?_, ?_, ?_⟩
            · rw [hcall, hsome]
              exact iff_of_false (by decide) hinvalid
            · rw [hcall, hnone]
              exact fun _ => rfl
            · rw [hcall]
              exact fun h => absurd h (by decide)

/-- Ten addresses of 192.168.4.0/24, with leases of an hour at most. -/
def hourInfo : DhcpsInfo :=
  ⟨0xc0a80464, 0xc0a8046d, 10, 0xffffff00, 0xc0a80401, 0xc0a80401, 7200, 3600, 3600, 60, 3600, 60⟩

/-- `NULL` is a success, and the longest lease does not reach the server: it is ten days. -/
theorem null_accepted :
    ¬ SetsRight none none 0 true ∧
      dhcpsSetInfoApi none (some hourInfo) (htonl 0xc0a80401) true =
        (0, some (pendingOf hourInfo)) ∧
      (servedConfig (some (pendingOf hourInfo)) 0 0 0).maxLeaseSec = 864000 := by
  refine ⟨fun h => ?_, rfl, rfl⟩
  obtain ⟨info, hinfo, -⟩ := h.accepts.mp rfl
  cases hinfo

end Sv6x66.Udhcp.SetInfo
