import Sv6x66.Lib.CString
import Sv6x66.Udhcp.LeaseTable

/-! The host name that `add_lease` keeps. `safe_strncpy` is `strncpy`, which puts no NUL
behind a text that is as long as the bound. -/
namespace Sv6x66.Udhcp.HostName
open Sv6x66.Lib.CString
open Sv6x66.Udhcp.Packet
open Sv6x66.Udhcp.Leases
open Sv6x66.Udhcp.LeaseTable

/-- What `strncpy` makes of its `n` bytes. -/
def strncpy (src : Nat → UInt8) (n : Nat) : Bytes :=
  let text := ((List.range n).map src).takeWhile (· ≠ 0)
  text ++ List.replicate (n - text.length) 0

/-- A character that is kept, or `^`. -/
def sanitized (c : UInt8) : UInt8 := if c < 0x20 ∨ c > 126 then 0x5e else c

/-- The sanitization loop: what it leaves of the memory, and where it reads the NUL. -/
def sanitizeLoop : Bytes → Bytes × Nat
  | [] => ([], 0)
  | c :: p =>
    if c = 0 then (c :: p, 0)
    else (sanitized c :: (sanitizeLoop p).1, (sanitizeLoop p).2 + 1)

/-- `DHCP_HOST_NAME` with the length in front of its data. -/
def hostnameLen (packet : DhcpPacket) (name : Nat) : Nat :=
  min ((packet (name - 1)).toNat + 1) 20

/-- The memory at `oldest->hostname` when the loop starts: the lease was cleared, and ends
with the two bytes `pad`. -/
def copied (packet : DhcpPacket) (name : Nat) (behind : Bytes) : Bytes :=
  strncpy (fun i => packet (name + i)) (hostnameLen packet name) ++
    List.replicate (22 - hostnameLen packet name) 0 ++ behind

/-! ### What it is for -/

/-- The option's own bytes. -/
def optionBytes (packet : DhcpPacket) (name : Nat) : Bytes :=
  (List.range (packet (name - 1)).toNat).map fun i => packet (name + i)

/-- The field is a terminated text, the one of the option. -/
def HoldsName (packet : DhcpPacket) (name : Nat) (hostname : Vector UInt8 20) : Prop :=
  0 ∈ hostname.toList ∧
    cstr hostname.toList = ((cstr (optionBytes packet name)).take 19).map sanitized

/-- The loop stays in the field, whatever follows the lease. -/
def LoopInside (packet : DhcpPacket) (name : Nat) : Prop :=
  ∀ behind, (sanitizeLoop (copied packet name behind)).2 < 20

/-- The option, with the byte right behind it, has a NUL among its first 20 bytes. -/
def HasNul (packet : DhcpPacket) (name : Nat) : Prop :=
  ∃ i < hostnameLen packet name, packet (name + i) = 0

/-! ### The copy -/

/-- A text ends at its first NUL. -/
theorem takeWhile_range (src : Nat → UInt8) (n : Nat) :
    ∃ k ≤ n, ((List.range n).map src).takeWhile (· ≠ 0) = (List.range k).map src ∧
      (∀ i < k, src i ≠ 0) ∧ (k < n → src k = 0) := by
  induction n with
  | zero => exact ⟨0, Nat.le_refl 0, rfl, fun i hi => absurd hi (Nat.not_lt_zero i),
      fun h => absurd h (Nat.lt_irrefl 0)⟩
  | succ n ih =>
    obtain ⟨k, hk, htake, hbefore, hend⟩ := ih
    rw [List.range_succ, List.map_append, List.takeWhile_append]
    rcases Nat.lt_or_eq_of_le hk with hlt | rfl
    · rw [if_neg]
      · exact ⟨k, by omega, htake, hbefore, fun _ => hend hlt⟩
      · rw [htake]
        simp only [List.length_map, List.length_range]
        omega
    · rw [if_pos (by rw [htake])]
      by_cases hzero : src k = 0
      · refine ⟨k, by omega, ?_, hbefore, fun _ => hzero⟩
        simp [hzero]
      · refine ⟨k + 1, Nat.le_refl _, ?_, ?_, fun h => absurd h (Nat.lt_irrefl _)⟩
        · simp [hzero, List.range_succ]
        · intro i hi
          rcases Nat.lt_or_eq_of_le (Nat.le_of_lt_succ hi) with hlt | rfl
          · exact hbefore i hlt
          · exact hzero

theorem sanitizeLoop_text {text : Bytes} (h : 0 ∉ text) (rest : Bytes) :
    sanitizeLoop (text ++ 0 :: rest) = (text.map sanitized ++ 0 :: rest, text.length) := by
  induction text with
  | nil => rfl
  | cons c text ih =>
    rw [List.mem_cons, not_or] at h
    rw [List.cons_append, sanitizeLoop, if_neg (Ne.symm h.1), ih h.2]
    rfl

theorem sanitized_ne_zero {c : UInt8} (h : c ≠ 0) : sanitized c ≠ 0 := by
  rw [sanitized]
  split
  · decide
  · exact h

section

variable (packet : DhcpPacket) (name : Nat)

/-- The text that is copied, and the memory around it. -/
theorem copied_eq :
    ∃ k ≤ hostnameLen packet name,
      (∀ i < k, packet (name + i) ≠ 0) ∧
      (k < hostnameLen packet name → packet (name + k) = 0) ∧
      ∀ behind, copied packet name behind =
        (List.range k).map (fun i => packet (name + i)) ++
          0 :: (List.replicate (21 - k) 0 ++ behind) := by
  obtain ⟨k, hk, htake, hbefore, hend⟩ :=
    takeWhile_range (fun i => packet (name + i)) (hostnameLen packet name)
  have hle : hostnameLen packet name ≤ 20 := Nat.min_le_right _ _
  refine ⟨k, hk, hbefore, hend, fun behind => ?_⟩
  have hzeros : List.replicate (hostnameLen packet name - k) 0 ++
      List.replicate (22 - hostnameLen packet name) 0 = 0 :: List.replicate (21 - k) (0 : UInt8) := by
    rw [← List.replicate_add, ← List.replicate_succ]
    congr 1
    omega
  rw [copied, strncpy, htake, List.length_map, List.length_range, List.append_assoc,
    List.append_assoc, ← List.append_assoc (List.replicate _ _), hzeros]
  rfl

/-- The field is what the loop leaves of the copy. -/
theorem copyHostname_eq (behind : Bytes) :
    (copyHostname packet (some name)).toList =
      (sanitizeLoop (copied packet name behind)).1.take 20 := by
  obtain ⟨k, hk, hbefore, hend, hcopied⟩ := copied_eq packet name
  have htext : 0 ∉ (List.range k).map fun i => packet (name + i) := by
    intro hmem
    obtain ⟨i, hi, hzero⟩ := List.mem_map.mp hmem
    exact hbefore i (List.mem_range.mp hi) hzero
  have hle : hostnameLen packet name ≤ 20 := Nat.min_le_right _ _
  rw [hcopied, sanitizeLoop_text htext]
  apply List.ext_getElem
  · simp
    omega
  · intro i hi hi'
    have hlt : i < 20 := by rwa [Vector.length_toList] at hi
    have hinside : (i < hostnameLen packet name ∧ ∀ j < i + 1, packet (name + j) ≠ 0) ↔
        i < k := by
      constructor
      · rintro ⟨hin, hall⟩
        by_contra hge
        exact hall k (by omega) (hend (by omega))
      · intro hik
        exact ⟨by omega, fun j hj => hbefore j (by omega)⟩
    rw [List.getElem_take, Vector.getElem_toList]
    simp only [copyHostname, Vector.getElem_ofFn]
    rw [hostnameLen] at hinside
    by_cases hik : i < k
    · rw [if_pos (hinside.mpr hik), List.getElem_append_left (by simpa using hik)]
      simp [sanitized]
    · rw [if_neg (fun h => hik (hinside.mp h)), List.getElem_append_right (by simpa using hik)]
      have hzeros : 0 :: (List.replicate (21 - k) 0 ++ behind) =
          List.replicate (22 - k) (0 : UInt8) ++ behind := by
        rw [show 22 - k = 21 - k + 1 by omega]
        rfl
      simp only [hzeros, List.length_map, List.length_range]
      rw [List.getElem_append_left (by simpa using by omega), List.getElem_replicate]

/-! ### Every option -/

theorem hasNul_iff {k : Nat} (hk : k ≤ hostnameLen packet name)
    (hbefore : ∀ i < k, packet (name + i) ≠ 0)
    (hend : k < hostnameLen packet name → packet (name + k) = 0) :
    HasNul packet name ↔ k < hostnameLen packet name := by
  constructor
  · rintro ⟨i, hi, hzero⟩
    by_contra hge
    exact hbefore i (by omega) hzero
  · intro hlt
    exact ⟨k, hlt, hend hlt⟩

/-- The option's text is what is copied if that ends at a NUL. -/
theorem cstr_optionBytes {k : Nat} (hlt : k < hostnameLen packet name)
    (hbefore : ∀ i < k, packet (name + i) ≠ 0) (hend : packet (name + k) = 0) :
    (cstr (optionBytes packet name)).take 19 = (List.range k).map fun i => packet (name + i) := by
  obtain ⟨m, hm, htake, hmbefore, hmend⟩ :=
    takeWhile_range (fun i => packet (name + i)) (packet (name - 1)).toNat
  have hlen : k ≤ (packet (name - 1)).toNat ∧ k ≤ 19 := by
    rw [hostnameLen] at hlt
    omega
  have hmk : m = k := by
    rcases Nat.lt_trichotomy m k with h | h | h
    · exact absurd (hmend (by omega)) (hbefore m h)
    · exact h
    · exact absurd hend (hmbefore k h)
  rw [cstr, optionBytes, htake, hmk, List.take_of_length_le (by simpa using hlen.2)]

/-- What is kept is the name of the option exactly if the copy finds a NUL. -/
theorem holdsName_iff :
    (HoldsName packet name (copyHostname packet (some name)) ∧ LoopInside packet name) ↔
      HasNul packet name := by
  obtain ⟨k, hk, hbefore, hend, hcopied⟩ := copied_eq packet name
  have htext : 0 ∉ (List.range k).map fun i => packet (name + i) := by
    intro hmem
    obtain ⟨i, hi, hzero⟩ := List.mem_map.mp hmem
    exact hbefore i (List.mem_range.mp hi) hzero
  have hloop (behind : Bytes) := sanitizeLoop_text htext (List.replicate (21 - k) 0 ++ behind)
  have hle : hostnameLen packet name ≤ (packet (name - 1)).toNat + 1 := Nat.min_le_left _ _
  rw [hasNul_iff packet name hk hbefore hend]
  have hsanitized : 0 ∉ ((List.range k).map fun i => packet (name + i)).map sanitized := by
    intro hmem
    obtain ⟨c, hc, hzero⟩ := List.mem_map.mp hmem
    exact sanitized_ne_zero (fun h => htext (h ▸ hc)) hzero
  constructor
  · rintro ⟨⟨-, hname⟩, hinside⟩
    have hk20 := hinside []
    rw [hcopied, hloop] at hk20
    simp only [List.length_map, List.length_range] at hk20
    by_contra hge
    have hlong : k = (packet (name - 1)).toNat + 1 := by
      rw [hostnameLen] at hk hge
      omega
    rw [copyHostname_eq packet name [], hcopied, hloop, List.take_append,
      List.take_of_length_le (by simp; omega), cstr_append hsanitized] at hname
    have hlength := congrArg List.length hname
    have hown : (cstr (optionBytes packet name)).length ≤ (packet (name - 1)).toNat :=
      (List.takeWhile_sublist _).length_le.trans_eq (by simp [optionBytes])
    simp only [List.length_append, List.length_map, List.length_range, List.length_take] at hlength
    omega
  · intro hlt
    have hk20 : k < 20 := hlt.trans_le (Nat.min_le_right _ _)
    have hfield : (copyHostname packet (some name)).toList =
        ((List.range k).map fun i => packet (name + i)).map sanitized ++
          0 :: (List.replicate (21 - k) (0 : UInt8) ++ []).take (19 - k) := by
      rw [copyHostname_eq packet name [], hcopied, hloop, List.take_append,
        List.take_of_length_le (by simp; omega), List.length_map, List.length_map,
        List.length_range, show 20 - k = 19 - k + 1 by omega, List.take_succ_cons]
    have hzero (rest : Bytes) : cstr (0 :: rest) = [] := List.takeWhile_cons_of_neg (by decide)
    refine ⟨⟨?_, ?_⟩, fun behind => ?_⟩
    · rw [hfield]
      exact List.mem_append_right _ List.mem_cons_self
    · rw [hfield, cstr_append hsanitized, hzero, List.append_nil,
        cstr_optionBytes packet name hlt hbefore (hend hlt)]
    · rw [hcopied, hloop]
      simpa using hk20

end

/-- The entry that `add_lease` returns holds the name. -/
theorem addLease_holdsName_iff (leases : List DynLease) (env : LeaseEnv) (packet : DhcpPacket)
    (yiaddr leasetime : UInt32) (name : Nat) (oldest : Nat)
    (h : (addLease leases env packet yiaddr leasetime (some name)).2 = some oldest) :
    (∃ entry, (addLease leases env packet yiaddr leasetime (some name)).1[oldest]? = some entry ∧
      HoldsName packet name entry.hostname ∧ LoopInside packet name) ↔ HasNul packet name := by
  rcases addLease_cases leases env packet yiaddr leasetime (some name) with
    hnone | ⟨place, old, hold, -, hset⟩
  · rw [hnone] at h
    cases h
  · rw [hset] at h ⊢
    cases h
    have hplace := (List.getElem?_eq_some_iff.mp hold).1
    rw [List.getElem?_set_self hplace, ← holdsName_iff packet name]
    constructor
    · rintro ⟨entry, heq, hholds⟩
      cases heq
      exact hholds
    · intro hholds
      exact ⟨_, rfl, hholds⟩

/-- A packet whose only option is the host name `abc`. -/
def abcPacket : DhcpPacket := fun i => [0x0c, 3, 97, 98, 99, 0xff].getD (i - optionsOffset) 0

def firstSecond : LeaseEnv := ⟨1, 1, 1, fun _ => true⟩

theorem addLease_holdsName_iff_abc :
    (∃ entry, (addLease [noLease] firstSecond abcPacket 5 60 (some 242)).1[0]? = some entry ∧
      HoldsName abcPacket 242 entry.hostname ∧ LoopInside abcPacket 242) ↔ HasNul abcPacket 242 :=
  addLease_holdsName_iff [noLease] firstSecond abcPacket 5 60 242 0 rfl

/-- The byte behind the name becomes a part of it. -/
theorem abc_spoiled :
    udhcpGetOption abcPacket dhcpHostName = some 242 ∧
      ∃ entry, (addLease [noLease] firstSecond abcPacket 5 60 (some 242)).1[0]? = some entry ∧
        ¬ (HoldsName abcPacket 242 entry.hostname ∧ LoopInside abcPacket 242) := by
  refine ⟨findOption_of_fuel 1 (by decide), _, rfl, ?_⟩
  intro hholds
  obtain ⟨i, hi, hzero⟩ := (holdsName_iff abcPacket 242).mp hholds
  have hlen : hostnameLen abcPacket 242 = 4 := by decide
  rw [hlen] at hi
  interval_cases i <;> exact absurd hzero (by decide)

end Sv6x66.Udhcp.HostName
