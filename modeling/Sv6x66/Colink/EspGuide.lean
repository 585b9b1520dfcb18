import Sv6x66.Colink.EspDecode
import Sv6x66.Lib.SeenMask

/-! The guide packets of `esp_touch.c`: the lengths seen are bits of `packet_count`,
relative to the length that came first. -/
namespace Sv6x66.Colink.EspGuide
open Sv6x66.Lib EspTouch

/-! ### The two loops -/

theorem shiftOut_odd {odd : Nat} (hodd : odd % 2 = 1) {zeros rounds : Nat} (h : zeros ≤ rounds) :
    shiftOut rounds (odd <<< zeros) = (odd, zeros) := by
  induction rounds generalizing zeros with
  | zero =>
    obtain rfl : zeros = 0 := by omega
    rfl
  | succ rounds ih =>
    cases zeros with
    | zero =>
      unfold shiftOut
      rw [Nat.shiftLeft_zero, if_neg (by omega)]
    | succ zeros =>
      obtain ⟨heven, hhalf⟩ := shiftLeft_div_two odd zeros
      unfold shiftOut
      rw [if_pos heven, hhalf, ih (by omega)]

/-- Eight rounds are what the loops take for a byte that is not zero. -/
theorem shiftOut_returns {count : UInt8} (h : count ≠ 0) :
    Returns dropZero (count.toNat, 0) (shiftOut 8 count.toNat) := by
  have hne : count.toNat ≠ 0 := fun heq => h (UInt8.toNat_inj.mp heq)
  obtain ⟨odd, zeros, hodd, hcount⟩ := exists_odd_shiftLeft hne
  have hzeros : zeros ≤ 8 := by
    by_contra hlt
    have hbyte := count.toNat_lt
    have hpow : 2 ^ 8 ≤ 2 ^ zeros := Nat.pow_le_pow_right (by omega) (by omega)
    have hle : 1 * 2 ^ zeros ≤ odd * 2 ^ zeros := Nat.mul_le_mul_right _ (by omega)
    rw [hcount, Nat.shiftLeft_eq] at hbyte
    omega
  rw [hcount, shiftOut_odd hodd hzeros]
  have hreturns := dropZero_returns hodd zeros 0
  rwa [zero_add] at hreturns

/-- The loops return, when a frame of this length comes to them. -/
def LoopsReturn (s : Smnt) (length : Nat) : Prop :=
  guideDiff s.offsetLen length < guidePacketNum →
    Returns dropZero ((s.packetCount ||| guideBit s.offsetLen length).toNat, 0)
      (shiftOut 8 (s.packetCount ||| guideBit s.offsetLen length).toNat)

/-- The place of a length: `0x08` is that of `offset_len`. -/
theorem guideBit_toNat {offsetLen : UInt16} {length low base j : Nat}
    (hoffset : offsetLen.toNat = low + base) (hlength : length = low + j) (hbase : base < 4)
    (hj : j < 4) :
    guideDiff offsetLen length < guidePacketNum ∧
      (guideBit offsetLen length).toNat = 1 <<< j <<< (3 - base) := by
  have hdiff : guideDiff offsetLen length = if base > j then base - j else j - base := by
    unfold guideDiff
    rw [hoffset, hlength]
    split <;> split <;> omega
  have hlonger : offsetLen.toNat > length ↔ base > j := by omega
  unfold guideBit
  simp only [hdiff, hlonger, guidePacketNum]
  clear hdiff hlonger hoffset hlength
  interval_cases base <;> interval_cases j <;> decide

theorem guideBit_ne_zero {offsetLen : UInt16} {length : Nat}
    (h : guideDiff offsetLen length < guidePacketNum) : guideBit offsetLen length ≠ 0 := by
  unfold guideBit
  simp only [guidePacketNum] at h
  generalize guideDiff offsetLen length = diff at h ⊢
  split <;> interval_cases diff <;> decide

theorem loopsReturn (s : Smnt) (length : Nat) : LoopsReturn s length := by
  intro hdiff
  apply shiftOut_returns
  intro hzero
  exact guideBit_ne_zero hdiff (UInt8.or_eq_zero_iff.mp hzero).2

/-! ### The guide -/

/-- Where guide packets come from and go to, and what their lengths have beyond
their codes. -/
structure Guide where
  src : Mac
  dest : Mac
  overhead : Nat
  multicast : MacMulticast dest
  sameGroup : SameGroup dest

namespace Guide

variable (guide : Guide)

/-- The shortest is that of code 0. -/
def length (code : Nat) : Nat := 512 + guide.overhead + code

def Sends (f : Frame) : Prop :=
  f.pSrc = guide.src ∧ f.pDest = guide.dest ∧ ∃ code < 4, f.length = guide.length code

def codeOf (f : Frame) : Nat := f.length - guide.length 0

/-- All four lengths are among the frames. -/
def Complete (frames : List Frame) : Prop :=
  ∀ code < 4, ∃ f ∈ frames, f.length = guide.length code

variable {guide}

theorem Sends.code_lt {f : Frame} (h : guide.Sends f) : guide.codeOf f < 4 := by
  obtain ⟨-, -, code, hcode, hlength⟩ := h
  unfold codeOf
  rw [hlength]
  simp only [length]
  omega

theorem Sends.length_eq {f : Frame} (h : guide.Sends f) :
    f.length = guide.length (guide.codeOf f) := by
  obtain ⟨-, -, code, hcode, hlength⟩ := h
  unfold codeOf
  rw [hlength]
  simp only [length]
  omega

theorem complete_iff {frames : List Frame} (hframes : ∀ f ∈ frames, guide.Sends f) :
    guide.Complete frames ↔ mask (frames.map guide.codeOf) = 15 := by
  have hcodes : ∀ code ∈ frames.map guide.codeOf, code < 4 := by
    intro code hcode
    obtain ⟨f, hf, rfl⟩ := List.mem_map.mp hcode
    exact (hframes f hf).code_lt
  rw [show 15 = 2 ^ 4 - 1 from rfl, mask_eq_full_iff hcodes]
  apply forall₂_congr
  intro code hcode
  rw [List.mem_map]
  apply exists_congr
  intro f
  apply and_congr_right
  intro hf
  rw [(hframes f hf).length_eq]
  simp only [length]
  omega

end Guide

/-! ### One frame -/

/-- The lengths of these frames are in `packet_count`, relative to `base`. -/
structure Guiding (guide : Guide) (frames : List Frame) (s : Smnt) : Prop where
  locking : s.state = .locking
  source : s.syncAppMac = guide.src
  group : s.groupAddr = guide.dest 3
  counted : ∃ base < 4, s.offsetLen.toNat = guide.length base ∧
    s.packetCount.toNat = mask (frames.map guide.codeOf) <<< (3 - base)

structure LockedOn (guide : Guide) (s : Smnt) : Prop where
  locked : s.state = .locked
  source : s.syncAppMac = guide.src
  overhead : s.offsetLen.toNat = guide.overhead

/-- The receiver looks for a lock, and no guide of this source and group is under
way. -/
structure Searching (guide : Guide) (s : Smnt) : Prop where
  locking : s.state = .locking
  other : s.syncAppMac ≠ guide.src ∨ s.groupAddr ≠ guide.dest 3

/-- An overhead that a lock can have: the four lengths fit `offset_len`. -/
def Guide.Fits (guide : Guide) : Prop := 3 ≤ guide.overhead ∧ guide.length 3 < 2 ^ 16

theorem shiftOut_full_iff {n base : Nat} (hzero : n ≠ 0) (hn : n < 16) (hbase : base < 4) :
    (shiftOut 8 (n <<< (3 - base))).1 = 0x0F ↔ n = 15 := by
  obtain ⟨odd, zeros, hodd, rfl⟩ := exists_odd_shiftLeft hzero
  have hzeros : zeros < 4 := by
    by_contra hle
    have hpow : 2 ^ 4 ≤ 2 ^ zeros := Nat.pow_le_pow_right (by omega) (by omega)
    have hmul : 1 * 2 ^ zeros ≤ odd * 2 ^ zeros := Nat.mul_le_mul_right _ (by omega)
    rw [Nat.shiftLeft_eq] at hn
    omega
  rw [← Nat.shiftLeft_add, shiftOut_odd hodd (by omega)]
  rw [Nat.shiftLeft_eq] at hn ⊢
  interval_cases zeros <;> omega

section Frames

variable {guide : Guide} {frames : List Frame} {s : Smnt} {f : Frame}

theorem datahandler_searching (hfits : guide.Fits) (hlocking : s.state = .locking)
    (hf : guide.Sends f) :
    esptouchSmntDatahandler s f = some (
      if s.syncAppMac = guide.src then guidePacket s guide.dest f.pBssid f.length
      else { guideFirst { s with syncAppMac := guide.src } guide.dest f.length with
        chCurrentProbability := stepMulticastHoldChannel }) := by
  obtain ⟨hsrc, hdest, code, hcode, hlength⟩ := hf
  have hguide : f.length ≥ espTouchGuideCode := by
    have := hfits.1
    rw [hlength]
    simp only [espTouchGuideCode, Guide.length]
    omega
  unfold esptouchSmntDatahandler
  simp only [hlocking, hsrc, hdest, guide.multicast, guide.sameGroup, hguide, reduceCtorEq,
    not_true_eq_false, if_true, if_false, and_self, eq_comm (a := guide.src)]
  split <;> rfl

/-- The first frame of all is only looked at for its source. -/
theorem searching_init (hgroup : guide.dest 3 ≠ 0xFF) (hf : guide.Sends f) :
    ∃ t, esptouchSmntDatahandler esptouchSmntInit f = some t ∧ Searching guide t := by
  obtain ⟨hsrc, hdest, -⟩ := hf
  refine ⟨{ esptouchSmntInit with state := .locking, syncAppMac := guide.src }, ?_, rfl,
    Or.inr (Ne.symm hgroup)⟩
  unfold esptouchSmntDatahandler
  simp [esptouchSmntInit, hsrc, hdest, guide.multicast]

theorem Searching.first (h : Searching guide s) (hfits : guide.Fits) (hf : guide.Sends f) :
    ∃ t, esptouchSmntDatahandler s f = some t ∧ Guiding guide [f] t := by
  have hcode := hf.code_lt
  have hlength := hf.length_eq
  have hoffset : (UInt16.ofNat f.length).toNat = guide.length (guide.codeOf f) := by
    have hlt := hfits.2
    rw [UInt16.toNat_ofNat', Nat.mod_eq_of_lt, hlength]
    rw [hlength]
    simp only [Guide.length] at hlt ⊢
    omega
  have hcount : (0x08 : UInt8).toNat =
      mask ([f].map guide.codeOf) <<< (3 - guide.codeOf f) := by
    rw [List.map_singleton, mask_singleton, ← Nat.shiftLeft_add,
      show guide.codeOf f + (3 - guide.codeOf f) = 3 by omega]
    rfl
  refine ⟨_, datahandler_searching hfits h.locking hf, ?_⟩
  split
  · rename_i hsource
    have hgroup : s.groupAddr ≠ guide.dest 3 := h.other.resolve_left (not_not.mpr hsource)
    unfold guidePacket
    rw [if_pos guide.sameGroup, if_neg hgroup]
    exact ⟨h.locking, hsource, rfl, _, hcode, hoffset, hcount⟩
  · exact ⟨h.locking, rfl, rfl, _, hcode, hoffset, hcount⟩

/-- A guide length goes in beside the others. -/
theorem packetCount_again {base : Nat} (hbase : base < 4)
    (hoffset : s.offsetLen.toNat = guide.length base)
    (hcount : s.packetCount.toNat = mask (frames.map guide.codeOf) <<< (3 - base))
    (hf : guide.Sends f) :
    guideDiff s.offsetLen f.length < guidePacketNum ∧
      (s.packetCount ||| guideBit s.offsetLen f.length).toNat =
        mask ((frames ++ [f]).map guide.codeOf) <<< (3 - base) := by
  obtain ⟨hdiff, hbit⟩ := guideBit_toNat hoffset hf.length_eq hbase hf.code_lt
  refine ⟨hdiff, ?_⟩
  rw [UInt8.toNat_or, hcount, hbit, ← Nat.shiftLeft_or_distrib, List.map_append,
    List.map_singleton, mask_append]

theorem lock_offset {base : Nat} (hfits : guide.Fits) (hbase : base < 4)
    (hoffset : s.offsetLen.toNat = guide.length base) (pBssid : Mac) :
    (lock s pBssid (3 - base)).offsetLen.toNat = guide.overhead := by
  obtain ⟨hthree, hlt⟩ := hfits
  simp only [Guide.length] at hoffset hlt
  unfold lock
  rw [UInt16.toNat_sub, UInt16.toNat_add, UInt16.toNat_ofNat', UInt16.toNat_ofNat', hoffset]
  simp only [espTouchGuideCode]
  omega

/-- A further guide packet locks when it is the last of the four. -/
theorem Guiding.again (h : Guiding guide frames s) (hfits : guide.Fits)
    (hframes : ∀ f ∈ frames, guide.Sends f) (hf : guide.Sends f) :
    ∃ t, esptouchSmntDatahandler s f = some t ∧
      (guide.Complete (frames ++ [f]) → LockedOn guide t) ∧
      (¬ guide.Complete (frames ++ [f]) → Guiding guide (frames ++ [f]) t) := by
  have hall : ∀ g ∈ frames ++ [f], guide.Sends g := by
    simp only [List.mem_append, List.mem_singleton]
    rintro g (hg | rfl)
    · exact hframes g hg
    · exact hf
  obtain ⟨base, hbase, hoffset, hcount⟩ := h.counted
  obtain ⟨hdiff, hbit⟩ := packetCount_again hbase hoffset hcount hf
  have hmask : mask ((frames ++ [f]).map guide.codeOf) < 16 := by
    apply mask_lt (n := 4)
    intro code hcode
    obtain ⟨g, hg, rfl⟩ := List.mem_map.mp hcode
    exact (hall g hg).code_lt
  have hzero : mask ((frames ++ [f]).map guide.codeOf) ≠ 0 :=
    mask_ne_zero (List.mem_map_of_mem (List.mem_append_right _ (List.mem_singleton_self f)))
  have hfull := shiftOut_full_iff hzero hmask hbase
  rw [← Guide.complete_iff hall] at hfull
  refine ⟨_, datahandler_searching hfits h.locking hf, ?_⟩
  rw [if_pos h.source]
  unfold guidePacket
  rw [if_pos guide.sameGroup, if_pos h.group]
  unfold guideAgain
  rw [if_pos hdiff]
  dsimp only
  rw [hbit]
  constructor
  · intro hcomplete
    have hshifts : shiftOut 8 (mask ((frames ++ [f]).map guide.codeOf) <<< (3 - base)) =
        (15, 3 - base) := by
      rw [(Guide.complete_iff hall).mp hcomplete]
      exact shiftOut_odd (by omega) (by omega)
    rw [if_pos (hfull.mpr hcomplete), hshifts]
    exact ⟨rfl, h.source, lock_offset hfits hbase hoffset f.pBssid⟩
  · intro hopen
    rw [if_neg (mt hfull.mp hopen)]
    exact ⟨h.locking, h.source, h.group, base, hbase, hoffset, hbit⟩

/-- A guide packet behind the lock is too long for a datum. -/
theorem LockedOn.again (h : LockedOn guide s) (hf : guide.Sends f) :
    ∃ t, esptouchSmntDatahandler s f = some t ∧ LockedOn guide t := by
  obtain ⟨hsrc, hdest, code, hcode, hlength⟩ := hf
  have hlong : (f.length : Int) - ((holdChannel s).offsetLen.toNat + espTouchPacketSub : Nat) ≥
      (espTouchMaxNum + 0x100 : Nat) := by
    change (f.length : Int) - (s.offsetLen.toNat + espTouchPacketSub : Nat) ≥ _
    rw [h.overhead, hlength]
    simp only [Guide.length, espTouchPacketSub, espTouchMaxNum]
    omega
  have htake : takePacket s guide.dest f.length = some (.ignored, holdChannel s) := by
    unfold takePacket
    rw [if_neg (not_not.mpr guide.sameGroup)]
    dsimp only
    rw [if_pos hlong]
  refine ⟨holdChannel s, ?_, h.locked, h.source, h.overhead⟩
  unfold esptouchSmntDatahandler esptouchSmntMuticastadd
  simp [h.locked, h.source, hsrc, hdest, guide.multicast, htake]

end Frames

/-! ### The frames of a guide -/

section Runs

variable {guide : Guide} {s : Smnt} {frames : List Frame}

theorem Guide.Complete.mono {frames' : List Frame} (h : guide.Complete frames)
    (hsub : frames ⊆ frames') : guide.Complete frames' := by
  intro code hcode
  obtain ⟨f, hf, hlength⟩ := h code hcode
  exact ⟨f, hsub hf, hlength⟩

theorem Guide.not_complete_singleton (f : Frame) : ¬ guide.Complete [f] := by
  intro h
  obtain ⟨g, hg, hzero⟩ := h 0 (by omega)
  obtain ⟨g', hg', hone⟩ := h 1 (by omega)
  rw [List.mem_singleton.mp hg] at hzero
  rw [List.mem_singleton.mp hg', hzero] at hone
  simp only [Guide.length] at hone
  omega

theorem LockedOn.run (h : LockedOn guide s) (hframes : ∀ f ∈ frames, guide.Sends f) :
    ∃ t, frames.foldlM esptouchSmntDatahandler s = some t ∧ LockedOn guide t := by
  induction frames generalizing s with
  | nil => exact ⟨s, rfl, h⟩
  | cons f frames ih =>
    obtain ⟨hf, hrest⟩ := List.forall_mem_cons.mp hframes
    obtain ⟨u, hu, hlocked⟩ := h.again hf
    obtain ⟨t, ht, hlast⟩ := ih hlocked hrest
    refine ⟨t, ?_, hlast⟩
    rw [List.foldlM_cons, hu]
    exact ht

/-- `seen` are the frames taken, `frames` those to come. -/
theorem Guiding.run {seen : List Frame} (h : Guiding guide seen s) (hfits : guide.Fits)
    (hseen : ∀ f ∈ seen, guide.Sends f) (hopen : ¬ guide.Complete seen)
    (hframes : ∀ f ∈ frames, guide.Sends f) :
    ∃ t, frames.foldlM esptouchSmntDatahandler s = some t ∧
      (guide.Complete (seen ++ frames) → LockedOn guide t) ∧
      (¬ guide.Complete (seen ++ frames) → Guiding guide (seen ++ frames) t) := by
  induction frames generalizing seen s with
  | nil =>
    rw [List.append_nil]
    exact ⟨s, rfl, fun hcomplete => absurd hcomplete hopen, fun _ => h⟩
  | cons f frames ih =>
    obtain ⟨hf, hrest⟩ := List.forall_mem_cons.mp hframes
    have hall : ∀ g ∈ seen ++ [f], guide.Sends g :=
      List.forall_mem_append.mpr ⟨hseen, List.forall_mem_singleton.mpr hf⟩
    obtain ⟨u, hu, hlocks, hgoes⟩ := h.again hfits hseen hf
    have hsplit : seen ++ f :: frames = seen ++ [f] ++ frames := by simp
    rw [hsplit, List.foldlM_cons, hu]
    by_cases hcomplete : guide.Complete (seen ++ [f])
    · obtain ⟨t, ht, hlast⟩ := (hlocks hcomplete).run hrest
      have hlater := hcomplete.mono (List.subset_append_left _ frames)
      exact ⟨t, ht, fun _ => hlast, fun hnot => absurd hlater hnot⟩
    · exact ih (hgoes hcomplete) hall hcomplete hrest

/-- After these frames. -/
structure Follows (guide : Guide) (frames : List Frame) (t : Smnt) : Prop where
  loops : ∀ f, guide.Sends f → LoopsReturn t f.length
  locking : ¬ guide.Complete frames → t.state = .locking
  locked : guide.Complete frames → t.state = .locked ∧ t.offsetLen.toNat = guide.overhead

end Runs

/-- The receiver is locked from the frame on that completes the four lengths. -/
theorem follows_of_searching (guide : Guide) (s : Smnt) (frames : List Frame)
    (hsearching : Searching guide s) (hfits : guide.Fits)
    (hframes : ∀ f ∈ frames, guide.Sends f) :
    ∃ t, frames.foldlM esptouchSmntDatahandler s = some t ∧ Follows guide frames t := by
  cases frames with
  | nil =>
    refine ⟨s, rfl, fun f _ => loopsReturn s f.length, fun _ => hsearching.locking, ?_⟩
    intro hcomplete
    obtain ⟨f, hf, -⟩ := hcomplete 0 (by omega)
    cases hf
  | cons f frames =>
    obtain ⟨hf, hrest⟩ := List.forall_mem_cons.mp hframes
    obtain ⟨u, hu, hguiding⟩ := hsearching.first hfits hf
    obtain ⟨t, ht, hlocks, hgoes⟩ := hguiding.run hfits (List.forall_mem_singleton.mpr hf)
      (Guide.not_complete_singleton f) hrest
    refine ⟨t, ?_, fun g _ => loopsReturn t g.length, fun hopen => (hgoes hopen).locking, ?_⟩
    · rw [List.foldlM_cons, hu]
      exact ht
    · intro hcomplete
      exact ⟨(hlocks hcomplete).locked, (hlocks hcomplete).overhead⟩

/-! ### A phone -/

def guideOf (phone : EspDecode.Phone) (group : UInt8) : Guide where
  src := phone.src
  dest := EspDecode.groupMac group
  overhead := phone.overhead
  multicast := EspDecode.macMulticast_groupMac group
  sameGroup := EspDecode.sameGroup_groupMac group

def guideFramesOf (phone : EspDecode.Phone) (group : UInt8) (codes : List Nat) : List Frame :=
  codes.map fun code => phone.frame group (472 + code)

theorem sends_guideFramesOf (phone : EspDecode.Phone) (group : UInt8) {codes : List Nat}
    (hcodes : ∀ code ∈ codes, code < 4) :
    ∀ f ∈ guideFramesOf phone group codes, (guideOf phone group).Sends f := by
  intro f hf
  obtain ⟨code, hcode, rfl⟩ := List.mem_map.mp hf
  refine ⟨phone.frame_pSrc group _, phone.frame_pDest group _, code, hcodes code hcode, ?_⟩
  rw [EspDecode.Phone.frame_length]
  simp only [guideOf, Guide.length, espTouchPacketSub]
  omega

/-- Looking for a lock, on this source. -/
def lockingOn (phone : EspDecode.Phone) : Smnt :=
  { esptouchSmntInit with state := .locking, syncAppMac := phone.src }

theorem follows_of_searching_somePhone :
    ∃ t, (guideFramesOf EspDecode.somePhone 9 [1, 3, 3, 0, 2, 1]).foldlM esptouchSmntDatahandler
        (lockingOn EspDecode.somePhone) = some t ∧
      Follows (guideOf EspDecode.somePhone 9)
        (guideFramesOf EspDecode.somePhone 9 [1, 3, 3, 0, 2, 1]) t :=
  follows_of_searching (guideOf EspDecode.somePhone 9) (lockingOn EspDecode.somePhone)
    (guideFramesOf EspDecode.somePhone 9 [1, 3, 3, 0, 2, 1]) ⟨rfl, Or.inr (by decide)⟩
    ⟨by decide, by decide⟩ (sends_guideFramesOf _ _ (by decide))

/-- A guide to group `0xFF` is not begun, since that stands for no group. -/
theorem guide_not_followed :
    (3 ≤ EspDecode.somePhone.overhead ∧ (lockingOn EspDecode.somePhone).state = .locking ∧
      ∀ f ∈ guideFramesOf EspDecode.somePhone 0xFF [3, 2, 1, 0],
        (guideOf EspDecode.somePhone 0xFF).Sends f) ∧
    ¬ ∃ t, (guideFramesOf EspDecode.somePhone 0xFF [3, 2, 1, 0]).foldlM
        esptouchSmntDatahandler (lockingOn EspDecode.somePhone) = some t ∧
      Follows (guideOf EspDecode.somePhone 0xFF)
        (guideFramesOf EspDecode.somePhone 0xFF [3, 2, 1, 0]) t := by
  have hnone : ((guideFramesOf EspDecode.somePhone 0xFF [3, 2, 1, 0]).foldlM
      esptouchSmntDatahandler (lockingOn EspDecode.somePhone)).map Smnt.state =
        some .locking := by decide
  have hcomplete : (guideOf EspDecode.somePhone 0xFF).Complete
      (guideFramesOf EspDecode.somePhone 0xFF [3, 2, 1, 0]) := by
    intro code hcode
    have hmem : code ∈ [3, 2, 1, 0] := by interval_cases code <;> simp
    refine ⟨EspDecode.somePhone.frame 0xFF (472 + code), List.mem_map_of_mem hmem, ?_⟩
    rw [EspDecode.Phone.frame_length]
    simp only [guideOf, Guide.length, espTouchPacketSub]
    omega
  refine ⟨⟨by decide, rfl, sends_guideFramesOf _ _ (by decide)⟩, ?_⟩
  rintro ⟨t, ht, h⟩
  rw [ht, Option.map_some, (h.locked hcomplete).1] at hnone
  cases hnone

end Sv6x66.Colink.EspGuide
