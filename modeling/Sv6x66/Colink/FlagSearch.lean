import Sv6x66.Colink.FlagLogRefinement

/-! The search of `find_first_0xff` on its 32-bit addresses, with the addresses it reads and
a bound on its rounds. -/
namespace Sv6x66.Colink.FlagSearch
open Sv6x66.Lib.NorFlash
open Sv6x66.Colink.FlagLog
open Sv6x66.Colink.FlagLogRefinement

def flagStart : UInt32 := 0x30007000
def flagLen : UInt32 := 4096

/-- The final `addr1` and what was read on the way to it; `none` if the loop is not left
after `rounds` tests of its condition. -/
def searchLoop (flash : Flash) : (rounds : Nat) → (addr1 addr2 : UInt32) →
    Option (UInt32 × List UInt32)
  | 0, _, _ => none
  | rounds + 1, addr1, addr2 =>
    if addr1 < addr2 then
      let p := (addr1 + addr2) >>> 1
      let rest := if readMem flash p.toNat = 0xFF then searchLoop flash rounds addr1 (p - 1)
        else searchLoop flash rounds (p + 1) addr2
      rest.map fun found => (found.1, p :: found.2)
    else some (addr1, [])

/-- The result of `find_first_0xff` and the addresses it reads. -/
def search (flash : Flash) (rounds : Nat) : Option (UInt32 × List UInt32) :=
  (searchLoop flash rounds flagStart (flagStart + flagLen - 1)).map fun found =>
    (if readMem flash found.1.toNat ≠ 0xFF then found.1 + 1 else found.1, found.2 ++ [found.1])

def Inside (addr : UInt32) : Prop :=
  flagStartAddr ≤ addr.toNat ∧ addr.toNat < flagStartAddr + flagLength

instance (addr : UInt32) : Decidable (Inside addr) := inferInstanceAs (Decidable (_ ∧ _))

/-- The first free byte, or the end of a sector that has none. -/
structure IsFirstFree (flash : Flash) (addr : Nat) : Prop where
  start : flagStartAddr ≤ addr
  before : ∀ a, flagStartAddr ≤ a → a < addr → readMem flash a ≠ 0xFF
  here : addr = flagStartAddr + flagLength ∨
    addr < flagStartAddr + flagLength ∧ readMem flash addr = 0xFF

/-- The search ends after at most 13 tests of its condition. -/
def Finds (flash : Flash) : Prop :=
  ∃ addr reads, search flash 13 = some (addr, reads) ∧ (∀ a ∈ reads, Inside a) ∧
    IsFirstFree flash addr.toNat

/-! ### The loop -/

theorem toNat_middle (addr1 addr2 : UInt32) (h : addr1.toNat + addr2.toNat < 2 ^ 32) :
    ((addr1 + addr2) >>> 1).toNat = (addr1.toNat + addr2.toNat) / 2 := by
  rw [UInt32.toNat_shiftRight, UInt32.toNat_add, Nat.mod_eq_of_lt h]
  rfl

/-- Each round leaves less than half of the interval, and the loop does not leave the sector
whatever is in it. -/
theorem searchLoop_eq (flash : Flash) (rounds : Nat) (addr1 addr2 : UInt32)
    (hfirst : Inside addr1) (hlow : flagStartAddr ≤ addr2.toNat + 1)
    (hhigh : addr2.toNat < flagStartAddr + flagLength)
    (hrounds : addr2.toNat < addr1.toNat + 2 ^ rounds) :
    ∃ addr reads, searchLoop flash (rounds + 1) addr1 addr2 = some (addr, reads) ∧
      (∀ a ∈ reads, Inside a) ∧ Inside addr ∧
      addr.toNat = find0xffLoop flash addr1.toNat addr2.toNat := by
  induction rounds generalizing addr1 addr2 with
  | zero =>
    have hdone : ¬ addr1 < addr2 := by
      rw [UInt32.lt_iff_toNat_lt]
      omega
    rw [searchLoop, if_neg hdone, find0xffLoop, if_neg (by rwa [← UInt32.lt_iff_toNat_lt])]
    exact ⟨addr1, [], rfl, fun _ ha => absurd ha List.not_mem_nil, hfirst, rfl⟩
  | succ rounds ih =>
    rw [searchLoop, find0xffLoop]
    by_cases hlt : addr1 < addr2
    · have hlt' : addr1.toNat < addr2.toNat := UInt32.lt_iff_toNat_lt.mp hlt
      have hstart := hfirst.1
      simp only [flagStartAddr, flagLength, flashSectorSize] at hlow hhigh hstart
      rw [pow_succ] at hrounds
      have hp := toNat_middle addr1 addr2 (by omega)
      rw [if_pos hlt, if_pos hlt', Nat.shiftRight_eq_div_pow, pow_one]
      dsimp only
      generalize (addr1 + addr2) >>> 1 = p at hp ⊢
      rw [← hp]
      have hpInside : Inside p := by
        rw [Inside, flagStartAddr, flagLength, flashSectorSize]
        omega
      by_cases hfree : readMem flash p.toNat = 0xFF
      · have hone : 1 ≤ p := by
          rw [UInt32.le_iff_toNat_le, UInt32.toNat_one]
          omega
        have hpred : (p - 1).toNat = p.toNat - 1 := UInt32.toNat_sub_of_le _ _ hone
        obtain ⟨addr, reads, hloop, hreads, hinside, heq⟩ := ih addr1 (p - 1) hfirst
          (by rw [hpred, flagStartAddr]; omega)
          (by rw [hpred, flagStartAddr, flagLength, flashSectorSize]; omega)
          (by rw [hpred]; omega)
        rw [if_pos hfree, if_pos hfree, hloop]
        rw [hpred] at heq
        exact ⟨addr, p :: reads, rfl, List.forall_mem_cons.mpr ⟨hpInside, hreads⟩, hinside, heq⟩
      · have hsucc : (p + 1).toNat = p.toNat + 1 := by
          rw [UInt32.toNat_add, UInt32.toNat_one, Nat.mod_eq_of_lt (by omega)]
        obtain ⟨addr, reads, hloop, hreads, hinside, heq⟩ := ih (p + 1) addr2
          (by rw [Inside, hsucc, flagStartAddr, flagLength, flashSectorSize]; omega)
          (by rw [flagStartAddr]; omega)
          (by rw [flagStartAddr, flagLength, flashSectorSize]; omega)
          (by rw [hsucc]; omega)
        rw [if_neg hfree, if_neg hfree, hloop]
        rw [hsucc] at heq
        exact ⟨addr, p :: reads, rfl, List.forall_mem_cons.mpr ⟨hpInside, hreads⟩, hinside, heq⟩
    · rw [if_neg hlt, if_neg (by rwa [← UInt32.lt_iff_toNat_lt])]
      exact ⟨addr1, [], rfl, fun _ ha => absurd ha List.not_mem_nil, hfirst, rfl⟩

/-- The search on words is the one of the log. -/
theorem search_eq (flash : Flash) :
    ∃ addr reads, search flash 13 = some (addr, reads) ∧ (∀ a ∈ reads, Inside a) ∧
      addr.toNat = findFirst0xff flash := by
  obtain ⟨addr, reads, hloop, hreads, hinside, heq⟩ :=
    searchLoop_eq flash 12 flagStart (flagStart + flagLen - 1) (by decide) (by decide) (by decide)
      (by decide)
  rw [search, hloop]
  refine ⟨_, _, rfl, ?_, ?_⟩
  · rintro a ha
    rcases List.mem_append.mp ha with ha | ha
    · exact hreads a ha
    · rwa [List.mem_singleton.mp ha]
  · have hends : find0xffLoop flash flagStart.toNat (flagStart + flagLen - 1).toNat =
        find0xffLoop flash flagStartAddr (flagStartAddr + flagLength - 1) := rfl
    rw [findFirst0xff, ← hends, ← heq]
    dsimp only
    split
    · have hlt := hinside.2
      simp only [flagStartAddr, flagLength, flashSectorSize] at hlt
      rw [UInt32.toNat_add, UInt32.toNat_one, Nat.mod_eq_of_lt (by omega)]
    · rfl

/-! ### Every reachable sector -/

theorem isFirstFree_of_logShape {flash : Flash} {used : Nat} (h : LogShape flash used) :
    IsFirstFree flash (flagStartAddr + used) where
  start := Nat.le_add_right _ _
  before a hstart ha := by
    obtain ⟨i, rfl⟩ := Nat.exists_eq_add_of_le hstart
    exact h.written i (Nat.lt_of_add_lt_add_left ha)
  here := by
    rcases h.used_le.eq_or_lt with hfull | hfree
    · exact .inl (congrArg _ hfull)
    · exact .inr ⟨Nat.add_lt_add_left hfree _, h.free used (le_refl _) hfree⟩

theorem finds_of_logShape {flash : Flash} {used : Nat} (h : LogShape flash used) : Finds flash := by
  obtain ⟨addr, reads, hsearch, hreads, heq⟩ := search_eq flash
  refine ⟨addr, reads, hsearch, hreads, ?_⟩
  rw [heq, findFirst0xff_eq h]
  exact isFirstFree_of_logShape h

/-- A sector reached from an erased one is a log, and in every log the search finds the first
free byte. -/
theorem logShape_runOps (flash : Flash) (herased : ∀ i < flagLength, logByte flash i = 0xFF)
    (ops : List LogOp) :
    (∃ used, LogShape (runOps flash ops) used) ∧
      ∀ sector used, LogShape sector used → Finds sector := by
  obtain ⟨value, ⟨used, hshape, -⟩, -⟩ := runOps_log herased ops
  exact ⟨⟨used, hshape⟩, fun _ _ h => finds_of_logShape h⟩

theorem logShape_runOps_blank :
    (∃ used, LogShape (runOps (fun _ => 0xFF) [.addPoweronNumber, .setSwitchNvram true]) used) ∧
      ∀ sector used, LogShape sector used → Finds sector :=
  logShape_runOps (fun _ => 0xFF) (fun _ _ => rfl) [.addPoweronNumber, .setSwitchNvram true]

end Sv6x66.Colink.FlagSearch
