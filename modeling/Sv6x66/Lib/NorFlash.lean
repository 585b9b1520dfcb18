import Mathlib.Tactic
import Mathlib.Data.List.GetD

/-! NOR flash as a byte array. A program can only clear bits, an erase sets a
whole sector to `0xFF`, and a page program wraps inside its page. Sector and
page sizes are parameters. -/
namespace Sv6x66.Lib.NorFlash

abbrev Flash := Nat → UInt8

def eraseSector (sectorSize addr : Nat) (flash : Flash) : Flash := fun a =>
  if a / sectorSize = addr / sectorSize then 0xFF else flash a

/-- The source index that a program starting at `addr` sends to `a`, for an
`a` of the same page. -/
def pageIndex (pageSize addr a : Nat) : Nat :=
  (a % pageSize + (pageSize - addr % pageSize)) % pageSize

def programPage (pageSize addr : Nat) (data : List UInt8) (flash : Flash) : Flash := fun a =>
  if a / pageSize = addr / pageSize then
    flash a &&& (data[pageIndex pageSize addr a]?).getD 0xFF
  else flash a

def readBlock (flash : Flash) (addr len : Nat) : List UInt8 :=
  (List.range len).map fun i => flash (addr + i)

/-- Programming a free byte stores the value itself. -/
@[simp] theorem free_and (value : UInt8) : 0xFF &&& value = value := UInt8.neg_one_and

/-- Programming `0xFF` changes nothing. -/
@[simp] theorem and_free (value : UInt8) : value &&& 0xFF = value := UInt8.and_neg_one

/-- A programmed byte looks free only if it was free and `0xFF` was written. -/
theorem and_eq_free_iff {old value : UInt8} :
    old &&& value = 0xFF ↔ old = 0xFF ∧ value = 0xFF := UInt8.and_eq_neg_one_iff

theorem eraseSector_inside {sectorSize addr a : Nat} (flash : Flash)
    (h : a / sectorSize = addr / sectorSize) : eraseSector sectorSize addr flash a = 0xFF := by
  simp [eraseSector, h]

/-- The addresses of the block that begins at an aligned one. -/
theorem same_block_iff {size base a : Nat} (hpos : 0 < size) (haligned : size ∣ base) :
    a / size = base / size ↔ base ≤ a ∧ a < base + size := by
  obtain ⟨k, rfl⟩ := haligned
  rw [Nat.mul_div_cancel_left _ hpos, Nat.div_eq_iff hpos, Nat.mul_comm]
  omega

theorem eraseSector_aligned {sectorSize addr : Nat} (hpos : 0 < sectorSize)
    (haligned : sectorSize ∣ addr) (flash : Flash) (a : Nat) :
    eraseSector sectorSize addr flash a =
      if addr ≤ a ∧ a < addr + sectorSize then 0xFF else flash a := by
  simp only [eraseSector, same_block_iff hpos haligned]

theorem pageIndex_aligned {pageSize addr a : Nat} (haligned : addr % pageSize = 0) :
    pageIndex pageSize addr a = a % pageSize := by
  simp [pageIndex, haligned]

theorem getElem?_readBlock {flash : Flash} {addr len i : Nat} (h : i < len) :
    (readBlock flash addr len)[i]? = some (flash (addr + i)) := by
  simp [readBlock, h]

/-- Programming a whole page from its first byte on. -/
theorem programPage_aligned {pageSize base : Nat} {data : List UInt8} (hpos : 0 < pageSize)
    (haligned : pageSize ∣ base) (flash : Flash) (a : Nat) :
    programPage pageSize base data flash a =
      if base ≤ a ∧ a < base + pageSize then flash a &&& data.getD (a - base) 0xFF else flash a := by
  unfold programPage
  simp only [same_block_iff hpos haligned]
  split
  · rename_i h
    have hindex : pageIndex pageSize base a = a - base := by
      obtain ⟨page, rfl⟩ := haligned
      rw [pageIndex_aligned (Nat.mul_mod_right _ _), ← Nat.sub_mul_mod h.1]
      exact Nat.mod_eq_of_lt (by omega)
    rw [hindex, List.getD_eq_getElem?_getD]
  · rfl

/-- Reading a page, replacing one byte of the copy and programming the copy
back touches that byte only: every other byte is combined with itself. -/
theorem programPage_patch {pageSize base k : Nat} (flash : Flash) (value : UInt8)
    (haligned : base % pageSize = 0) (hk : k < pageSize) :
    programPage pageSize base ((readBlock flash base pageSize).set k value) flash =
      Function.update flash (base + k) (flash (base + k) &&& value) := by
  have hbase : pageSize * (base / pageSize) = base := by
    have := Nat.mod_add_div base pageSize
    omega
  funext a
  unfold programPage
  rw [pageIndex_aligned haligned]
  by_cases hpage : a / pageSize = base / pageSize
  · have ha : a = base + a % pageSize := by
      have := Nat.mod_add_div a pageSize
      rw [hpage] at this
      omega
    have hindex : a % pageSize < pageSize := Nat.mod_lt _ (by omega)
    rw [if_pos hpage, List.getElem?_set]
    by_cases heq : k = a % pageSize
    · have hak : base + k = a := by omega
      have hlen : a % pageSize < (readBlock flash base pageSize).length := by
        simpa [readBlock] using hindex
      rw [if_pos heq, if_pos (by omega), Function.update_apply, if_pos hak.symm, hak]
      rfl
    · have hne : a ≠ base + k := by omega
      rw [if_neg heq, getElem?_readBlock hindex, ← ha, Function.update_of_ne hne]
      simp
  · have hne : a ≠ base + k := by
      rintro rfl
      apply hpage
      rw [Nat.add_div_of_dvd_right (Nat.dvd_of_mod_eq_zero haligned), Nat.div_eq_of_lt hk,
        Nat.add_zero]
    rw [if_neg hpage, Function.update_of_ne hne]

end Sv6x66.Lib.NorFlash
