import Sv6x66.Lib.NorFlash

/-! The SPI burn tool, `main.c` and `flash.c` of `src-SPI_burn`: an erase loop
over sectors and a program loop over pages. Every address it sends is below
`2 ^ 24` and fits the three address bytes of a flash command. -/
namespace Sv6x66.Utils.SpiBurn
open Sv6x66.Lib.NorFlash

def flashSize : Nat := 0x200000
def flashSectorSize : Nat := 0x1000
def flashPageSize : Nat := 0x100

def flashSectorErase (addr : Nat) (flash : Flash) : Flash :=
  eraseSector flashSectorSize addr flash

def flashPageProgram (flashAddr flashLen : Nat) (srcArr : List UInt8) (flash : Flash) : Flash :=
  let flashLen := if flashLen > flashPageSize then flashPageSize else flashLen
  programPage flashPageSize flashAddr (srcArr.take flashLen) flash

/-- `while(erase_addr < erase_size)`. -/
def eraseLoop (eraseAddr eraseSize : Nat) (flash : Flash) : Flash :=
  if eraseAddr < eraseSize then
    eraseLoop (eraseAddr + flashSectorSize) eraseSize (flashSectorErase eraseAddr flash)
  else flash
termination_by eraseSize - eraseAddr
decreasing_by
  simp only [flashSectorSize]
  omega

def writelength (programSize : Nat) : Nat :=
  if programSize > 0xFF then flashPageSize else programSize

theorem writelength_pos {programSize : Nat} (h : programSize ≠ 0) :
    0 < writelength programSize ∧ writelength programSize ≤ programSize ∧
      writelength programSize ≤ flashPageSize := by
  unfold writelength flashPageSize
  split <;> omega

/-- `while(program_size)`, with `start` the rest of the image. -/
def programLoop (flashaddr programSize : Nat) (start : List UInt8) (flash : Flash) : Flash :=
  if programSize ≠ 0 then
    let length := writelength programSize
    programLoop (flashaddr + length) (programSize - length) (start.drop length)
      (flashPageProgram flashaddr length start flash)
  else flash
termination_by programSize
decreasing_by
  have := writelength_pos ‹programSize ≠ 0›
  omega

/-- The size rounded up to whole sectors. -/
def eraseSizeOf (size : Nat) : Nat := ((size + 4095) >>> 12) <<< 12

/-- The part of `main` that works on the flash. -/
def burn (eraseAll : Bool) (address : Nat) (image : List UInt8) (flash : Flash) : Flash :=
  let size := image.length
  if size > flashSize then flash
  else
    let flash := if eraseAll then eraseLoop 0 flashSize flash
      else eraseLoop address (eraseSizeOf size) flash
    programLoop address size image flash

/-- Whatever the flash held, the image is in its place and the sectors beside
it are as they were. -/
structure Burnt (address : Nat) (image : List UInt8) : Prop where
  placed : ∀ flash j, j < image.length →
    some (burn false address image flash (address + j)) = image[j]?
  others : ∀ flash x,
    (∀ j, j < image.length → (address + j) / flashSectorSize ≠ x / flashSectorSize) →
      burn false address image flash x = flash x

/-! ### The loops -/

/-- The loop erases the sectors of `erase_addr`, `erase_addr + 4096` and so on
up to `erase_size`. -/
theorem eraseLoop_apply (eraseAddr eraseSize : Nat) (flash : Flash) (x : Nat) :
    eraseLoop eraseAddr eraseSize flash x =
      if eraseAddr / flashSectorSize ≤ x / flashSectorSize ∧
        x / flashSectorSize * flashSectorSize + eraseAddr % flashSectorSize < eraseSize
      then 0xFF else flash x := by
  induction eraseAddr, flash using eraseLoop.induct eraseSize with
  | case1 eraseAddr flash hlt ih =>
    rw [eraseLoop, if_pos hlt, ih]
    by_cases hsector : x / flashSectorSize = eraseAddr / flashSectorSize
    · have herased : flashSectorErase eraseAddr flash x = 0xFF := eraseSector_inside flash hsector
      rw [herased, ite_self, if_pos]
      simp only [flashSectorSize] at hsector ⊢
      omega
    · have hsame : flashSectorErase eraseAddr flash x = flash x := if_neg hsector
      rw [hsame]
      refine if_congr ?_ rfl rfl
      simp only [flashSectorSize] at hsector ⊢
      omega
  | case2 eraseAddr flash hge =>
    rw [eraseLoop, if_neg hge, if_neg]
    simp only [flashSectorSize]
    omega

/-- The byte of the image that ends up at `x`: the one with the offset of `x` in
the page, of the block programmed into that page. -/
def landed (flashaddr : Nat) (start : List UInt8) (x : Nat) : UInt8 :=
  if flashaddr / flashPageSize ≤ x / flashPageSize then
    (start[(x / flashPageSize - flashaddr / flashPageSize) * flashPageSize +
      pageIndex flashPageSize flashaddr x]?).getD 0xFF
  else 0xFF

theorem pageIndex_lt (flashaddr x : Nat) : pageIndex flashPageSize flashaddr x < flashPageSize :=
  Nat.mod_lt _ (by decide)

/-- The two bounds on the length of a block leave the first page of the rest. -/
theorem take_writelength (start : List UInt8) :
    start.take (if writelength start.length > flashPageSize then flashPageSize
      else writelength start.length) = start.take flashPageSize := by
  have hbound : ¬ writelength start.length > flashPageSize := by
    unfold writelength flashPageSize
    split <;> omega
  rw [if_neg hbound]
  unfold writelength flashPageSize
  split
  · rfl
  · rw [List.take_length, List.take_of_length_le (by omega)]

theorem flashPageProgram_apply (flashaddr : Nat) (start : List UInt8) (flash : Flash) (x : Nat) :
    flashPageProgram flashaddr (writelength start.length) start flash x =
      if x / flashPageSize = flashaddr / flashPageSize then
        flash x &&& (start[pageIndex flashPageSize flashaddr x]?).getD 0xFF
      else flash x := by
  unfold flashPageProgram programPage
  simp only [take_writelength, List.getElem?_take_of_lt (pageIndex_lt flashaddr x)]

theorem pageIndex_next (flashaddr x : Nat) :
    pageIndex flashPageSize (flashaddr + flashPageSize) x =
      pageIndex flashPageSize flashaddr x := by
  unfold pageIndex
  rw [Nat.add_mod_right]

@[simp] theorem landed_nil (flashaddr x : Nat) : landed flashaddr [] x = 0xFF := by
  simp [landed]

/-- The block in front covers the first page; what is left starts a page
further, if anything is left. -/
theorem landed_next (flashaddr : Nat) (start : List UInt8) (x : Nat) :
    (if x / flashPageSize = flashaddr / flashPageSize then
        (start[pageIndex flashPageSize flashaddr x]?).getD 0xFF else 0xFF) &&&
      landed (flashaddr + writelength start.length) (start.drop (writelength start.length)) x =
        landed flashaddr start x := by
  have hnext : (flashaddr + flashPageSize) / flashPageSize = flashaddr / flashPageSize + 1 :=
    Nat.add_div_right _ (by decide)
  by_cases hlong : start.length > 0xFF
  · have hlength : writelength start.length = flashPageSize := if_pos hlong
    rw [hlength]
    unfold landed
    rw [hnext, pageIndex_next]
    by_cases hpage : x / flashPageSize = flashaddr / flashPageSize
    · rw [if_pos hpage, if_neg (by omega), and_free, if_pos (by omega), hpage, Nat.sub_self,
        Nat.zero_mul, Nat.zero_add]
    · rw [if_neg hpage, free_and]
      by_cases hafter : flashaddr / flashPageSize + 1 ≤ x / flashPageSize
      · rw [if_pos hafter, if_pos (by omega), List.getElem?_drop]
        congr 2
        unfold flashPageSize at *
        omega
      · rw [if_neg hafter, if_neg (by omega)]
  · have hlength : writelength start.length = start.length := if_neg hlong
    rw [hlength, List.drop_length, landed_nil, and_free]
    unfold landed
    by_cases hpage : x / flashPageSize = flashaddr / flashPageSize
    · rw [if_pos hpage, if_pos (by omega), hpage, Nat.sub_self, Nat.zero_mul, Nat.zero_add]
    · rw [if_neg hpage]
      split
      · rw [List.getElem?_eq_none, Option.getD_none]
        unfold flashPageSize at *
        omega
      · rfl

theorem programLoop_apply (flashaddr programSize : Nat) (start : List UInt8) (flash : Flash)
    (x : Nat) (hsize : programSize = start.length) :
    programLoop flashaddr programSize start flash x = flash x &&& landed flashaddr start x := by
  induction flashaddr, programSize, start, flash using programLoop.induct with
  | case1 flashaddr programSize start flash hne length ih =>
    rw [programLoop, if_pos hne, ih (by rw [List.length_drop, hsize])]
    simp only [length, hsize]
    rw [flashPageProgram_apply, ← landed_next flashaddr start x]
    split
    · rw [UInt8.and_assoc]
    · rw [free_and]
  | case2 flashaddr programSize start flash hzero =>
    have hnil : start = [] := by
      refine List.eq_nil_of_length_eq_zero ?_
      omega
    rw [programLoop, if_neg hzero, hnil, landed_nil, and_free]

/-! ### The burn -/

theorem eraseSizeOf_eq (size : Nat) : eraseSizeOf size = (size + 4095) / 4096 * 4096 := by
  unfold eraseSizeOf
  rw [Nat.shiftLeft_eq, Nat.shiftRight_eq_div_pow]

/-- Every byte ends up erased or as it was, combined with what landed on it. -/
theorem burn_apply {address : Nat} {image : List UInt8} (hsize : image.length ≤ flashSize)
    (flash : Flash) (x : Nat) :
    burn false address image flash x =
      (if address / flashSectorSize ≤ x / flashSectorSize ∧
        x / flashSectorSize * flashSectorSize < image.length then 0xFF else flash x) &&&
        landed address image x := by
  unfold burn
  simp only [Nat.not_lt.mpr hsize, if_false, Bool.false_eq_true]
  rw [programLoop_apply _ _ _ _ _ rfl, eraseLoop_apply, eraseSizeOf_eq]
  refine congrArg (· &&& landed address image x) (if_congr ?_ rfl rfl)
  simp only [flashSectorSize]
  omega

/-- Byte `j` of the image lands in its place, unless its place is a page further
than the page its block is programmed to. -/
theorem landed_place (address : Nat) (image : List UInt8) (j : Nat) :
    landed address image (address + j) =
      (image[if address % flashPageSize + j % flashPageSize < flashPageSize then j
        else j + flashPageSize]?).getD 0xFF := by
  have hindex : pageIndex flashPageSize address (address + j) = j % flashPageSize := by
    unfold pageIndex flashPageSize
    omega
  unfold landed
  rw [hindex, if_pos (Nat.div_le_div_right (Nat.le_add_right _ _))]
  congr 2
  unfold flashPageSize
  split <;> omega

/-- Past the sectors that are erased the image is `0`, and a byte that a page
wrap moves away is equal to the one that lands in its place. -/
structure Fits (address : Nat) (image : List UInt8) : Prop where
  erased : ∀ j, j < image.length → eraseSizeOf image.length ≤ address + j → image[j]? = some 0
  unwrapped : ∀ j, j < image.length →
    flashPageSize ≤ address % flashPageSize + j % flashPageSize →
      image[j]? = some ((image[j + flashPageSize]?).getD 0xFF)

theorem landed_of_fits {address : Nat} {image : List UInt8} (hfits : Fits address image) {j : Nat}
    (hj : j < image.length) : some (landed address image (address + j)) = image[j]? := by
  rw [landed_place]
  split
  · rw [List.getElem?_eq_getElem hj]
    rfl
  · exact (hfits.unwrapped j hj (by omega)).symm

/-- What the burn changes lies in the sectors of the image. -/
theorem burn_others {address : Nat} {image : List UInt8} (hsize : image.length ≤ flashSize)
    (flash : Flash) (x : Nat)
    (hother : ∀ j, j < image.length →
      (address + j) / flashSectorSize ≠ x / flashSectorSize) :
    burn false address image flash x = flash x := by
  have hkept : ¬ (address / flashSectorSize ≤ x / flashSectorSize ∧
      x / flashSectorSize * flashSectorSize < image.length) := by
    intro herased
    refine hother (x / flashSectorSize * flashSectorSize - address) (by omega) ?_
    simp only [flashSectorSize] at herased ⊢
    omega
  have hlanded : landed address image x = 0xFF := by
    unfold landed
    split
    · rename_i hpage
      rw [List.getElem?_eq_none, Option.getD_none]
      by_contra hshort
      refine hother (x / flashPageSize * flashPageSize - address) ?_ ?_
      · simp only [flashPageSize] at hpage hshort ⊢
        omega
      · simp only [flashPageSize, flashSectorSize] at hpage ⊢
        omega
    · rfl
  rw [burn_apply hsize, if_neg hkept, hlanded, and_free]

/-- For every image and address in the flash, the burn is right whatever the
flash held exactly if the image fits. -/
theorem burn_iff (address : Nat) (image : List UInt8) (hflash : address + image.length ≤ flashSize) :
    Burnt address image ↔ Fits address image := by
  have hsize : image.length ≤ flashSize := by omega
  constructor
  · intro hburnt
    have hlanded (j : Nat) (hj : j < image.length) :
        some (landed address image (address + j)) = image[j]? := by
      have hblank := hburnt.placed (fun _ => 0xFF) j hj
      rw [burn_apply hsize, ite_self, free_and] at hblank
      exact hblank
    constructor
    · intro j hj hafter
      have hzero := hburnt.placed (fun _ => 0) j hj
      rw [burn_apply hsize, if_neg, UInt8.zero_and] at hzero
      · exact hzero.symm
      · rw [eraseSizeOf_eq] at hafter
        simp only [flashSectorSize]
        omega
    · intro j hj hwrapped
      have hplace := hlanded j hj
      rw [landed_place, if_neg (by omega)] at hplace
      exact hplace.symm
  · intro hfits
    refine ⟨?_, fun flash x hother => burn_others hsize flash x hother⟩
    intro flash j hj
    have hlanded := landed_of_fits hfits hj
    rw [burn_apply hsize]
    split
    · rw [free_and]
      exact hlanded
    · rename_i hkept
      have hzero := hfits.erased j hj (by
        rw [eraseSizeOf_eq]
        simp only [flashSectorSize] at hkept
        omega)
      rw [hzero] at hlanded ⊢
      rw [Option.some.inj hlanded, UInt8.and_zero]

/-- An image at address 0, or any image that starts at a page and ends before
its own size in whole sectors, fits. -/
theorem fits_of_aligned {address : Nat} {image : List UInt8} (hpage : address % flashPageSize = 0)
    (hend : address + image.length ≤ eraseSizeOf image.length) : Fits address image where
  erased := by omega
  unwrapped := by
    intro j _ hwrapped
    have := Nat.mod_lt j (show 0 < flashPageSize by decide)
    omega

/-- Three thousand bytes from the second page on, and from the second sector on. -/
theorem burn_iff_pages :
    (Burnt 0x100 (List.replicate 3000 0x5A) ↔ Fits 0x100 (List.replicate 3000 0x5A)) ∧
      Fits 0x100 (List.replicate 3000 0x5A) ∧
      (Burnt 0x1000 (List.replicate 3000 0x5A) ↔ Fits 0x1000 (List.replicate 3000 0x5A)) ∧
      ¬ Fits 0x1000 (List.replicate 3000 0x5A) := by
  have hlength : (List.replicate 3000 (0x5A : UInt8)).length = 3000 := List.length_replicate
  refine ⟨burn_iff 0x100 _ ?_, fits_of_aligned (by decide) ?_, burn_iff 0x1000 _ ?_, ?_⟩
  · rw [hlength]
    decide
  · rw [hlength]
    decide
  · rw [hlength]
    decide
  · intro hfits
    have herased := hfits.erased 0 (by rw [hlength]; decide) (by rw [hlength]; decide)
    rw [List.getElem?_replicate_of_lt (by decide)] at herased
    exact absurd herased (by decide)

/-- One byte at the second sector: nothing is erased there. -/
theorem burn_second_sector : ¬ Burnt 0x1000 [0x5A] := by
  intro hburnt
  have hplaced := hburnt.placed (fun _ => 0) 0 (by decide)
  rw [burn_apply (by decide), if_neg (by decide), UInt8.zero_and] at hplaced
  revert hplaced
  decide

end Sv6x66.Utils.SpiBurn
