import Sv6x66.Lib.ByteFile
import Sv6x66.Lib.NorFlash

/-! `sa_cfg.c` and `user_cfg.c`: a configuration is copied into a buffer, with what the
flash holds behind it, and the buffer is programmed page by page after one erase. -/
namespace Sv6x66.Cfg.SectorWrite
open Sv6x66.Lib.ByteFile
open Sv6x66.Lib.NorFlash

def flashSectorSize : Nat := 4096
def flashPageSize : Nat := 256

/-- `ORIGIN(REGION_BURN)` of `flash.lds.S`; the sections with the configurations follow
each other from there. -/
def regionBurn : Nat := 0x30004000
def gSaCfg : Nat := regionBurn
def gWifiCfg : Nat := regionBurn + flashSectorSize
def gUserCfg : Nat := regionBurn + flashSectorSize + flashSectorSize

/-- Where the flash holds what is seen at an address of its window. -/
def flashAddr (address : Nat) : Nat := address &&& 0xFFFFFF

def flashSectorErase (addr : Nat) (flash : Flash) : Flash :=
  eraseSector flashSectorSize addr flash

def flashPageProgram (flashAddr flashLen : Nat) (srcArr : List UInt8) (flash : Flash) : Flash :=
  programPage flashPageSize flashAddr (srcArr.take flashLen) flash

/-- `for (i = 0; i < size; i+=FLASH_PAGE_SIZE)`. -/
def programLoop (ptr i size : Nat) (buf : List UInt8) (flash : Flash) : Flash :=
  if i < size then
    programLoop ptr (i + flashPageSize) size buf
      (flashPageProgram (ptr + i) flashPageSize (buf.drop i) flash)
  else flash
termination_by size - i
decreasing_by
  simp only [flashPageSize]
  omega

/-- What `OS_MemAlloc` returns; the functions below do not test it. -/
abbrev MemBlock (size : Nat) := Option (Vector UInt8 size)

/-- The common body of the writers. It has no result if the assertion fails, which is an
endless loop, and if there is no block: `memcpy` then writes from address 0 on. -/
def writeCfg (cfg size : Nat) (block : MemBlock size) (len : UInt16)
    (newCfg : Vector UInt8 len.toNat) (flash : Flash) : Option Flash :=
  if len.toNat ≤ size then
    block.map fun buf =>
      let buf := patch 0 buf.toList 0 newCfg.toList
      let buf := patch 0 buf len.toNat
        (readBlock flash (flashAddr (cfg + len.toNat)) (size - len.toNat))
      let ptr := flashAddr cfg
      programLoop ptr 0 size buf (flashSectorErase ptr flash)
  else none

def cfgSaWriteCfg : MemBlock flashSectorSize → (len : UInt16) → Vector UInt8 len.toNat →
    Flash → Option Flash := writeCfg gSaCfg flashSectorSize

def cfgUserWriteCfg : MemBlock (flashSectorSize <<< 1) → (len : UInt16) →
    Vector UInt8 len.toNat → Flash → Option Flash := writeCfg gUserCfg (flashSectorSize <<< 1)

/-- The bytes that arrive at `flash_user_data`, over a block of `OS_MemZalloc`. -/
def cfgUserReadCfg (block : MemBlock (flashSectorSize <<< 1)) (len : UInt16) (flash : Flash) :
    Option (List UInt8) :=
  if len.toNat ≤ flashSectorSize <<< 1 then
    block.map fun buf =>
      (patch 0 buf.toList 0 (readBlock flash (flashAddr gUserCfg) len.toNat)).take len.toNat
  else none

/-! ### What it is for -/

section

variable (cfg size : Nat) {len : UInt16} (newCfg : Vector UInt8 len.toNat) (flash after : Flash)

/-- The configuration begins with the new data. -/
def Holds : Prop :=
  ∀ i, (hi : i < len.toNat) → after (flashAddr cfg + i) = newCfg.get ⟨i, hi⟩

/-- The rest of the configuration is as it was. -/
def RestKept (len : UInt16) : Prop :=
  ∀ i, len.toNat ≤ i → i < size → after (flashAddr cfg + i) = flash (flashAddr cfg + i)

/-- The data set no bit that is cleared in the flash behind the first sector. -/
def NoBitSetBehind : Prop :=
  ∀ i, (hi : i < len.toNat) → flashSectorSize ≤ i →
    flash (flashAddr cfg + i) &&& newCfg.get ⟨i, hi⟩ = newCfg.get ⟨i, hi⟩

end

/-! ### What is in the flash afterwards -/

theorem flashAddr_eq (address : Nat) : flashAddr address = address % 2 ^ 24 :=
  Nat.and_two_pow_sub_one_eq_mod address 24

theorem flashAddr_gSaCfg_add (len : UInt16) :
    flashAddr (gSaCfg + len.toNat) = flashAddr gSaCfg + len.toNat := by
  have := len.toNat_lt
  simp only [flashAddr_eq, gSaCfg, regionBurn]
  omega

theorem flashAddr_gUserCfg_add (len : UInt16) :
    flashAddr (gUserCfg + len.toNat) = flashAddr gUserCfg + len.toNat := by
  have := len.toNat_lt
  simp only [flashAddr_eq, gUserCfg, regionBurn, flashSectorSize]
  omega

theorem programLoop_apply {ptr i size : Nat} {buf : List UInt8} (hptr : flashPageSize ∣ ptr)
    (hi : flashPageSize ∣ i) (hsize : flashPageSize ∣ size) (flash : Flash) (a : Nat) :
    programLoop ptr i size buf flash a =
      if ptr + i ≤ a ∧ a < ptr + size then flash a &&& buf.getD (a - ptr) 0xFF else flash a := by
  by_cases hlt : i < size
  · have hpage : i + flashPageSize ≤ size := by
      obtain ⟨k, rfl⟩ := hi
      obtain ⟨n, rfl⟩ := hsize
      exact (Nat.mul_le_mul_left _ (Nat.lt_of_mul_lt_mul_left hlt)).trans_eq' (Nat.mul_succ _ _)
    rw [programLoop, if_pos hlt, programLoop_apply hptr (Nat.dvd_add hi (Nat.dvd_refl _)) hsize,
      flashPageProgram, programPage_aligned (by decide) (Nat.dvd_add hptr hi)]
    by_cases hhere : ptr + i ≤ a ∧ a < ptr + i + flashPageSize
    · have hindex : ((buf.drop i).take flashPageSize).getD (a - (ptr + i)) 0xFF =
          buf.getD (a - ptr) 0xFF := by
        rw [List.getD_eq_getElem?_getD, List.getElem?_take_of_lt (by omega), List.getElem?_drop,
          List.getD_eq_getElem?_getD]
        congr 2
        omega
      rw [if_neg (by omega), if_pos hhere, if_pos (by omega), hindex]
    · rw [if_neg hhere]
      by_cases hlater : ptr + (i + flashPageSize) ≤ a ∧ a < ptr + size
      · rw [if_pos hlater, if_pos (by omega)]
      · rw [if_neg hlater, if_neg (by omega)]
  · rw [programLoop, if_neg hlt, if_neg (by omega)]
termination_by size - i
decreasing_by
  simp only [flashPageSize]
  omega

section WriteCfg

variable {cfg size : Nat} {block : MemBlock size} {len : UInt16}
  {newCfg : Vector UInt8 len.toNat} {flash : Flash}

/-- What is programmed. -/
def bufferOf (cfg size : Nat) {len : UInt16} (newCfg : Vector UInt8 len.toNat) (flash : Flash) :
    List UInt8 :=
  newCfg.toList ++ readBlock flash (flashAddr (cfg + len.toNat)) (size - len.toNat)

theorem writeCfg_eq (hlen : len.toNat ≤ size) (buf : Vector UInt8 size) :
    writeCfg cfg size (some buf) len newCfg flash =
      some (programLoop (flashAddr cfg) 0 size (bufferOf cfg size newCfg flash)
        (flashSectorErase (flashAddr cfg) flash)) := by
  have hbuf : buf.toList.length = newCfg.toList.length +
      (readBlock flash (flashAddr (cfg + len.toNat)) (size - len.toNat)).length := by
    simp only [readBlock, Vector.length_toList, List.length_map, List.length_range]
    omega
  have hfilled := patch_patch 0 hbuf
  rw [Vector.length_toList] at hfilled
  rw [writeCfg, if_pos hlen, Option.map_some]
  simp only [hfilled, bufferOf]

/-- A result needs a length that is not too long, and a block. -/
theorem writeCfg_some {after : Flash} (h : writeCfg cfg size block len newCfg flash = some after) :
    len.toNat ≤ size ∧ block.isSome ∧
      after = programLoop (flashAddr cfg) 0 size (bufferOf cfg size newCfg flash)
        (flashSectorErase (flashAddr cfg) flash) := by
  have hlen : len.toNat ≤ size := by
    by_contra hlong
    rw [writeCfg, if_neg hlong] at h
    cases h
  cases block with
  | none =>
    rw [writeCfg, if_pos hlen] at h
    cases h
  | some buf =>
    rw [writeCfg_eq hlen] at h
    exact ⟨hlen, rfl, (Option.some.inj h).symm⟩

theorem bufferOf_data {i : Nat} (hi : i < len.toNat) :
    (bufferOf cfg size newCfg flash).getD i 0xFF = newCfg.get ⟨i, hi⟩ := by
  rw [bufferOf, List.getD_append, List.getD_eq_getElem]
  · rfl
  · rwa [Vector.length_toList]

theorem bufferOf_tail {i : Nat} (hcfg : flashAddr (cfg + len.toNat) = flashAddr cfg + len.toNat)
    (hi : len.toNat ≤ i) (hsize : i < size) :
    (bufferOf cfg size newCfg flash).getD i 0xFF = flash (flashAddr cfg + i) := by
  rw [bufferOf, List.getD_append_right, Vector.length_toList, List.getD_eq_getElem?_getD,
    getElem?_readBlock (by omega), Option.getD_some, hcfg]
  · congr 1
    omega
  · rwa [Vector.length_toList]

/-- Nothing is touched outside the range of the configuration. -/
theorem writeCfg_outside (hptr : flashSectorSize ∣ flashAddr cfg) (hsize : flashPageSize ∣ size)
    (hsector : flashSectorSize ≤ size) {after : Flash}
    (h : writeCfg cfg size block len newCfg flash = some after) {a : Nat}
    (ha : a < flashAddr cfg ∨ flashAddr cfg + size ≤ a) : after a = flash a := by
  obtain ⟨-, -, rfl⟩ := writeCfg_some h
  have hpage : flashPageSize ∣ flashAddr cfg := Nat.dvd_trans (by decide) hptr
  rw [programLoop_apply hpage (Nat.dvd_zero _) hsize,
    if_neg (by omega), flashSectorErase, eraseSector_aligned (by decide) hptr, if_neg (by omega)]

/-- A byte is programmed over `0xFF` in the sector that was erased, and over what was
there in the others. -/
theorem writeCfg_inside (hptr : flashSectorSize ∣ flashAddr cfg) (hsize : flashPageSize ∣ size)
    {after : Flash} (h : writeCfg cfg size block len newCfg flash = some after) {i : Nat}
    (hi : i < size) :
    after (flashAddr cfg + i) =
      (if i < flashSectorSize then 0xFF else flash (flashAddr cfg + i)) &&&
        (bufferOf cfg size newCfg flash).getD i 0xFF := by
  obtain ⟨-, -, rfl⟩ := writeCfg_some h
  have hpage : flashPageSize ∣ flashAddr cfg := Nat.dvd_trans (by decide) hptr
  rw [programLoop_apply hpage (Nat.dvd_zero _) hsize,
    if_pos (by omega), flashSectorErase, eraseSector_aligned (by decide) hptr,
    Nat.add_sub_cancel_left]
  simp only [Nat.le_add_right, true_and, Nat.add_lt_add_iff_left]

theorem restKept_of_writeCfg (hptr : flashSectorSize ∣ flashAddr cfg)
    (hsize : flashPageSize ∣ size)
    (hcfg : flashAddr (cfg + len.toNat) = flashAddr cfg + len.toNat) {after : Flash}
    (h : writeCfg cfg size block len newCfg flash = some after) :
    RestKept cfg size flash after len := by
  intro i hi hin
  rw [writeCfg_inside hptr hsize h hin, bufferOf_tail hcfg hi hin]
  split
  · exact free_and _
  · exact UInt8.and_self

theorem holds_of_writeCfg_iff (hptr : flashSectorSize ∣ flashAddr cfg)
    (hsize : flashPageSize ∣ size) (hlen : len.toNat ≤ size) {after : Flash}
    (h : writeCfg cfg size block len newCfg flash = some after) :
    Holds cfg newCfg after ↔ NoBitSetBehind cfg newCfg flash := by
  have hbyte {i : Nat} (hi : i < len.toNat) : after (flashAddr cfg + i) =
      (if i < flashSectorSize then 0xFF else flash (flashAddr cfg + i)) &&&
        newCfg.get ⟨i, hi⟩ := by
    rw [writeCfg_inside hptr hsize h (hi.trans_le hlen), bufferOf_data hi]
  constructor
  · intro hholds i hi hbehind
    have heq := hholds i hi
    rwa [hbyte hi, if_neg (by omega)] at heq
  · intro hbits i hi
    rw [hbyte hi]
    split
    · exact free_and _
    · exact hbits i hi (by omega)

end WriteCfg

/-- With a block every configuration arrives. -/
theorem cfgSaWriteCfg_iff (block : MemBlock flashSectorSize) (len : UInt16)
    (newCfg : Vector UInt8 len.toNat) (flash : Flash) (hlen : len.toNat ≤ flashSectorSize) :
    (∃ after, cfgSaWriteCfg block len newCfg flash = some after ∧ Holds gSaCfg newCfg after ∧
      RestKept gSaCfg flashSectorSize flash after len ∧
      ∀ a, a / flashSectorSize ≠ flashAddr gSaCfg / flashSectorSize → after a = flash a) ↔
    block.isSome := by
  have hptr : flashSectorSize ∣ flashAddr gSaCfg := by decide
  have hsize : flashPageSize ∣ flashSectorSize := by decide
  constructor
  · rintro ⟨after, h, -⟩
    exact (writeCfg_some h).2.1
  · intro hsome
    obtain ⟨buf, rfl⟩ := Option.isSome_iff_exists.mp hsome
    have h : cfgSaWriteCfg (some buf) len newCfg flash = some _ := writeCfg_eq hlen buf
    refine ⟨_, h, (holds_of_writeCfg_iff hptr hsize hlen h).mpr ?_,
      restKept_of_writeCfg hptr hsize (flashAddr_gSaCfg_add len) h, ?_⟩
    · intro i hi hbehind
      omega
    · intro a ha
      rw [Ne, same_block_iff (by decide) hptr] at ha
      exact writeCfg_outside hptr hsize (Nat.le_refl _) h (by omega)

/-- A page and a part of the next one. -/
def acrossPages : Vector UInt8 (300 : UInt16).toNat := Vector.replicate 300 7

theorem cfgSaWriteCfg_iff_acrossPages :
    ∃ after, cfgSaWriteCfg (some (Vector.replicate _ 0)) 300 acrossPages (fun _ => 0x5A) =
      some after ∧ Holds gSaCfg acrossPages after ∧
      RestKept gSaCfg flashSectorSize (fun _ => 0x5A) after 300 ∧
      ∀ a, a / flashSectorSize ≠ flashAddr gSaCfg / flashSectorSize → after a = 0x5A :=
  (cfgSaWriteCfg_iff _ 300 acrossPages _ (by decide)).mpr rfl

/-- Without a block nothing is promised. -/
theorem cfgSaWriteCfg_no_block :
    ¬ ∃ after, cfgSaWriteCfg none 300 acrossPages (fun _ => 0x5A) = some after ∧
      Holds gSaCfg acrossPages after := by
  rintro ⟨after, h, -⟩
  cases (writeCfg_some h).2.1

/-- Data for the first sector always arrive. -/
theorem holds_cfgUserWriteCfg (buf : Vector UInt8 (flashSectorSize <<< 1)) {len : UInt16}
    (newUserData : Vector UInt8 len.toNat) (flash : Flash) (hlen : len.toNat ≤ flashSectorSize) :
    ∃ after, cfgUserWriteCfg (some buf) len newUserData flash = some after ∧
      Holds gUserCfg newUserData after := by
  have hall : len.toNat ≤ flashSectorSize <<< 1 := hlen.trans (by decide)
  have h : cfgUserWriteCfg (some buf) len newUserData flash = some _ := writeCfg_eq hall buf
  refine ⟨_, h, (holds_of_writeCfg_iff (by decide) (by decide) hall h).mpr ?_⟩
  intro i hi hbehind
  omega

theorem cfgUserReadCfg_some (buf : Vector UInt8 (flashSectorSize <<< 1)) {len : UInt16}
    (flash : Flash) (hlen : len.toNat ≤ flashSectorSize <<< 1) :
    cfgUserReadCfg (some buf) len flash =
      some (readBlock flash (flashAddr gUserCfg) len.toNat) := by
  have hlength : (readBlock flash (flashAddr gUserCfg) len.toNat).length = len.toNat := by
    rw [readBlock, List.length_map, List.length_range]
  rw [cfgUserReadCfg, if_pos hlen, Option.map_some, patch_zero, List.take_left' hlength]

theorem readBlock_of_holds {cfg : Nat} {len : UInt16} {newCfg : Vector UInt8 len.toNat}
    {after : Flash} (h : Holds cfg newCfg after) :
    readBlock after (flashAddr cfg) len.toNat = newCfg.toList := by
  apply List.ext_getElem
  · rw [readBlock, List.length_map, List.length_range, Vector.length_toList]
  · intro i hi hi'
    rw [Vector.length_toList] at hi'
    simp only [readBlock, List.getElem_map, List.getElem_range]
    exact h i hi'

/-- The second sector is programmed without an erase, so it can only lose bits. -/
theorem cfgUserWriteCfg_iff (block : MemBlock (flashSectorSize <<< 1)) (len : UInt16)
    (newUserData : Vector UInt8 len.toNat) (flash : Flash)
    (hlen : len.toNat ≤ flashSectorSize <<< 1) :
    (∃ after, cfgUserWriteCfg block len newUserData flash = some after ∧
      Holds gUserCfg newUserData after ∧
      RestKept gUserCfg (flashSectorSize <<< 1) flash after len) ↔
    block.isSome ∧ NoBitSetBehind gUserCfg newUserData flash := by
  have hptr : flashSectorSize ∣ flashAddr gUserCfg := by decide
  have hsize : flashPageSize ∣ flashSectorSize <<< 1 := by decide
  constructor
  · rintro ⟨after, h, hdata, -⟩
    exact ⟨(writeCfg_some h).2.1, (holds_of_writeCfg_iff hptr hsize hlen h).mp hdata⟩
  · rintro ⟨hsome, hbits⟩
    obtain ⟨buf, rfl⟩ := Option.isSome_iff_exists.mp hsome
    have h : cfgUserWriteCfg (some buf) len newUserData flash = some _ := writeCfg_eq hlen buf
    exact ⟨_, h, (holds_of_writeCfg_iff hptr hsize hlen h).mpr hbits,
      restKept_of_writeCfg hptr hsize (flashAddr_gUserCfg_add len) h⟩

/-- Four bytes reach into the second sector. -/
def acrossSectors : Vector UInt8 (4100 : UInt16).toNat := Vector.replicate 4100 0x12

/-- They clear bits only. -/
theorem cfgUserWriteCfg_iff_acrossSectors :
    ∃ after, cfgUserWriteCfg (some (Vector.replicate _ 0)) 4100 acrossSectors (fun _ => 0x5A) =
      some after ∧ Holds gUserCfg acrossSectors after ∧
      RestKept gUserCfg (flashSectorSize <<< 1) (fun _ => 0x5A) after 4100 := by
  refine (cfgUserWriteCfg_iff _ 4100 acrossSectors _ (by decide)).mpr ⟨rfl, fun i hi _ => ?_⟩
  have hbyte : acrossSectors.get ⟨i, hi⟩ = 0x12 := Vector.getElem_replicate hi
  rw [hbyte]
  exact (by decide : (0x5A : UInt8) &&& 0x12 = 0x12)

def beyondSector : Vector UInt8 (4097 : UInt16).toNat := Vector.replicate 4097 0xFF

/-- The first byte of the second sector stays 0. -/
theorem cfgUserWriteCfg_lost :
    ¬ ∃ after, cfgUserWriteCfg (some (Vector.replicate _ 0)) 4097 beyondSector (fun _ => 0) =
      some after ∧ Holds gUserCfg beyondSector after := by
  rintro ⟨after, h, hholds⟩
  have hbits := (holds_of_writeCfg_iff (by decide) (by decide) (by decide) h).mp hholds 4096
    (by decide) (by decide)
  have hlast : beyondSector.get ⟨4096, by decide⟩ = 0xFF := Vector.getElem_replicate (by decide)
  exact absurd (hbits.trans hlast) (by rw [hlast]; decide)

end Sv6x66.Cfg.SectorWrite
