import Sv6x66.Lib.NorFlash

/-! The flash state log of `mytime.c`: one sector of bytes, each byte holding
the switch state and the power-on count. Addresses are those of the memory
map; the flash commands take the low 24 bits of them. `OS_MemAlloc` of the page
buffer is taken to succeed, as the code does not look at its result. -/
namespace Sv6x66.Colink.FlagLog
open Sv6x66.Lib.NorFlash

def flashSectorSize : Nat := 4096
def flashPageSize : Nat := 256
def flagStartAddr : Nat := 0x30007000
def flagLength : Nat := flashSectorSize

/-- `*(uint8_t*)addr`: the chip is mapped at `0x30000000`. -/
def readMem (flash : Flash) (addr : Nat) : UInt8 :=
  flash (addr &&& 0xFFFFFF)

def writeFlashByte (flash : Flash) (addr : Nat) (value : UInt8) : Flash :=
  let full := addr ≥ flagStartAddr + flagLength
  let flash := if full then
    eraseSector flashSectorSize (flagStartAddr &&& 0xFFFFFF) flash else flash
  let addr := if full then flagStartAddr else addr
  let ptr := addr / flashPageSize * flashPageSize
  let buf := readBlock flash (ptr &&& 0xFFFFFF) flashPageSize
  programPage flashPageSize (ptr &&& 0xFFFFFF) (buf.set (addr % flashPageSize) value) flash

/-- The `while(addr1 < addr2)` search; it returns the final `addr1`. -/
def find0xffLoop (flash : Flash) (addr1 addr2 : Nat) : Nat :=
  if addr1 < addr2 then
    let p := (addr1 + addr2) >>> 1
    if readMem flash p = 0xFF then find0xffLoop flash addr1 (p - 1)
    else find0xffLoop flash (p + 1) addr2
  else addr1
termination_by addr2 - addr1
decreasing_by
  · simp only [Nat.shiftRight_eq_div_pow]
    omega
  · simp only [Nat.shiftRight_eq_div_pow]
    omega

def findFirst0xff (flash : Flash) : Nat :=
  let addr1 := find0xffLoop flash flagStartAddr (flagStartAddr + flagLength - 1)
  if readMem flash addr1 ≠ 0xFF then addr1 + 1 else addr1

/-- `for(i = 0; (value & (1 << i)) == 0; i++)`, stopped after `bound` rounds. -/
def firstSetBit (value : UInt8) : (bound : Nat) → (i : UInt8) → UInt8
  | 0, i => i
  | bound + 1, i => if value &&& (1 <<< i) = 0 then firstSetBit value bound (i + 1) else i

/-- `addr = find_first_0xff(); if(addr > FLAG_START_ADDR) addr--;` -/
def lastUsedAddr (flash : Flash) : Nat :=
  let addr := findFirst0xff flash
  if addr > flagStartAddr then addr - 1 else addr

/-- The search for the first set bit has no bound in the source: it stops
within the byte because it runs only when `value & 0x1f` is not zero. -/
def addPoweronNumber (flash : Flash) : Flash :=
  let addr := lastUsedAddr flash
  let value := readMem flash addr
  if value &&& 0x20 ≠ 0 then
    if value &&& 0x1f ≠ 0 then
      let i := firstSetBit value 8 0
      writeFlashByte flash addr (value &&& ~~~(1 <<< i))
    else flash
  else
    writeFlashByte flash (addr + 1) ((value &&& 0xc0) ||| 0x3e)

/-- The count a log byte stands for. -/
def poweronNumber (value : UInt8) : UInt8 :=
  if value &&& 0x20 ≠ 0 then firstSetBit value 5 0 else 0

def getPoweronNumber (flash : Flash) : UInt8 :=
  poweronNumber (readMem flash (lastUsedAddr flash))

def clearPoweronNumber (flash : Flash) : Flash :=
  let addr := lastUsedAddr flash
  let value := readMem flash addr
  writeFlashByte flash addr (value &&& 0xdf)

def setSwitchNvram (flash : Flash) (pwrStatus : Bool) : Flash :=
  let addr := lastUsedAddr flash
  let temp := readMem flash addr
  let addr := if temp &&& 0x80 = 0 then addr + 1 else addr
  let value : UInt8 := if pwrStatus then 0x7f else 0x3f
  let value := if temp &&& 0x20 ≠ 0 then value &&& (0xc0 ||| temp) else value
  writeFlashByte flash addr value

/-- The switch state a log byte stands for. -/
def switchNvram (value : UInt8) : Bool :=
  if value &&& 0x80 ≠ 0 then false
  else if value &&& 0x40 ≠ 0 then true
  else false

def getSwitchNvram (flash : Flash) : Bool :=
  switchNvram (readMem flash (lastUsedAddr flash))

/-! ### The shape of the log -/

def logByte (flash : Flash) (i : Nat) : UInt8 := readMem flash (flagStartAddr + i)

/-- `used` bytes different from `0xFF`, then `0xFF` up to the end of the sector. -/
structure LogShape (flash : Flash) (used : Nat) : Prop where
  used_le : used ≤ flagLength
  written : ∀ i < used, logByte flash i ≠ 0xFF
  free : ∀ i, used ≤ i → i < flagLength → logByte flash i = 0xFF

/-- The byte every operation looks at: the last used one, or the first byte of
an empty log. -/
def current (flash : Flash) (used : Nat) : UInt8 := logByte flash (used - 1)

theorem mask_eq (addr : Nat) : addr &&& 0xFFFFFF = addr % 2 ^ 24 :=
  Nat.and_two_pow_sub_one_eq_mod addr 24

theorem logByte_eq (flash : Flash) {i : Nat} (hi : i < flagLength) :
    logByte flash i = flash (0x7000 + i) := by
  have : (flagStartAddr + i) % 2 ^ 24 = 0x7000 + i := by
    simp only [flagStartAddr, flagLength, flashSectorSize] at hi ⊢
    omega
  rw [logByte, readMem, mask_eq, this]

/-- Inside the sector a write combines one byte with the value. -/
theorem writeFlashByte_inside (flash : Flash) (value : UInt8) {i : Nat} (hi : i < flagLength) :
    writeFlashByte flash (flagStartAddr + i) value =
      Function.update flash (0x7000 + i) (flash (0x7000 + i) &&& value) := by
  have hfull : ¬ flagStartAddr + i ≥ flagStartAddr + flagLength := by omega
  have hptr : ((flagStartAddr + i) / flashPageSize * flashPageSize) &&& 0xFFFFFF =
      0x7000 + i - i % flashPageSize := by
    rw [mask_eq]
    simp only [flagStartAddr, flagLength, flashSectorSize, flashPageSize] at hi ⊢
    omega
  have hoffset : (flagStartAddr + i) % flashPageSize = i % flashPageSize := by
    simp only [flagStartAddr, flashPageSize]
    omega
  have hsum : 0x7000 + i - i % flashPageSize + i % flashPageSize = 0x7000 + i := by
    have := Nat.mod_le i flashPageSize
    omega
  unfold writeFlashByte
  simp only [hfull, if_false, hptr, hoffset]
  rw [programPage_patch flash value, hsum]
  · simp only [flashPageSize]
    omega
  · exact Nat.mod_lt _ (by decide)

/-- One byte past the end the sector is erased first and the value becomes its
first byte. -/
theorem writeFlashByte_full (flash : Flash) (value : UInt8) :
    writeFlashByte flash (flagStartAddr + flagLength) value =
      writeFlashByte (eraseSector flashSectorSize 0x7000 flash) flagStartAddr value := by
  unfold writeFlashByte
  simp [flagStartAddr, flagLength, flashSectorSize]

theorem logByte_update (flash : Flash) (value : UInt8) {i j : Nat}
    (hj : j < flagLength) :
    logByte (Function.update flash (0x7000 + i) value) j =
      if j = i then value else logByte flash j := by
  rw [logByte_eq _ hj, logByte_eq _ hj, Function.update_apply]
  by_cases h : j = i
  · simp [h]
  · rw [if_neg h, if_neg (by omega)]

theorem logByte_erase (flash : Flash) {i : Nat} (hi : i < flagLength) :
    logByte (eraseSector flashSectorSize 0x7000 flash) i = 0xFF := by
  rw [logByte_eq _ hi, eraseSector_inside]
  simp only [flagLength, flashSectorSize] at hi ⊢
  omega

theorem LogShape.erased {flash : Flash} (h : ∀ i < flagLength, logByte flash i = 0xFF) :
    LogShape flash 0 where
  used_le := Nat.zero_le _
  written := by omega
  free := fun i _ hi => h i hi

/-! ### The search -/

/-- While the search runs, the first free byte lies in `[addr1, addr2 + 1]`. -/
theorem find0xffLoop_eq {flash : Flash} {used : Nat} (hshape : LogShape flash used)
    (addr1 addr2 : Nat) (hlow : flagStartAddr ≤ addr1)
    (hinside : addr1 < flagStartAddr + flagLength)
    (hfirst : addr1 ≤ flagStartAddr + used) (hlast : flagStartAddr + used ≤ addr2 + 1)
    (hhigh : addr2 < flagStartAddr + flagLength) :
    addr1 ≤ find0xffLoop flash addr1 addr2 ∧
      find0xffLoop flash addr1 addr2 ≤ flagStartAddr + used ∧
      flagStartAddr + used ≤ find0xffLoop flash addr1 addr2 + 1 ∧
      find0xffLoop flash addr1 addr2 < flagStartAddr + flagLength := by
  induction addr1, addr2 using find0xffLoop.induct flash with
  | case1 addr1 addr2 hlt p hfree ih =>
    rw [find0xffLoop, if_pos hlt]
    simp only [p, Nat.shiftRight_eq_div_pow] at hfree ih ⊢
    rw [if_pos hfree]
    refine ih hlow hinside hfirst ?_ (by omega)
    by_contra hbeyond
    refine hshape.written ((addr1 + addr2) / 2 ^ 1 - flagStartAddr) (by omega) ?_
    rw [logByte, show flagStartAddr + ((addr1 + addr2) / 2 ^ 1 - flagStartAddr) =
      (addr1 + addr2) / 2 ^ 1 by omega]
    exact hfree
  | case2 addr1 addr2 hlt p hused ih =>
    rw [find0xffLoop, if_pos hlt]
    simp only [p, Nat.shiftRight_eq_div_pow] at hused ih ⊢
    rw [if_neg hused]
    have hbefore : (addr1 + addr2) / 2 ^ 1 + 1 ≤ flagStartAddr + used := by
      by_contra hbefore
      apply hused
      have := hshape.free ((addr1 + addr2) / 2 ^ 1 - flagStartAddr) (by omega) (by omega)
      rw [logByte, show flagStartAddr + ((addr1 + addr2) / 2 ^ 1 - flagStartAddr) =
        (addr1 + addr2) / 2 ^ 1 by omega] at this
      exact this
    obtain ⟨hlow', hrest⟩ := ih (by omega) (by omega) hbefore hlast hhigh
    exact ⟨by omega, hrest⟩
  | case3 addr1 addr2 hge =>
    rw [find0xffLoop, if_neg hge]
    omega

theorem findFirst0xff_eq {flash : Flash} {used : Nat} (hshape : LogShape flash used) :
    findFirst0xff flash = flagStartAddr + used := by
  have hlen : flagLength = 4096 := rfl
  have hused := hshape.used_le
  obtain ⟨hlow, hle, hge, hin⟩ := find0xffLoop_eq hshape flagStartAddr
    (flagStartAddr + flagLength - 1) (by omega) (by omega) (by omega) (by omega) (by omega)
  unfold findFirst0xff
  generalize find0xffLoop flash flagStartAddr (flagStartAddr + flagLength - 1) = addr1 at *
  obtain ⟨i, rfl⟩ := Nat.exists_eq_add_of_le hlow
  by_cases hbyte : readMem flash (flagStartAddr + i) = 0xFF
  · have : ¬ i < used := fun h => hshape.written i h hbyte
    simp only [hbyte, ne_eq, not_true, if_false]
    omega
  · have : ¬ used ≤ i := fun h => hbyte (hshape.free i h (by omega))
    simp only [hbyte, ne_eq, not_false_eq_true, if_true]
    omega

end Sv6x66.Colink.FlagLog
