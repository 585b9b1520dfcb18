import Sv6x66.Colink.FlagLogRefinement

/-! Power cuts inside the operations of the flash log. An operation writes one
byte at most; writing it is one page program, and an erase before it when the
sector is full. -/
namespace Sv6x66.Colink.PowerLoss
open Sv6x66.Lib.NorFlash
open Sv6x66.Colink.FlagLog
open Sv6x66.Colink.FlagLogRefinement

inductive Primitive where
  | flashSectorErase (addr : Nat)
  | flashPageProgram (addr : Nat) (data : List UInt8)
deriving DecidableEq, Repr

def execute (flash : Flash) : Primitive → Flash
  | .flashSectorErase addr => eraseSector flashSectorSize addr flash
  | .flashPageProgram addr data => programPage flashPageSize addr data flash

def executeAll (flash : Flash) (primitives : List Primitive) : Flash :=
  primitives.foldl execute flash

/-- The primitives of `write_flash_byte`. The page is read after the erase. -/
def writeFlashBytePrimitives (flash : Flash) (addr : Nat) (value : UInt8) : List Primitive :=
  let full := addr ≥ flagStartAddr + flagLength
  let erase := if full then [.flashSectorErase (flagStartAddr &&& 0xFFFFFF)] else []
  let flash := executeAll flash erase
  let addr := if full then flagStartAddr else addr
  let ptr := addr / flashPageSize * flashPageSize
  let buf := readBlock flash (ptr &&& 0xFFFFFF) flashPageSize
  erase ++ [.flashPageProgram (ptr &&& 0xFFFFFF) (buf.set (addr % flashPageSize) value)]

theorem executeAll_writeFlashByte (flash : Flash) (addr : Nat) (value : UInt8) :
    executeAll flash (writeFlashBytePrimitives flash addr value) =
      writeFlashByte flash addr value := by
  unfold writeFlashBytePrimitives writeFlashByte
  simp only
  split
  · rfl
  · rfl

/-- The arguments of the call of `write_flash_byte`, if there is one. -/
def writeOf (flash : Flash) (op : LogOp) : Option (Nat × UInt8) :=
  let addr := lastUsedAddr flash
  let value := readMem flash addr
  match op with
  | .addPoweronNumber =>
    if value &&& 0x20 ≠ 0 then
      if value &&& 0x1f ≠ 0 then some (addr, value &&& ~~~(1 <<< firstSetBit value 8 0)) else none
    else some (addr + 1, (value &&& 0xc0) ||| 0x3e)
  | .clearPoweronNumber => some (addr, value &&& 0xdf)
  | .setSwitchNvram pwrStatus =>
    let written : UInt8 := if pwrStatus then 0x7f else 0x3f
    let written := if value &&& 0x20 ≠ 0 then written &&& (0xc0 ||| value) else written
    some (if value &&& 0x80 = 0 then addr + 1 else addr, written)

def primitivesOf (flash : Flash) (op : LogOp) : List Primitive :=
  match writeOf flash op with
  | some (addr, value) => writeFlashBytePrimitives flash addr value
  | none => []

theorem executeAll_primitivesOf (flash : Flash) (op : LogOp) :
    executeAll flash (primitivesOf flash op) = applyOp flash op := by
  unfold primitivesOf
  cases op with
  | addPoweronNumber =>
    simp only [writeOf, applyOp, addPoweronNumber]
    split <;> rename_i hwrite
    · split at hwrite
      · split at hwrite
        · cases hwrite
          rw [executeAll_writeFlashByte, if_pos ‹_›, if_pos ‹_›]
        · cases hwrite
      · cases hwrite
        rw [executeAll_writeFlashByte, if_neg ‹_›]
    · split at hwrite
      · split at hwrite
        · cases hwrite
        · rw [if_pos ‹_›, if_neg ‹_›]
          rfl
      · cases hwrite
  | clearPoweronNumber => exact executeAll_writeFlashByte _ _ _
  | setSwitchNvram pwrStatus => exact executeAll_writeFlashByte _ _ _

/-- The sector after `n` primitives of the operation. -/
def cut (flash : Flash) (op : LogOp) (n : Nat) : Flash :=
  executeAll flash ((primitivesOf flash op).take n)

/-- Sectors reached from a blank one by operations, each of them complete or
cut. -/
inductive Reachable : Flash → Prop where
  | blank (flash : Flash) (h : ∀ i < flagLength, logByte flash i = 0xFF) : Reachable flash
  | cut (flash : Flash) (op : LogOp) (n : Nat) (h : Reachable flash) : Reachable (cut flash op n)

/-- Wherever the power is lost, each reader returns what it returned before the
operation or what it returns after it. -/
def SurvivesCuts (flash : Flash) (op : LogOp) : Prop :=
  ∀ n, (getSwitchNvram (cut flash op n) = getSwitchNvram flash ∨
      getSwitchNvram (cut flash op n) = getSwitchNvram (applyOp flash op)) ∧
    (getPoweronNumber (cut flash op n) = getPoweronNumber flash ∨
      getPoweronNumber (cut flash op n) = getPoweronNumber (applyOp flash op))

/-- The operation starts a new byte and the sector has none left. -/
def Wraps (flash : Flash) (op : LogOp) : Prop :=
  findFirst0xff flash = flagStartAddr + flagLength ∧
    match op with
    | .addPoweronNumber => readMem flash (lastUsedAddr flash) &&& 0x20 = 0
    | .clearPoweronNumber => False
    | .setSwitchNvram _ => readMem flash (lastUsedAddr flash) &&& 0x80 = 0

/-! ### The primitives of one operation -/

theorem primitives_inside (flash : Flash) {addr : Nat} (value : UInt8)
    (h : addr < flagStartAddr + flagLength) :
    ∃ program, writeFlashBytePrimitives flash addr value = [program] := by
  have hinside : ¬ addr ≥ flagStartAddr + flagLength := by omega
  simp only [writeFlashBytePrimitives, hinside, if_false, List.nil_append]
  exact ⟨_, rfl⟩

theorem primitives_full (flash : Flash) {addr : Nat} (value : UInt8)
    (h : flagStartAddr + flagLength ≤ addr) :
    ∃ program, writeFlashBytePrimitives flash addr value =
      [.flashSectorErase (flagStartAddr &&& 0xFFFFFF), program] := by
  have hfull : addr ≥ flagStartAddr + flagLength := h
  simp only [writeFlashBytePrimitives, hfull, if_true]
  exact ⟨_, rfl⟩

/-- The sector is full exactly where the next byte would be the first one after
it. -/
theorem lastUsedAddr_full {flash : Flash} {used : Nat} (hshape : LogShape flash used) :
    (flagStartAddr + flagLength ≤ lastUsedAddr flash + 1 ↔
      findFirst0xff flash = flagStartAddr + flagLength) ∧
      lastUsedAddr flash < flagStartAddr + flagLength := by
  have hlen : flagLength = 4096 := rfl
  have hused := hshape.used_le
  rw [lastUsedAddr_eq hshape, findFirst0xff_eq hshape]
  omega

/-- Without a wrap there is one primitive at most. -/
theorem primitivesOf_inside {flash : Flash} {used : Nat} (hshape : LogShape flash used)
    {op : LogOp} (hwrap : ¬ Wraps flash op) : (primitivesOf flash op).length ≤ 1 := by
  obtain ⟨hfull, hlast⟩ := lastUsedAddr_full hshape
  unfold Wraps at hwrap
  rw [← hfull] at hwrap
  have hinside (addr : Nat) (value : UInt8) (h : addr < flagStartAddr + flagLength) :
      (writeFlashBytePrimitives flash addr value).length ≤ 1 := by
    obtain ⟨program, hprogram⟩ := primitives_inside flash value h
    rw [hprogram]
    exact le_refl _
  cases op with
  | addPoweronNumber =>
    by_cases hvalid : readMem flash (lastUsedAddr flash) &&& 0x20 = 0
    · have hroom : lastUsedAddr flash + 1 < flagStartAddr + flagLength := by
        by_contra hroom
        exact hwrap ⟨by omega, hvalid⟩
      simp only [primitivesOf, writeOf, hvalid, ne_eq, not_true, if_false]
      exact hinside _ _ hroom
    · simp only [primitivesOf, writeOf, hvalid, ne_eq, not_false_eq_true, if_true]
      split <;> rename_i hwrite
      · split at hwrite
        · cases hwrite
          exact hinside _ _ hlast
        · cases hwrite
      · exact Nat.zero_le _
  | clearPoweronNumber => exact hinside _ _ hlast
  | setSwitchNvram pwrStatus =>
    simp only [primitivesOf, writeOf]
    refine hinside _ _ ?_
    split
    · rename_i hused
      by_contra hroom
      exact hwrap ⟨by omega, hused⟩
    · exact hlast

/-- With a wrap the sector is erased, then programmed. -/
theorem primitivesOf_wraps {flash : Flash} {used : Nat} (hshape : LogShape flash used)
    {op : LogOp} (hwrap : Wraps flash op) :
    ∃ program, primitivesOf flash op =
      [.flashSectorErase (flagStartAddr &&& 0xFFFFFF), program] := by
  obtain ⟨hfull, hcase⟩ := hwrap
  have hroom := (lastUsedAddr_full hshape).1.mpr hfull
  cases op with
  | addPoweronNumber =>
    simp only at hcase
    simp only [primitivesOf, writeOf, hcase, ne_eq, not_true, if_false]
    exact primitives_full flash _ hroom
  | clearPoweronNumber => exact absurd hcase id
  | setSwitchNvram pwrStatus =>
    simp only at hcase
    simp only [primitivesOf, writeOf, hcase, if_true]
    exact primitives_full flash _ hroom

/-! ### The states a cut can leave -/

theorem cut_zero (flash : Flash) (op : LogOp) : cut flash op 0 = flash := rfl

theorem cut_all {flash : Flash} {op : LogOp} {n : Nat} (h : (primitivesOf flash op).length ≤ n) :
    cut flash op n = applyOp flash op := by
  unfold cut
  rw [List.take_of_length_le h, executeAll_primitivesOf]

theorem cut_inside {flash : Flash} {used : Nat} (hshape : LogShape flash used) {op : LogOp}
    (hwrap : ¬ Wraps flash op) (n : Nat) :
    cut flash op n = flash ∨ cut flash op n = applyOp flash op := by
  have hlen := primitivesOf_inside hshape hwrap
  cases n with
  | zero => exact .inl (cut_zero flash op)
  | succ n => exact .inr (cut_all (by omega))

theorem cut_one_of_wraps {flash : Flash} {used : Nat} (hshape : LogShape flash used) {op : LogOp}
    (hwrap : Wraps flash op) : cut flash op 1 = eraseSector flashSectorSize 0x7000 flash := by
  obtain ⟨program, hprimitives⟩ := primitivesOf_wraps hshape hwrap
  unfold cut
  rw [hprimitives]
  rfl

theorem cut_wraps {flash : Flash} {used : Nat} (hshape : LogShape flash used) {op : LogOp}
    (hwrap : Wraps flash op) (n : Nat) :
    cut flash op n = flash ∨ cut flash op n = eraseSector flashSectorSize 0x7000 flash ∨
      cut flash op n = applyOp flash op := by
  obtain ⟨program, hprimitives⟩ := primitivesOf_wraps hshape hwrap
  match n with
  | 0 => exact .inl (cut_zero flash op)
  | 1 => exact .inr (.inl (cut_one_of_wraps hshape hwrap))
  | n + 2 =>
    refine .inr (.inr (cut_all ?_))
    rw [hprimitives]
    simp

theorem logOk_erase (flash : Flash) : LogOk (eraseSector flashSectorSize 0x7000 flash) :=
  LogOk.erased fun _ hi => logByte_erase flash hi

/-- A cut never leaves a sector the log cannot go on with. -/
theorem Reachable.logOk {flash : Flash} (h : Reachable flash) : LogOk flash := by
  induction h with
  | blank flash herased => exact LogOk.erased herased
  | cut flash op n _ ih =>
    obtain ⟨value, ⟨used, hshape, hcurrent⟩, hok⟩ := ih
    have hlog : LogOk flash := ⟨value, ⟨used, hshape, hcurrent⟩, hok⟩
    by_cases hwrap : Wraps flash op
    · obtain hcut | hcut | hcut := cut_wraps hshape hwrap n
      · rw [hcut]
        exact hlog
      · rw [hcut]
        exact logOk_erase flash
      · rw [hcut]
        exact hlog.applyOp op
    · obtain hcut | hcut := cut_inside hshape hwrap n
      · rw [hcut]
        exact hlog
      · rw [hcut]
        exact hlog.applyOp op

/-! ### What survives -/

theorem retained_erase (flash : Flash) :
    retained (eraseSector flashSectorSize 0x7000 flash) = .initial := by
  have hlog : Log (eraseSector flashSectorSize 0x7000 flash) 0xFF :=
    ⟨0, LogShape.erased fun _ hi => logByte_erase flash hi, logByte_erase flash (by decide)⟩
  rw [retained_of_log hlog]
  decide

theorem getSwitchNvram_erase (flash : Flash) :
    getSwitchNvram (eraseSector flashSectorSize 0x7000 flash) = false :=
  congrArg Retained.switchOn (retained_erase flash)

theorem getPoweronNumber_erase (flash : Flash) :
    getPoweronNumber (eraseSector flashSectorSize 0x7000 flash) = 0 :=
  UInt8.toNat_inj.mp (congrArg Retained.count (retained_erase flash))

/-- A wrapped operation survives exactly if the blank log agrees, value by
value, with the log before or after it. -/
theorem survivesCuts_of_wraps {flash : Flash} {used : Nat} (hshape : LogShape flash used)
    {op : LogOp} (hwrap : Wraps flash op) :
    SurvivesCuts flash op ↔
      (getSwitchNvram flash = false ∨ getSwitchNvram (applyOp flash op) = false) ∧
        (getPoweronNumber flash = 0 ∨ getPoweronNumber (applyOp flash op) = 0) := by
  constructor
  · intro hsurvives
    obtain ⟨hswitch, hcount⟩ := hsurvives 1
    rw [cut_one_of_wraps hshape hwrap, getSwitchNvram_erase] at hswitch
    rw [cut_one_of_wraps hshape hwrap, getPoweronNumber_erase] at hcount
    exact ⟨hswitch.imp Eq.symm Eq.symm, hcount.imp Eq.symm Eq.symm⟩
  · intro hblank n
    obtain hcut | hcut | hcut := cut_wraps hshape hwrap n
    · rw [hcut]
      exact ⟨.inl rfl, .inl rfl⟩
    · rw [hcut, getSwitchNvram_erase, getPoweronNumber_erase]
      exact ⟨hblank.1.imp Eq.symm Eq.symm, hblank.2.imp Eq.symm Eq.symm⟩
    · rw [hcut]
      exact ⟨.inr rfl, .inr rfl⟩

theorem poweronNumber_of_invalid {flash : Flash}
    (h : readMem flash (lastUsedAddr flash) &&& 0x20 = 0) : getPoweronNumber flash = 0 := by
  unfold getPoweronNumber poweronNumber
  rw [if_neg (not_not_intro h)]

/-- For every reachable sector an operation survives every cut exactly if it
does not wrap, or wraps with a count of zero and a switch that is off before it
or is switched off by it. -/
theorem survives_cuts_iff (flash : Flash) (hreach : Reachable flash) (op : LogOp) :
    SurvivesCuts flash op ↔
      (Wraps flash op → getPoweronNumber flash = 0 ∧
        (getSwitchNvram flash = false ∨ op = .setSwitchNvram false)) := by
  have hlog := hreach.logOk
  obtain ⟨value, ⟨used, hshape, -⟩, -⟩ := hreach.logOk
  by_cases hwrap : Wraps flash op
  · have hafter := hlog.retained_applyOp op
    have hcount := congrArg Retained.count hafter
    have hswitch := congrArg Retained.switchOn hafter
    rw [survivesCuts_of_wraps hshape hwrap]
    cases op with
    | addPoweronNumber =>
      have hzero := poweronNumber_of_invalid hwrap.2
      change getSwitchNvram (applyOp flash .addPoweronNumber) = getSwitchNvram flash at hswitch
      simp [hswitch, hzero, hwrap]
    | clearPoweronNumber => exact absurd hwrap.2 id
    | setSwitchNvram pwrStatus =>
      change getSwitchNvram (applyOp flash (.setSwitchNvram pwrStatus)) = pwrStatus at hswitch
      have hsame : getPoweronNumber (applyOp flash (.setSwitchNvram pwrStatus)) =
        getPoweronNumber flash := UInt8.toNat_inj.mp hcount
      simp [hswitch, hsame, hwrap, and_comm]
  · constructor
    · intro _ h
      exact absurd h hwrap
    · intro _ n
      obtain hcut | hcut := cut_inside hshape hwrap n
      · rw [hcut]
        exact ⟨.inl rfl, .inl rfl⟩
      · rw [hcut]
        exact ⟨.inr rfl, .inr rfl⟩

/-! ### A full sector -/

theorem Reachable.op {flash : Flash} (h : Reachable flash) (op : LogOp) :
    Reachable (applyOp flash op) := by
  rw [← cut_all (le_refl (primitivesOf flash op).length)]
  exact .cut flash op _ h

/-- A reachable sector with `used` bytes, the last of them `value`. -/
def Filled (flash : Flash) (used : Nat) (value : UInt8) : Prop :=
  Reachable flash ∧ LogShape flash used ∧ current flash used = value

theorem Filled.readMem {flash : Flash} {used : Nat} {value : UInt8} (h : Filled flash used value) :
    readMem flash (flagStartAddr + (used - 1)) = value := h.2.2

theorem Filled.append {flash : Flash} {used : Nat} {value value' : UInt8} {op : LogOp}
    (h : Filled flash used value) (hroom : used < flagLength) (hvalue : value ≠ 0xFF)
    (hvalue' : value' ≠ 0xFF)
    (hop : applyOp flash op = writeFlashByte flash (flagStartAddr + (used - 1) + 1) value') :
    Filled (applyOp flash op) (used + 1) value' := by
  obtain ⟨hreach, hshape, hcurrent⟩ := h
  have hused : 1 ≤ used := by
    refine one_le_used hshape ?_
    rw [hcurrent]
    exact hvalue
  refine ⟨hreach.op op, ?_⟩
  rw [hop]
  exact append_shape hshape hused hroom hvalue'

theorem Filled.setSwitch {flash : Flash} {used : Nat} {value value' : UInt8} {pwrStatus : Bool}
    (h : Filled flash used value) (hroom : used < flagLength)
    (hvalue : value &&& 0x80 = 0 ∧ value &&& 0x20 ≠ 0 ∧
      (if pwrStatus then (0x7f : UInt8) else 0x3f) &&& (0xc0 ||| value) = value')
    (hvalue' : value' ≠ 0xFF) :
    Filled (applyOp flash (.setSwitchNvram pwrStatus)) (used + 1) value' := by
  obtain ⟨hvalid, hnum, hwritten⟩ := hvalue
  refine h.append hroom ?_ hvalue' ?_
  · rintro rfl
    exact absurd hvalid (by decide)
  · simp only [applyOp, setSwitchNvram, lastUsedAddr_eq h.2.1, h.readMem, hvalid, hnum, ne_eq,
      not_false_eq_true, if_true, hwritten]

theorem Filled.add {flash : Flash} {used : Nat} {value value' : UInt8}
    (h : Filled flash used value) (hroom : used < flagLength)
    (hvalue : value &&& 0x20 = 0 ∧ (value &&& 0xc0) ||| 0x3e = value')
    (hvalue' : value' ≠ 0xFF) : Filled (applyOp flash .addPoweronNumber) (used + 1) value' := by
  obtain ⟨hinvalid, hwritten⟩ := hvalue
  refine h.append hroom ?_ hvalue' ?_
  · rintro rfl
    exact absurd hinvalid (by decide)
  · simp only [applyOp, addPoweronNumber, lastUsedAddr_eq h.2.1, h.readMem, hinvalid, ne_eq,
      not_true, if_false, hwritten]

theorem Filled.clear {flash : Flash} {used : Nat} {value : UInt8} (h : Filled flash used value)
    (hused : 1 ≤ used) (hvalue : value &&& 0xdf ≠ 0xFF) :
    Filled (applyOp flash .clearPoweronNumber) used (value &&& (value &&& 0xdf)) := by
  have hop : applyOp flash .clearPoweronNumber =
      writeFlashByte flash (flagStartAddr + (used - 1)) (value &&& 0xdf) := by
    simp only [applyOp, clearPoweronNumber, lastUsedAddr_eq h.2.1, h.readMem]
  obtain ⟨hreach, hshape, hcurrent⟩ := h
  have hnext := inPlace_shape hshape hvalue
  rw [Nat.max_eq_left hused, hcurrent] at hnext
  refine ⟨hreach.op _, ?_⟩
  rw [hop]
  exact hnext

/-- Switching the relay off and on again takes two bytes. -/
theorem filled_by_switching (n : Nat) (hn : 2 * n + 1 < flagLength) :
    ∃ flash, Filled flash (2 * n + 1) 0x7f := by
  induction n with
  | zero =>
    have hblank : LogShape (fun _ => 0xFF) 0 := LogShape.erased fun _ _ => rfl
    have hop : applyOp (fun _ => 0xFF) (.setSwitchNvram true) =
        writeFlashByte (fun _ => 0xFF) (flagStartAddr + (0 - 1)) 0x7f := by
      simp only [applyOp, setSwitchNvram, lastUsedAddr_eq hblank]
      rfl
    refine ⟨applyOp (fun _ => 0xFF) (.setSwitchNvram true),
      (Reachable.blank _ fun _ _ => rfl).op _, ?_⟩
    rw [hop]
    exact inPlace_shape hblank (by decide)
  | succ n ih =>
    obtain ⟨flash, h⟩ := ih (by omega)
    have hoff : Filled (applyOp flash (.setSwitchNvram false)) (2 * n + 1 + 1) 0x3f :=
      h.setSwitch (by omega) (by decide) (by decide)
    have hon : Filled (applyOp _ (.setSwitchNvram true)) (2 * n + 1 + 1 + 1) 0x7f :=
      hoff.setSwitch (by omega) (by decide) (by decide)
    exact ⟨_, hon⟩

/-- A full sector with the switch on and the count cleared. -/
theorem filled_full : ∃ flash, Filled flash flagLength 0x5e := by
  obtain ⟨flash, h⟩ := filled_by_switching 2047 (by decide)
  have hclear := h.clear (by decide) (by decide)
  have hadd : Filled _ flagLength 0x7e := hclear.add (by decide) (by decide) (by decide)
  exact ⟨_, hadd.clear (by decide) (by decide)⟩

theorem full_facts {flash : Flash} (h : Filled flash flagLength 0x5e) :
    getSwitchNvram flash = true ∧ getPoweronNumber flash = 0 ∧ Wraps flash .addPoweronNumber ∧
      Wraps flash (.setSwitchNvram false) := by
  obtain ⟨-, hshape, hcurrent⟩ := h
  have hread := readMem_lastUsedAddr hshape
  rw [hcurrent] at hread
  refine ⟨?_, ?_, ⟨findFirst0xff_eq hshape, ?_⟩, ⟨findFirst0xff_eq hshape, ?_⟩⟩
  · unfold getSwitchNvram
    rw [hread]
    decide
  · apply poweronNumber_of_invalid
    rw [hread]
    decide
  · simp only [hread]
    decide
  · simp only [hread]
    decide

/-- Switching off survives the wrap, and counting does not. -/
theorem survives_cuts_iff_full :
    ∃ flash, Reachable flash ∧ getSwitchNvram flash = true ∧ Wraps flash (.setSwitchNvram false) ∧
      SurvivesCuts flash (.setSwitchNvram false) ∧ ¬ SurvivesCuts flash .addPoweronNumber := by
  obtain ⟨flash, hfilled⟩ := filled_full
  obtain ⟨hon, hzero, hadd, hset⟩ := full_facts hfilled
  refine ⟨flash, hfilled.1, hon, hset, ?_, ?_⟩
  · exact (survives_cuts_iff flash hfilled.1 (.setSwitchNvram false)).mpr
      fun _ => ⟨hzero, .inr rfl⟩
  · intro hsurvives
    rcases ((survives_cuts_iff flash hfilled.1 .addPoweronNumber).mp hsurvives hadd).2 with h | h
    · exact Bool.noConfusion (hon.symm.trans h)
    · cases h

/-- The next power-on erases the sector first. -/
theorem switch_lost : ¬ ∀ flash op, Reachable flash → SurvivesCuts flash op := by
  intro hall
  obtain ⟨flash, hfilled⟩ := filled_full
  obtain ⟨hon, -, hwrap, -⟩ := full_facts hfilled
  obtain ⟨hreach, hshape, -⟩ := hfilled
  have hstays := congrArg Retained.switchOn (hreach.logOk.retained_applyOp .addPoweronNumber)
  have hblank := ((survivesCuts_of_wraps hshape hwrap).mp (hall flash .addPoweronNumber hreach)).1
  rw [hon] at hblank
  change getSwitchNvram (applyOp flash .addPoweronNumber) = getSwitchNvram flash at hstays
  rw [hstays, hon] at hblank
  simp at hblank

end Sv6x66.Colink.PowerLoss
