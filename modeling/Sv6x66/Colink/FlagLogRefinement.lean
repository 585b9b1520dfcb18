import Mathlib.Data.FinEnum
import Sv6x66.Colink.FlagLog

/-! The log stands for a saturating counter and a switch. One byte carries both
values, so the argument has two halves: what an operation does to the current
byte, and that this byte stays the last used one, across in-place writes,
appends and the erase of a full sector. -/
namespace Sv6x66.Colink.FlagLogRefinement
open Sv6x66.Lib.NorFlash
open Sv6x66.Colink.FlagLog

inductive LogOp where
  | addPoweronNumber
  | clearPoweronNumber
  | setSwitchNvram (pwrStatus : Bool)
deriving DecidableEq, Repr

def applyOp (flash : Flash) : LogOp → Flash
  | .addPoweronNumber => addPoweronNumber flash
  | .clearPoweronNumber => clearPoweronNumber flash
  | .setSwitchNvram pwrStatus => setSwitchNvram flash pwrStatus

def runOps (flash : Flash) (ops : List LogOp) : Flash := ops.foldl applyOp flash

/-! ### The purpose of the log -/

/-- The two values that survive a power cycle. -/
structure Retained where
  count : Nat
  switchOn : Bool
deriving DecidableEq, Repr

def Retained.initial : Retained := ⟨0, false⟩

def Retained.step (values : Retained) : LogOp → Retained
  | .addPoweronNumber => { values with count := min 5 (values.count + 1) }
  | .clearPoweronNumber => { values with count := 0 }
  | .setSwitchNvram pwrStatus => { values with switchOn := pwrStatus }

/-- The calls of `add_poweron_number` since the last `clear_poweron_number`. -/
def addsSinceClear (ops : List LogOp) : Nat :=
  (ops.reverse.takeWhile (· ≠ .clearPoweronNumber)).count .addPoweronNumber

/-- The argument of the last `set_switch_nvram`, off if there was none. -/
def lastSwitch (ops : List LogOp) : Bool :=
  (ops.reverse.findSome? fun
    | .setSwitchNvram pwrStatus => some pwrStatus
    | _ => none).getD false

theorem retained_eq (ops : List LogOp) :
    ops.foldl Retained.step .initial = ⟨min 5 (addsSinceClear ops), lastSwitch ops⟩ := by
  induction ops using List.reverseRecOn with
  | nil => rfl
  | append_singleton ops op ih =>
    rw [List.foldl_append, ih]
    cases op with
    | addPoweronNumber =>
      simp only [List.foldl_cons, List.foldl_nil, Retained.step, addsSinceClear, lastSwitch,
        List.reverse_append, List.reverse_singleton, List.singleton_append, List.findSome?_cons]
      simp
      omega
    | clearPoweronNumber => simp [Retained.step, addsSinceClear, lastSwitch]
    | setSwitchNvram pwrStatus => simp [Retained.step, addsSinceClear, lastSwitch]

/-! ### One byte -/

/-- An unused switch half keeps both its bits set, and a valid count is a run
of cleared low bits. -/
def ByteOk (value : UInt8) : Prop :=
  (value &&& 0x80 ≠ 0 → value &&& 0x40 ≠ 0) ∧
    (value &&& 0x20 ≠ 0 →
      value &&& 0x1f ∈ ([0x1f, 0x1e, 0x1c, 0x18, 0x10, 0x00] : List UInt8))

instance (value : UInt8) : Decidable (ByteOk value) := by
  unfold ByteOk
  infer_instance

def decode (value : UInt8) : Retained :=
  ⟨(poweronNumber value).toNat, switchNvram value⟩

/-- The byte that carries the state after an operation. -/
def nextByte (value : UInt8) : LogOp → UInt8
  | .addPoweronNumber =>
    if value &&& 0x20 ≠ 0 then
      if value &&& 0x1f ≠ 0 then value &&& (value &&& ~~~(1 <<< firstSetBit value 8 0)) else value
    else (value &&& 0xc0) ||| 0x3e
  | .clearPoweronNumber => value &&& (value &&& 0xdf)
  | .setSwitchNvram pwrStatus =>
    let written : UInt8 := if pwrStatus then 0x7f else 0x3f
    let written := if value &&& 0x20 ≠ 0 then written &&& (0xc0 ||| value) else written
    if value &&& 0x80 = 0 then written else value &&& written

theorem nextByte_ok (value : UInt8) (op : LogOp) (hok : ByteOk value) :
    ByteOk (nextByte value op) ∧ decode (nextByte value op) = (decode value).step op := by
  revert value
  rcases op with _ | _ | _ | _ <;> decide +kernel

/-- No operation leaves `0xFF` behind, so a used byte never looks free. -/
theorem written_ne_free (value : UInt8) :
    value &&& ~~~(1 <<< firstSetBit value 8 0) ≠ 0xFF ∧
      (value &&& 0xc0) ||| 0x3e ≠ 0xFF ∧ value &&& 0xdf ≠ 0xFF ∧
      (0x7f &&& (0xc0 ||| value)) ≠ 0xFF ∧ (0x3f &&& (0xc0 ||| value)) ≠ 0xFF := by
  revert value
  decide +kernel

/-! ### The current byte of the log -/

/-- The log is well shaped and its current byte is `value`. -/
def Log (flash : Flash) (value : UInt8) : Prop :=
  ∃ used, LogShape flash used ∧ current flash used = value

theorem lastUsedAddr_eq {flash : Flash} {used : Nat} (hshape : LogShape flash used) :
    lastUsedAddr flash = flagStartAddr + (used - 1) := by
  unfold lastUsedAddr
  rw [findFirst0xff_eq hshape]
  simp only
  split <;> omega

theorem readMem_lastUsedAddr {flash : Flash} {used : Nat} (hshape : LogShape flash used) :
    readMem flash (lastUsedAddr flash) = current flash used := by
  rw [lastUsedAddr_eq hshape]
  rfl

/-- Only the byte of an empty log is free. -/
theorem one_le_used {flash : Flash} {used : Nat} (hshape : LogShape flash used)
    (hcurrent : current flash used ≠ 0xFF) : 1 ≤ used := by
  by_contra hzero
  have : used = 0 := by omega
  subst this
  exact hcurrent (hshape.free 0 (le_refl _) (by decide))

/-- Writing over the last used byte. -/
theorem inPlace_shape {flash : Flash} {used : Nat} {value : UInt8} (hshape : LogShape flash used)
    (hvalue : value ≠ 0xFF) :
    LogShape (writeFlashByte flash (flagStartAddr + (used - 1)) value) (max used 1) ∧
      current (writeFlashByte flash (flagStartAddr + (used - 1)) value) (max used 1) =
        current flash used &&& value := by
  have hlen : flagLength = 4096 := rfl
  have hused := hshape.used_le
  have hin : used - 1 < flagLength := by omega
  have hfree : current flash used &&& value ≠ 0xFF := fun h => hvalue (and_eq_free_iff.mp h).2
  rw [writeFlashByte_inside flash _ hin, ← logByte_eq flash hin]
  refine ⟨⟨by omega, ?_, ?_⟩, ?_⟩
  · intro i hi
    rw [logByte_update _ _ (by omega)]
    split
    · exact hfree
    · exact hshape.written i (by omega)
  · intro i hle hlt
    rw [logByte_update _ _ hlt, if_neg (by omega)]
    exact hshape.free i (by omega) hlt
  · rw [current, logByte_update _ _ (by omega), if_pos (by omega)]
    rfl

/-- Writing the first free byte of a sector with room. -/
theorem append_shape {flash : Flash} {used : Nat} {value : UInt8} (hshape : LogShape flash used)
    (hused : 1 ≤ used) (hroom : used < flagLength) (hvalue : value ≠ 0xFF) :
    LogShape (writeFlashByte flash (flagStartAddr + (used - 1) + 1) value) (used + 1) ∧
      current (writeFlashByte flash (flagStartAddr + (used - 1) + 1) value) (used + 1) = value := by
  have hnew : logByte flash used &&& value = value := by
    rw [hshape.free used (le_refl _) hroom, free_and]
  rw [show flagStartAddr + (used - 1) + 1 = flagStartAddr + used by omega,
    writeFlashByte_inside flash _ hroom, ← logByte_eq flash hroom, hnew]
  refine ⟨⟨by omega, ?_, ?_⟩, ?_⟩
  · intro i hi
    rw [logByte_update _ _ (by omega)]
    split
    · exact hvalue
    · exact hshape.written i (by omega)
  · intro i hlt hi
    rw [logByte_update _ _ hi, if_neg (by omega)]
    exact hshape.free i (by omega) hi
  · rw [current, logByte_update _ _ (by omega), if_pos (by omega)]

theorem Log.inPlace {flash : Flash} {used : Nat} {value : UInt8} (hshape : LogShape flash used)
    (hvalue : value ≠ 0xFF) :
    Log (writeFlashByte flash (flagStartAddr + (used - 1)) value)
      (current flash used &&& value) :=
  ⟨max used 1, inPlace_shape hshape hvalue⟩

theorem Log.append {flash : Flash} {used : Nat} {value : UInt8} (hshape : LogShape flash used)
    (hused : 1 ≤ used) (hvalue : value ≠ 0xFF) :
    Log (writeFlashByte flash (flagStartAddr + (used - 1) + 1) value) value := by
  have hle := hshape.used_le
  by_cases hfull : used = flagLength
  · -- The sector is full: the log restarts with this byte.
    have herased := LogShape.erased fun i hi => logByte_erase flash hi
    have hrestart := Log.inPlace herased hvalue
    have hcurrent : current (eraseSector flashSectorSize 0x7000 flash) 0 &&& value = value := by
      rw [current, logByte_erase flash (by decide), free_and]
    rw [hcurrent] at hrestart
    rw [show flagStartAddr + (used - 1) + 1 = flagStartAddr + used by omega, hfull,
      writeFlashByte_full]
    exact hrestart
  · exact ⟨used + 1, append_shape hshape hused (by omega) hvalue⟩

/-- One operation: the log stays a log, and its current byte moves as
`nextByte` says. -/
theorem Log.applyOp {flash : Flash} {value : UInt8} (hlog : Log flash value) (op : LogOp) :
    Log (applyOp flash op) (nextByte value op) := by
  obtain ⟨used, hshape, hcurrent⟩ := hlog
  have haddr := lastUsedAddr_eq hshape
  have hread := readMem_lastUsedAddr hshape
  rw [haddr, hcurrent] at hread
  obtain ⟨hadd, hfresh, hclear, hon, hoff⟩ := written_ne_free value
  cases op with
  | addPoweronNumber =>
    simp only [FlagLogRefinement.applyOp, addPoweronNumber, nextByte, haddr, hread]
    split
    · split
      · rw [← hcurrent] at hadd ⊢
        exact Log.inPlace hshape hadd
      · exact ⟨used, hshape, hcurrent⟩
    · rename_i hinvalid
      refine Log.append hshape (one_le_used hshape ?_) hfresh
      rw [hcurrent]
      rintro rfl
      exact hinvalid (by decide)
  | clearPoweronNumber =>
    simp only [FlagLogRefinement.applyOp, clearPoweronNumber, nextByte, haddr, hread]
    rw [← hcurrent] at hclear ⊢
    exact Log.inPlace hshape hclear
  | setSwitchNvram pwrStatus =>
    simp only [FlagLogRefinement.applyOp, setSwitchNvram, nextByte, haddr, hread]
    generalize hw : (if value &&& 0x20 ≠ 0 then
      (if pwrStatus = true then (0x7f : UInt8) else 0x3f) &&& (0xc0 ||| value)
      else if pwrStatus = true then 0x7f else 0x3f) = written
    have hwritten : written ≠ 0xFF := by
      rw [← hw]
      cases pwrStatus <;> simp only [if_true, Bool.false_eq_true, if_false] <;> split <;>
        first | assumption | decide
    split
    · rename_i hused
      refine Log.append hshape (one_le_used hshape ?_) hwritten
      rw [hcurrent]
      rintro rfl
      revert hused
      decide
    · rw [← hcurrent]
      exact Log.inPlace hshape hwritten

/-- Every log reached from an erased sector holds the retained values of its
history. -/
theorem runOps_log {flash : Flash} (herased : ∀ i < flagLength, logByte flash i = 0xFF)
    (ops : List LogOp) :
    ∃ value, Log (runOps flash ops) value ∧ ByteOk value ∧
      decode value = ops.foldl Retained.step .initial := by
  induction ops using List.reverseRecOn with
  | nil =>
    refine ⟨0xFF, ⟨0, LogShape.erased herased, herased 0 (by decide)⟩, ?_⟩
    decide
  | append_singleton ops op ih =>
    obtain ⟨value, hlog, hok, hdecode⟩ := ih
    obtain ⟨hok', hdecode'⟩ := nextByte_ok value op hok
    refine ⟨nextByte value op, ?_, hok', ?_⟩
    · rw [runOps, List.foldl_append]
      exact hlog.applyOp op
    · rw [hdecode', hdecode, List.foldl_append]
      rfl

/-- For every history of the log the two readers return the saturated count of
power-ons since the last clear and the last switch state stored. -/
theorem readers_eq_history (flash : Flash) (herased : ∀ i < flagLength, logByte flash i = 0xFF)
    (ops : List LogOp) :
    (getPoweronNumber (runOps flash ops)).toNat = min 5 (addsSinceClear ops) ∧
      getSwitchNvram (runOps flash ops) = lastSwitch ops := by
  obtain ⟨value, ⟨used, hshape, hcurrent⟩, -, hdecode⟩ := runOps_log herased ops
  rw [retained_eq] at hdecode
  unfold getPoweronNumber getSwitchNvram
  rw [readMem_lastUsedAddr hshape, hcurrent]
  exact ⟨congrArg Retained.count hdecode, congrArg Retained.switchOn hdecode⟩

/-- The history of a blank chip that is switched on once, stores the switch and
is cleared. -/
theorem readers_eq_history_blank :
    (getPoweronNumber (runOps (fun _ => 0xFF)
        [.addPoweronNumber, .setSwitchNvram true, .clearPoweronNumber])).toNat =
      min 5 (addsSinceClear [.addPoweronNumber, .setSwitchNvram true, .clearPoweronNumber]) ∧
      getSwitchNvram (runOps (fun _ => 0xFF)
        [.addPoweronNumber, .setSwitchNvram true, .clearPoweronNumber]) =
      lastSwitch [.addPoweronNumber, .setSwitchNvram true, .clearPoweronNumber] :=
  readers_eq_history (fun _ => 0xFF) (fun _ _ => rfl) _

/-! ### A sector in use -/

/-- A sector the operations of the log can leave behind. -/
def LogOk (flash : Flash) : Prop := ∃ value, Log flash value ∧ ByteOk value

theorem LogOk.erased {flash : Flash} (h : ∀ i < flagLength, logByte flash i = 0xFF) :
    LogOk flash := by
  obtain ⟨value, hlog, hok, -⟩ := runOps_log h []
  exact ⟨value, hlog, hok⟩

theorem LogOk.applyOp {flash : Flash} (h : LogOk flash) (op : LogOp) :
    LogOk (applyOp flash op) := by
  obtain ⟨value, hlog, hok⟩ := h
  exact ⟨nextByte value op, hlog.applyOp op, (nextByte_ok value op hok).1⟩

/-- The two values as the readers return them. -/
def retained (flash : Flash) : Retained :=
  ⟨(getPoweronNumber flash).toNat, getSwitchNvram flash⟩

theorem retained_of_log {flash : Flash} {value : UInt8} (hlog : Log flash value) :
    retained flash = decode value := by
  obtain ⟨used, hshape, hcurrent⟩ := hlog
  unfold retained getPoweronNumber getSwitchNvram
  rw [readMem_lastUsedAddr hshape, hcurrent]
  rfl

/-- What the readers return after an operation depends on what they returned
before it. -/
theorem LogOk.retained_applyOp {flash : Flash} (h : LogOk flash) (op : LogOp) :
    retained (FlagLogRefinement.applyOp flash op) = (retained flash).step op := by
  obtain ⟨value, hlog, hok⟩ := h
  rw [retained_of_log (hlog.applyOp op), retained_of_log hlog]
  exact (nextByte_ok value op hok).2

end Sv6x66.Colink.FlagLogRefinement
