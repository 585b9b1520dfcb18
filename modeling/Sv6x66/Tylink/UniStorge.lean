import Sv6x66.Lib.ByteFile

/-! The flash port of the tuya library, `tuya_uni_storge.c`, over one SPIFFS
file. What the file system answers to each call is part of the call's input. -/
namespace Sv6x66.Tylink.UniStorge
open Sv6x66.Lib.ByteFile

def simpleFlashStart : UInt32 := 0x301F5000

def simpleFlashSize : UInt32 := 0x8000

def simpleFlashSwapStart : UInt32 := simpleFlashStart + simpleFlashSize

def simpleFlashSwapSize : UInt32 := 0x2000

inductive OperateRet where
  | oprtOk | oprtComError | oprtInvalidParm
  deriving DecidableEq

/-- An error code of SPIFFS. -/
abbrev FsError := { code : Int // -10100 ≤ code ∧ code < 0 }

/-- `SPIFFS_ERR_END_OF_OBJECT`. -/
def errEndOfObject : FsError := ⟨-10003, by decide⟩

/-- The offset a seek to `target` ends at, or its error. -/
def fsLseek (error : Option FsError) (target : Int) (length : Nat) : Int :=
  match error with
  | some error => error.val
  | none => if 0 ≤ target ∧ target ≤ length then target else errEndOfObject.val

/-- The bytes a read delivers, which may be fewer than it was asked for. -/
def fsRead (file : List UInt8) (pos size delivered : Nat) : List UInt8 :=
  (file.drop pos).take (min size delivered)

/-- The file after a write of which `stored` bytes were stored. -/
def fsWrite (file : List UInt8) (pos : Nat) (data : List UInt8) (stored : Nat) : List UInt8 :=
  patch 0xFF file pos (data.take stored)

/-- What a read meets: `fs_handle` and the answers of the file system. -/
structure ReadEnv where
  mounted : Bool
  opened : Bool
  seekSet : Option FsError
  delivered : Nat

/-- What a write meets; `rom` is the memory at `0x300F0000`. -/
structure WriteEnv where
  mounted : Bool
  opened : Bool
  seekEnd : Option FsError
  filled : Nat
  seekSet : Option FsError
  stored : Nat
  rom : Nat → UInt8

/-- The parameter check, whose sum is one of 32-bit words. -/
def invalidParm (mounted : Bool) (addr size : UInt32) : Bool :=
  !mounted || addr < simpleFlashStart || addr + size > simpleFlashSwapStart + simpleFlashSwapSize

def pos1 (addr : UInt32) : Int := (addr - simpleFlashStart).toInt32.toInt

/-- A file that does not exist cannot be opened for reading. -/
def tuyaUniFlashRead (file : Option (List UInt8)) (env : ReadEnv) (addr size : UInt32)
    (dst : Option (List UInt8)) : OperateRet × Option (List UInt8) :=
  match dst with
  | none => (.oprtInvalidParm, none)
  | some dst =>
    if invalidParm env.mounted addr size then (.oprtInvalidParm, some dst)
    else
      match file with
      | none => (.oprtComError, some dst)
      | some file =>
        if !env.opened then (.oprtComError, some dst)
        else if pos1 addr = fsLseek env.seekSet (pos1 addr) file.length then
          (.oprtOk, some (overlay dst (fsRead file (pos1 addr).toNat size.toNat env.delivered)))
        else (.oprtOk, some dst)

/-- Where `FS_write` puts the dummy bytes: a failed seek leaves the descriptor at
the start of the file. -/
def writeDummy (env : WriteEnv) (addr : UInt32) (file : List UInt8) : List UInt8 :=
  let pos2 := fsLseek env.seekEnd file.length file.length
  if pos1 addr > pos2 then
    fsWrite file pos2.toNat ((List.range (pos1 addr - pos2).toNat).map env.rom) env.filled
  else file

def writeData (env : WriteEnv) (addr : UInt32) (src file : List UInt8) : List UInt8 :=
  let pos2 := fsLseek env.seekSet (pos1 addr) file.length
  if pos1 addr = pos2 then fsWrite file (pos1 addr).toNat src env.stored else file

def tuyaUniFlashWrite (file : Option (List UInt8)) (env : WriteEnv) (addr size : UInt32)
    (src : Option (List UInt8)) : OperateRet × Option (List UInt8) :=
  match src with
  | none => (.oprtInvalidParm, file)
  | some src =>
    if invalidParm env.mounted addr size then (.oprtInvalidParm, file)
    else if !env.opened then (.oprtComError, file)
    else
      -- SPIFFS_CREAT
      let opened := file.getD []
      (.oprtOk, some (writeData env addr src (writeDummy env addr opened)))

/-- Over SPIFFS nothing is erased. -/
def tuyaUniFlashErase (_addr _size : UInt32) : OperateRet := .oprtOk

/-- The call reports an error. -/
def ReadFails (file : Option (List UInt8)) (env : ReadEnv) (addr size : UInt32)
    (dst : Option (List UInt8)) : Prop :=
  dst = none ∨ invalidParm env.mounted addr size = true ∨ file = none ∨ env.opened = false

def WriteFails (env : WriteEnv) (addr size : UInt32) (src : Option (List UInt8)) : Prop :=
  src = none ∨ invalidParm env.mounted addr size = true ∨ env.opened = false

theorem tuyaUniFlashRead_fails {file : Option (List UInt8)} {env : ReadEnv} {addr size : UInt32}
    {dst : Option (List UInt8)} (h : ReadFails file env addr size dst) :
    (tuyaUniFlashRead file env addr size dst).1 ≠ .oprtOk ∧
      (tuyaUniFlashRead file env addr size dst).2 = dst := by
  cases dst with
  | none => exact ⟨nofun, rfl⟩
  | some dst =>
    simp only [tuyaUniFlashRead]
    obtain hdst | hparm | rfl | hopened := h
    · cases hdst
    · rw [if_pos hparm]
      exact ⟨nofun, rfl⟩
    · split <;> exact ⟨nofun, rfl⟩
    · simp only [hopened, Bool.not_false, if_true]
      split
      · exact ⟨nofun, rfl⟩
      · cases file <;> exact ⟨nofun, rfl⟩

theorem tuyaUniFlashRead_ok {file : Option (List UInt8)} {env : ReadEnv} {addr size : UInt32}
    {dst : Option (List UInt8)} (h : ¬ ReadFails file env addr size dst) :
    ∃ bytes buffer, file = some bytes ∧ dst = some buffer ∧
      invalidParm env.mounted addr size = false ∧
      tuyaUniFlashRead file env addr size dst = (.oprtOk, some
        (if pos1 addr = fsLseek env.seekSet (pos1 addr) bytes.length then
          overlay buffer (fsRead bytes (pos1 addr).toNat size.toNat env.delivered) else buffer)) := by
  simp only [ReadFails, not_or, Bool.not_eq_true, Bool.not_eq_false] at h
  obtain ⟨hdst, hparm, hfile, hopened⟩ := h
  obtain ⟨buffer, rfl⟩ := Option.ne_none_iff_exists'.mp hdst
  obtain ⟨bytes, rfl⟩ := Option.ne_none_iff_exists'.mp hfile
  refine ⟨bytes, buffer, rfl, rfl, hparm, ?_⟩
  simp only [tuyaUniFlashRead, hparm, hopened, Bool.not_true, Bool.false_eq_true, if_false]
  split <;> rfl

theorem tuyaUniFlashWrite_fails {file : Option (List UInt8)} {env : WriteEnv} {addr size : UInt32}
    {src : Option (List UInt8)} (h : WriteFails env addr size src) :
    (tuyaUniFlashWrite file env addr size src).1 ≠ .oprtOk ∧
      (tuyaUniFlashWrite file env addr size src).2 = file := by
  cases src with
  | none => exact ⟨nofun, rfl⟩
  | some src =>
    simp only [tuyaUniFlashWrite]
    obtain hsrc | hparm | hopened := h
    · cases hsrc
    · rw [if_pos hparm]
      exact ⟨nofun, rfl⟩
    · simp only [hopened, Bool.not_false, if_true]
      split <;> exact ⟨nofun, rfl⟩

theorem tuyaUniFlashWrite_ok (file : Option (List UInt8)) {env : WriteEnv} {addr size : UInt32}
    {src : Option (List UInt8)} (h : ¬ WriteFails env addr size src) :
    ∃ bytes, src = some bytes ∧ invalidParm env.mounted addr size = false ∧
      tuyaUniFlashWrite file env addr size src =
        (.oprtOk, some (writeData env addr bytes (writeDummy env addr (file.getD [])))) := by
  simp only [WriteFails, not_or, Bool.not_eq_true, Bool.not_eq_false] at h
  obtain ⟨hsrc, hparm, hopened⟩ := h
  obtain ⟨bytes, rfl⟩ := Option.ne_none_iff_exists'.mp hsrc
  refine ⟨bytes, rfl, hparm, ?_⟩
  simp only [tuyaUniFlashWrite, hparm, hopened, Bool.not_true, Bool.false_eq_true, if_false]

/-! ### Offsets in the file -/

theorem le_of_not_invalidParm {mounted : Bool} {addr size : UInt32}
    (h : invalidParm mounted addr size = false) : simpleFlashStart ≤ addr := by
  simp only [invalidParm, Bool.or_eq_false_iff, decide_eq_false_iff_not] at h
  exact UInt32.not_lt.mp h.1.2

def areaEnd : Nat := 0x301FF000

theorem pos1_eq {addr : UInt32} (hstart : simpleFlashStart ≤ addr) (hend : addr.toNat ≤ areaEnd) :
    pos1 addr = (addr.toNat - simpleFlashStart.toNat : Nat) := by
  have hsub : (addr - simpleFlashStart).toNat = addr.toNat - simpleFlashStart.toNat :=
    UInt32.toNat_sub_of_le _ _ hstart
  unfold areaEnd at hend
  have hsmall : (addr - simpleFlashStart).toNat < 2 ^ 31 := by
    rw [hsub, show simpleFlashStart.toNat = 0x301F5000 from rfl]
    omega
  rw [← hsub]
  exact BitVec.toInt_eq_toNat_of_lt (show 2 * (addr - simpleFlashStart).toNat < 2 ^ 32 by omega)

theorem fsLseek_end_le (error : Option FsError) (length : Nat) :
    (fsLseek error length length).toNat ≤ length := by
  cases error with
  | some error =>
    have := error.property
    simp only [fsLseek]
    omega
  | none => simp [fsLseek]

/-- A seek that ends at its target ends inside the file. -/
theorem le_of_fsLseek {error : Option FsError} {pos length : Nat}
    (h : (pos : Int) = fsLseek error pos length) : pos ≤ length := by
  cases error with
  | some error =>
    have := error.property
    simp only [fsLseek] at h
    omega
  | none =>
    simp only [fsLseek] at h
    split at h
    · omega
    · have := errEndOfObject.property
      omega

theorem fsWrite_nothing {file data : List UInt8} {pos : Nat} (h : pos ≤ file.length) :
    fsWrite file pos data 0 = file := by
  apply List.ext_getElem?
  intro i
  rw [fsWrite, List.take_zero, getElem?_patch _ h, List.length_nil, if_neg (by omega)]

end Sv6x66.Tylink.UniStorge
