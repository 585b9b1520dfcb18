import Mathlib.Data.Nat.Bitwise
import Sv6x66.Atcmd.CommandLine
import Sv6x66.Cfg.SectorWrite
import Sv6x66.Lib.Run

/-! The user flash command, `At_User_Flsh` with `do_At_User_Flsh` of `user_cfg.c`: four
blocks are collected in a buffer, which is written to the flash when the last one is
there, and read back into the same buffer for a check. -/
namespace Sv6x66.Cfg.UserFlash
open Sv6x66.Lib
open Sv6x66.Lib.ByteFile
open Sv6x66.Lib.NorFlash
open Sv6x66.Lib.CString
open Sv6x66.Atcmd.CommandLine
open Sv6x66.Cfg.SectorWrite

def rwBlockSize : Nat := 512
def rwTotalSize : UInt16 := 4 * 512

abbrev Buffer := Vector UInt8 rwTotalSize.toNat
abbrev Block := Vector UInt8 rwBlockSize

/-- `SET_CFG`. -/
def setCfg (flag bit : UInt8) : UInt8 := flag ||| 1 <<< bit

/-- `CHECK_CFG_OK`. -/
def checkCfgOk (flag : UInt8) : Bool := flag &&& 0x0F == 0x0F

def crc16Tab : Array UInt16 :=
  #[0x0000, 0x1021, 0x2042, 0x3063, 0x4084, 0x50a5, 0x60c6, 0x70e7, 0x8108, 0x9129, 0xa14a, 0xb16b,
  0xc18c, 0xd1ad, 0xe1ce, 0xf1ef, 0x1231, 0x0210, 0x3273, 0x2252, 0x52b5, 0x4294, 0x72f7, 0x62d6,
  0x9339, 0x8318, 0xb37b, 0xa35a, 0xd3bd, 0xc39c, 0xf3ff, 0xe3de, 0x2462, 0x3443, 0x0420, 0x1401,
  0x64e6, 0x74c7, 0x44a4, 0x5485, 0xa56a, 0xb54b, 0x8528, 0x9509, 0xe5ee, 0xf5cf, 0xc5ac, 0xd58d,
  0x3653, 0x2672, 0x1611, 0x0630, 0x76d7, 0x66f6, 0x5695, 0x46b4, 0xb75b, 0xa77a, 0x9719, 0x8738,
  0xf7df, 0xe7fe, 0xd79d, 0xc7bc, 0x48c4, 0x58e5, 0x6886, 0x78a7, 0x0840, 0x1861, 0x2802, 0x3823,
  0xc9cc, 0xd9ed, 0xe98e, 0xf9af, 0x8948, 0x9969, 0xa90a, 0xb92b, 0x5af5, 0x4ad4, 0x7ab7, 0x6a96,
  0x1a71, 0x0a50, 0x3a33, 0x2a12, 0xdbfd, 0xcbdc, 0xfbbf, 0xeb9e, 0x9b79, 0x8b58, 0xbb3b, 0xab1a,
  0x6ca6, 0x7c87, 0x4ce4, 0x5cc5, 0x2c22, 0x3c03, 0x0c60, 0x1c41, 0xedae, 0xfd8f, 0xcdec, 0xddcd,
  0xad2a, 0xbd0b, 0x8d68, 0x9d49, 0x7e97, 0x6eb6, 0x5ed5, 0x4ef4, 0x3e13, 0x2e32, 0x1e51, 0x0e70,
  0xff9f, 0xefbe, 0xdfdd, 0xcffc, 0xbf1b, 0xaf3a, 0x9f59, 0x8f78, 0x9188, 0x81a9, 0xb1ca, 0xa1eb,
  0xd10c, 0xc12d, 0xf14e, 0xe16f, 0x1080, 0x00a1, 0x30c2, 0x20e3, 0x5004, 0x4025, 0x7046, 0x6067,
  0x83b9, 0x9398, 0xa3fb, 0xb3da, 0xc33d, 0xd31c, 0xe37f, 0xf35e, 0x02b1, 0x1290, 0x22f3, 0x32d2,
  0x4235, 0x5214, 0x6277, 0x7256, 0xb5ea, 0xa5cb, 0x95a8, 0x8589, 0xf56e, 0xe54f, 0xd52c, 0xc50d,
  0x34e2, 0x24c3, 0x14a0, 0x0481, 0x7466, 0x6447, 0x5424, 0x4405, 0xa7db, 0xb7fa, 0x8799, 0x97b8,
  0xe75f, 0xf77e, 0xc71d, 0xd73c, 0x26d3, 0x36f2, 0x0691, 0x16b0, 0x6657, 0x7676, 0x4615, 0x5634,
  0xd94c, 0xc96d, 0xf90e, 0xe92f, 0x99c8, 0x89e9, 0xb98a, 0xa9ab, 0x5844, 0x4865, 0x7806, 0x6827,
  0x18c0, 0x08e1, 0x3882, 0x28a3, 0xcb7d, 0xdb5c, 0xeb3f, 0xfb1e, 0x8bf9, 0x9bd8, 0xabbb, 0xbb9a,
  0x4a75, 0x5a54, 0x6a37, 0x7a16, 0x0af1, 0x1ad0, 0x2ab3, 0x3a92, 0xfd2e, 0xed0f, 0xdd6c, 0xcd4d,
  0xbdaa, 0xad8b, 0x9de8, 0x8dc9, 0x7c26, 0x6c07, 0x5c64, 0x4c45, 0x3ca2, 0x2c83, 0x1ce0, 0x0cc1,
  0xef1f, 0xff3e, 0xcf5d, 0xdf7c, 0xaf9b, 0xbfba, 0x8fd9, 0x9ff8, 0x6e17, 0x7e36, 0x4e55, 0x5e74,
  0x2e93, 0x3eb2, 0x0ed1, 0x1ef0]

def crc16CcittCal (crcStart : UInt16) (buf : List UInt8) : UInt16 :=
  buf.foldl (fun cksum byte =>
    crc16Tab.getD (((cksum >>> 8) ^^^ byte.toUInt16) &&& 0xFF).toNat 0 ^^^ (cksum <<< 8)) crcStart

/-- `memcpy` into a buffer, which has no result if it does not fit. -/
def memcpyAt {n : Nat} (dest : Vector UInt8 n) (offset : Nat) (src : List UInt8) :
    Option (Vector UInt8 n) :=
  if h : offset + src.length ≤ n then
    some ⟨(patch 0 dest.toList offset src).toArray, by
      rw [List.size_toArray, length_patch, Vector.length_toList]
      omega⟩
  else none

/-- What a command finds outside: the blocks that are allocated for the buffer, inside
`cfg_user_write_cfg` and inside `cfg_user_read_cfg`, and what the flash shows when it is
read back. -/
structure Env where
  userCfgBlock : Option Buffer
  writeBlock : MemBlock (flashSectorSize <<< 1)
  readBackBlock : MemBlock (flashSectorSize <<< 1)
  seen : Flash

structure State where
  userCfgFlag : UInt8
  userCfgBuf : Option Buffer
  flash : Flash

/-- The result of a command, and whether `cfg_user_write_cfg` was called. -/
structure Outcome where
  result : Int
  written : Bool

/-- A full buffer is written, read back and freed. After a failed check neither the flag
nor the buffer is reset. -/
def writeAndCheck (env : Env) (flag : UInt8) (buf : Buffer) (flash : Flash) :
    Option (Outcome × State) := do
  let after ← cfgUserWriteCfg env.writeBlock rwTotalSize buf flash
  let back ← memcpyAt (Vector.replicate rwTotalSize.toNat 0) 0
    (← cfgUserReadCfg env.readBackBlock rwTotalSize env.seen)
  if crc16CcittCal 0 back.toList ≠ crc16CcittCal 0 buf.toList then
    some (⟨errorNotImplement, true⟩, ⟨flag, some back, after⟩)
  else some (⟨errorSuccess, true⟩, ⟨0, none, after⟩)

/-- The part of a write behind the allocation. -/
def storeBlock (env : Env) (writeOffset : UInt8) (writeBuffer : Block) (buf : Buffer)
    (s : State) : Option (Outcome × State) := do
  let buf ← memcpyAt buf (rwBlockSize * writeOffset.toNat) writeBuffer.toList
  if checkCfgOk (setCfg s.userCfgFlag writeOffset) then
    writeAndCheck env (setCfg s.userCfgFlag writeOffset) buf s.flash
  else
    some (⟨errorSuccess, false⟩, ⟨setCfg s.userCfgFlag writeOffset, some buf, s.flash⟩)

/-- `do_At_User_Flsh` with `action` 1. -/
def doAtUserFlshWrite (env : Env) (writeOffset : UInt8) (writeBuffer : Block) (s : State) :
    Option (Outcome × State) :=
  if s.userCfgFlag = 0 then
    match env.userCfgBlock with
    | none => some (⟨errorMemoryFailed, false⟩, { s with userCfgBuf := none })
    | some buf => storeBlock env writeOffset writeBuffer buf s
  else s.userCfgBuf.bind fun buf => storeBlock env writeOffset writeBuffer buf s

/-- `do_At_User_Flsh` with `action` 0, which prints the flash from a buffer of its own. -/
def doAtUserFlshRead (env : Env) (s : State) : Option (Outcome × State) :=
  if env.userCfgBlock = none then some (⟨errorMemoryFailed, false⟩, s)
  else
    (cfgUserReadCfg env.readBackBlock rwTotalSize env.seen).map fun _ =>
      (⟨errorSuccess, false⟩, s)

/-- A command `w` with the number of its arguments, what `atoi` makes of the second one
and the text of the third, or a command `r`. -/
inductive Command where
  | write (argc : Nat) (offset : Int) (data : Bytes) (env : Env)
  | read (env : Env)

def Command.env : Command → Env
  | .write _ _ _ env => env
  | .read env => env

/-- `At_User_Flsh`. -/
def atUserFlsh (s : State) : Command → Option (Outcome × State)
  | .write argc offset data env =>
    if argc ≠ 3 then some (⟨errorInvalidParameter, false⟩, s)
    else
      let writeOffset := UInt8.ofInt offset
      if writeOffset > 3 then some (⟨errorInvalidParameter, false⟩, s)
      else if h : data.length = rwBlockSize then
        doAtUserFlshWrite env writeOffset ⟨data.toArray, h⟩ s
      else some (⟨errorInvalidParameter, false⟩, s)
  | .read env => doAtUserFlshRead env s

/-! ### What it is for -/

/-- The blocks received since the last write, the latest of each place. -/
abbrev Pending := Fin 4 → Option Block

def Complete (pending : Pending) : Prop := ∀ k, (pending k).isSome

instance (pending : Pending) : Decidable (Complete pending) := by
  unfold Complete
  infer_instance

/-- A block counts as received if its command is well formed and there is memory for it. -/
def received (s : State) : Command → Option (Fin 4 × Block)
  | .write argc offset data env =>
    if h : argc = 3 ∧ (UInt8.ofInt offset).toNat < 4 ∧ data.length = rwBlockSize ∧
        (s.userCfgFlag = 0 → env.userCfgBlock.isSome) then
      some (⟨_, h.2.1⟩, ⟨data.toArray, h.2.2.1⟩)
    else none
  | .read _ => none

def receive (pending : Pending) (k : Fin 4) (block : Block) : Pending :=
  Function.update pending k (some block)

/-- A write, completed or failed, starts a new collection. -/
def restart (pending : Pending) : Pending :=
  if Complete pending then fun _ => none else pending

/-- The bytes of one block in a buffer. -/
def HasBlock (buf : List UInt8) (k : Nat) (block : Block) : Prop :=
  ∀ i < rwBlockSize, buf[rwBlockSize * k + i]? = block.toList[i]?

/-- The beginning of the user flash. -/
def userFlash (flash : Flash) : List UInt8 :=
  readBlock flash (flashAddr gUserCfg) rwTotalSize.toNat

/-- The command with the blocks received before it. -/
structure Sys where
  code : State
  pending : Pending

def start (flash : Flash) : Sys := ⟨⟨0, none, flash⟩, fun _ => none⟩

def step (y : Sys) (c : Command) : Option Sys :=
  (atUserFlsh y.code c).map fun (_, t) =>
    ⟨t, match received y.code c with
      | none => y.pending
      | some (k, block) => restart (receive y.pending k block)⟩

/-- Without a block nothing is written; with one the flash is written exactly when the
four blocks are complete, and then holds them. -/
def Lawful (y : Sys) (c : Command) : Prop :=
  ∃ o t, atUserFlsh y.code c = some (o, t) ∧
    match received y.code c with
    | none => o.written = false ∧ t.flash = y.code.flash
    | some (k, block) =>
      (o.written = true ↔ Complete (receive y.pending k block)) ∧
        (o.written = false → t.flash = y.code.flash) ∧
        (o.written = true → ∀ j kept, receive y.pending k block j = some kept →
          HasBlock (userFlash t.flash) j kept)

/-- The blocks that are not tested are there where they are asked for: by the write behind
the fourth block, and by a read that got its buffer. -/
def Served (y : Sys) : Command → Prop
  | .write argc offset data env => ∀ k block,
    received y.code (.write argc offset data env) = some (k, block) →
      Complete (receive y.pending k block) → env.writeBlock.isSome ∧ env.readBackBlock.isSome
  | .read env => env.userCfgBlock.isSome → env.readBackBlock.isSome

/-- No block comes while all four flags are still set, that is after a failed check. -/
structure Meets (y : Sys) (c : Command) : Prop where
  served : Served y c
  fresh : received y.code c ≠ none → y.code.userCfgFlag ≠ 0x0F

/-! ### The flag -/

theorem testBit_full (k : Fin 4) : (0x0F : UInt8).toNat.testBit k = true := by
  revert k
  decide

theorem toNat_setCfg (flag : UInt8) {bit : UInt8} (h : bit.toNat < 4) :
    (setCfg flag bit).toNat = flag.toNat ||| 2 ^ bit.toNat := by
  have hpow : 2 ^ bit.toNat < 2 ^ 8 := Nat.pow_lt_pow_right (by decide) (by omega)
  rw [setCfg, UInt8.toNat_or, UInt8.toNat_shiftLeft, UInt8.toNat_one, Nat.one_shiftLeft,
    Nat.mod_eq_of_lt (show bit.toNat < 8 by omega), Nat.mod_eq_of_lt hpow]

theorem checkCfgOk_iff {flag : UInt8} (h : flag.toNat < 16) :
    checkCfgOk flag = true ↔ ∀ k : Fin 4, flag.toNat.testBit k = true := by
  rw [checkCfgOk, beq_iff_eq, ← UInt8.toNat_inj, UInt8.toNat_and]
  generalize flag.toNat = n at h
  interval_cases n <;> decide

/-! ### The buffer -/

theorem memcpyAt_of_le {n : Nat} (dest : Vector UInt8 n) {offset : Nat} {src : List UInt8}
    (h : offset + src.length ≤ n) :
    ∃ dest', memcpyAt dest offset src = some dest' ∧
      dest'.toList = patch 0 dest.toList offset src := ⟨_, dif_pos h, rfl⟩

theorem block_fits (buf : Buffer) (k : Fin 4) :
    rwBlockSize * k + rwBlockSize ≤ buf.toList.length := by
  have hk := k.isLt
  have htotal : rwTotalSize.toNat = 4 * rwBlockSize := rfl
  rw [Vector.length_toList, htotal, rwBlockSize]
  omega

theorem hasBlock_patch (buf : Buffer) (k : Fin 4) (block : Block) :
    HasBlock (patch 0 buf.toList (rwBlockSize * k) block.toList) k block := by
  have hfits := block_fits buf k
  intro i hi
  have hinside : rwBlockSize * k + i < rwBlockSize * k + block.toList.length := by
    rw [Vector.length_toList]
    omega
  rw [getElem?_patch 0 (Nat.le_of_add_right_le hfits), if_pos ⟨Nat.le_add_right _ _, hinside⟩,
    Nat.add_sub_cancel_left]

theorem hasBlock_patch_other {buf : Buffer} {j k : Fin 4} {block kept : Block}
    (hne : j ≠ k) (h : HasBlock buf.toList j kept) :
    HasBlock (patch 0 buf.toList (rwBlockSize * k) block.toList) j kept := by
  have hval : (j : Nat) ≠ k := Fin.val_ne_of_ne hne
  have hfits := block_fits buf k
  intro i hi
  rw [getElem?_patch 0 (Nat.le_of_add_right_le hfits), if_neg, h i hi]
  rw [Vector.length_toList]
  simp only [rwBlockSize] at hi ⊢
  omega

/-! ### One command -/

/-- The flag and the buffer hold the blocks received since the last write. -/
structure Represents (s : State) (pending : Pending) : Prop where
  bits : ∀ k : Fin 4, s.userCfgFlag.toNat.testBit k = (pending k).isSome
  small : s.userCfgFlag.toNat < 16
  missing : ¬ Complete pending
  kept : s.userCfgFlag ≠ 0 → ∃ buf, s.userCfgBuf = some buf ∧
    ∀ k block, pending k = some block → HasBlock buf.toList k block

/-- What a failed check leaves: all four flags are set, and no block was received since. -/
structure Stuck (s : State) (pending : Pending) : Prop where
  flag : s.userCfgFlag = 0x0F
  none : ∀ k, pending k = none
  buf : s.userCfgBuf.isSome

section Received

variable {s : State} {pending : Pending} {c : Command} {k : Fin 4} {block : Block}

/-- A block that is received is stored in the buffer there is, or in a new one. -/
theorem atUserFlsh_received (hbuf : s.userCfgFlag ≠ 0 → s.userCfgBuf.isSome)
    (h : received s c = some (k, block)) :
    ∃ buf, ∃ offset : UInt8, offset.toNat = k.val ∧
      (s.userCfgFlag ≠ 0 → s.userCfgBuf = some buf) ∧
      atUserFlsh s c = storeBlock c.env offset block buf s := by
  cases c with
  | read env => cases h
  | write argc offset data env =>
    simp only [received] at h
    split at h
    case isFalse => cases h
    case isTrue hvalid =>
      cases h
      obtain ⟨hargc, hoffset, hdata, hmem⟩ := hvalid
      have hsmall : ¬ UInt8.ofInt offset > 3 := by
        rw [gt_iff_lt, UInt8.lt_iff_toNat_lt]
        exact Nat.not_lt.mpr (Nat.le_of_lt_succ hoffset)
      simp only [atUserFlsh, if_neg (not_not.mpr hargc), if_neg hsmall, dif_pos hdata]
      by_cases hflag : s.userCfgFlag = 0
      · obtain ⟨buf, hblock⟩ := Option.isSome_iff_exists.mp (hmem hflag)
        refine ⟨buf, _, rfl, fun hset => absurd hflag hset, ?_⟩
        simp only [doAtUserFlshWrite, if_pos hflag, hblock]
        rfl
      · obtain ⟨buf, hold⟩ := Option.isSome_iff_exists.mp (hbuf hflag)
        refine ⟨buf, _, rfl, fun _ => hold, ?_⟩
        simp only [doAtUserFlshWrite, if_neg hflag, hold, Option.bind_some]
        rfl

/-- Every other command leaves the flag and the flash alone. -/
theorem atUserFlsh_not_received (h : received s c = none)
    (hread : ∀ env, c = .read env → env.userCfgBlock.isSome → env.readBackBlock.isSome) :
    ∃ o t, atUserFlsh s c = some (o, t) ∧ o.written = false ∧ t.flash = s.flash ∧
      t.userCfgFlag = s.userCfgFlag ∧ (s.userCfgFlag ≠ 0 → t.userCfgBuf = s.userCfgBuf) := by
  cases c with
  | read env =>
    simp only [atUserFlsh, doAtUserFlshRead]
    split
    · exact ⟨_, _, rfl, rfl, rfl, rfl, fun _ => rfl⟩
    · rename_i hblock
      obtain ⟨buf, hbuf⟩ := Option.isSome_iff_exists.mp
        (hread env rfl (Option.isSome_iff_ne_none.mpr hblock))
      rw [hbuf, cfgUserReadCfg_some buf env.seen (by decide), Option.map_some]
      exact ⟨_, _, rfl, rfl, rfl, rfl, fun _ => rfl⟩
  | write argc offset data env =>
    simp only [received] at h
    split at h
    case isTrue => cases h
    case isFalse hinvalid =>
      simp only [atUserFlsh]
      split
      · exact ⟨_, _, rfl, rfl, rfl, rfl, fun _ => rfl⟩
      rename_i hargc
      split
      · exact ⟨_, _, rfl, rfl, rfl, rfl, fun _ => rfl⟩
      rename_i hsmall
      split
      case isFalse => exact ⟨_, _, rfl, rfl, rfl, rfl, fun _ => rfl⟩
      case isTrue hdata =>
        rw [gt_iff_lt, UInt8.lt_iff_toNat_lt] at hsmall
        have hoffset : (UInt8.ofInt offset).toNat < 4 := Nat.lt_succ_of_le (Nat.not_lt.mp hsmall)
        have hmem : ¬ (s.userCfgFlag = 0 → env.userCfgBlock.isSome) := fun hmem =>
          hinvalid ⟨not_not.mp hargc, hoffset, hdata, hmem⟩
        obtain ⟨hflag, hnone⟩ := Classical.not_imp.mp hmem
        rw [Option.not_isSome_iff_eq_none] at hnone
        rw [doAtUserFlshWrite, if_pos hflag, hnone]
        exact ⟨_, _, rfl, rfl, rfl, rfl, fun hset => absurd hflag hset⟩

end Received

section Store

variable {s : State} {k : Fin 4} {offset : UInt8}

theorem memcpyAt_block (buf : Buffer) (block : Block) (hk : offset.toNat = k.val) :
    ∃ buf', memcpyAt buf (rwBlockSize * offset.toNat) block.toList = some buf' ∧
      buf'.toList = patch 0 buf.toList (rwBlockSize * k) block.toList := by
  have hfits := block_fits buf k
  rw [Vector.length_toList] at hfits
  rw [hk]
  apply memcpyAt_of_le
  rwa [Vector.length_toList]

theorem storeBlock_more (env : Env) (buf : Buffer) (block : Block)
    (hk : offset.toNat = k.val)
    (hfull : ¬ checkCfgOk (setCfg s.userCfgFlag offset) = true) :
    ∃ o buf', storeBlock env offset block buf s =
        some (o, ⟨setCfg s.userCfgFlag offset, some buf', s.flash⟩) ∧ o.written = false ∧
      buf'.toList = patch 0 buf.toList (rwBlockSize * k) block.toList := by
  obtain ⟨buf', hbuf', hlist⟩ := memcpyAt_block buf block hk
  refine ⟨⟨errorSuccess, false⟩, buf', ?_, rfl, hlist⟩
  rw [storeBlock, hbuf', Option.bind_eq_bind, Option.bind_some, if_neg hfull]

/-- The check decides whether the collection starts again. -/
theorem writeAndCheck_eq {env : Env}
    (hblocks : env.writeBlock.isSome ∧ env.readBackBlock.isSome) (flag : UInt8) (buf : Buffer)
    (flash : Flash) :
    ∃ back after, writeAndCheck env flag buf flash = some (
        if crc16CcittCal 0 (userFlash env.seen) ≠ crc16CcittCal 0 buf.toList then
          (⟨errorNotImplement, true⟩, ⟨flag, some back, after⟩)
        else (⟨errorSuccess, true⟩, ⟨0, none, after⟩)) ∧
      userFlash after = buf.toList := by
  obtain ⟨writeBuf, hwriteBuf⟩ := Option.isSome_iff_exists.mp hblocks.1
  obtain ⟨readBuf, hreadBuf⟩ := Option.isSome_iff_exists.mp hblocks.2
  obtain ⟨after, hafter, hholds⟩ := holds_cfgUserWriteCfg writeBuf buf flash (by decide)
  have hread : cfgUserReadCfg env.readBackBlock rwTotalSize env.seen =
      some (userFlash env.seen) := by
    rw [hreadBuf, cfgUserReadCfg_some readBuf env.seen (by decide), userFlash]
  have hlength : (userFlash env.seen).length = rwTotalSize.toNat := by
    rw [userFlash, readBlock, List.length_map, List.length_range]
  obtain ⟨back, hback, hlist⟩ := memcpyAt_of_le (Vector.replicate rwTotalSize.toNat (0 : UInt8))
    (show 0 + (userFlash env.seen).length ≤ rwTotalSize.toNat by rw [hlength, Nat.zero_add])
  have hseen : back.toList = userFlash env.seen := by
    rw [hlist, patch_zero, List.drop_eq_nil_of_le, List.append_nil]
    rw [Vector.length_toList, hlength]
  refine ⟨back, after, ?_, readBlock_of_holds hholds⟩
  unfold writeAndCheck
  rw [hwriteBuf, hafter, hread, Option.bind_eq_bind, Option.bind_some, Option.bind_eq_bind,
    Option.bind_some, hback, Option.bind_eq_bind, Option.bind_some, hseen]
  split <;> rfl

theorem writeAndCheck_some {env : Env} {flag : UInt8} {buf : Buffer} {flash : Flash}
    {result : Outcome × State} (h : writeAndCheck env flag buf flash = some result) :
    env.writeBlock.isSome ∧ env.readBackBlock.isSome := by
  obtain ⟨after, hafter, hrest⟩ := Option.bind_eq_some_iff.mp h
  obtain ⟨seen, hseen, -⟩ := Option.bind_eq_some_iff.mp hrest
  refine ⟨(writeCfg_some hafter).2.1, ?_⟩
  cases hblock : env.readBackBlock with
  | none =>
    rw [hblock, cfgUserReadCfg, if_pos (by decide)] at hseen
    cases hseen
  | some buf => rfl

/-- The write behind the fourth block needs its two blocks. -/
theorem storeBlock_full_some {env : Env} {buf : Buffer} {block : Block}
    {result : Outcome × State} (hfull : checkCfgOk (setCfg s.userCfgFlag offset) = true)
    (h : storeBlock env offset block buf s = some result) :
    env.writeBlock.isSome ∧ env.readBackBlock.isSome := by
  obtain ⟨buf', -, hrest⟩ := Option.bind_eq_some_iff.mp h
  rw [if_pos hfull] at hrest
  exact writeAndCheck_some hrest

theorem storeBlock_full {env : Env}
    (hblocks : env.writeBlock.isSome ∧ env.readBackBlock.isSome) (buf : Buffer) (block : Block)
    (hk : offset.toNat = k.val)
    (hfull : checkCfgOk (setCfg s.userCfgFlag offset) = true) :
    ∃ o t, storeBlock env offset block buf s = some (o, t) ∧ o.written = true ∧
      userFlash t.flash = patch 0 buf.toList (rwBlockSize * k) block.toList ∧
      (t.userCfgFlag = 0 ∨
        t.userCfgFlag = setCfg s.userCfgFlag offset ∧ t.userCfgBuf.isSome) := by
  obtain ⟨buf', hbuf', hlist⟩ := memcpyAt_block buf block hk
  rw [storeBlock, hbuf', Option.bind_eq_bind, Option.bind_some, if_pos hfull, ← hlist]
  obtain ⟨back, after, heq, hflash⟩ := writeAndCheck_eq hblocks (setCfg s.userCfgFlag offset)
    buf' s.flash
  rw [heq]
  split
  · exact ⟨_, _, rfl, rfl, hflash, .inr ⟨rfl, rfl⟩⟩
  · exact ⟨_, _, rfl, rfl, hflash, .inl rfl⟩

end Store

/-! ### The collection -/

section Collection

variable {s : State} {pending : Pending} {c : Command} {k : Fin 4} {block : Block}

theorem represents_empty {s : State} (hflag : s.userCfgFlag = 0) :
    Represents s fun _ => none where
  bits k := by
    rw [hflag]
    exact Nat.zero_testBit k
  small := by
    rw [hflag]
    decide
  missing h := absurd (h 0) (by decide)
  kept h := absurd hflag h

theorem testBit_setCfg {offset : UInt8} (h : Represents s pending) (hk : offset.toNat = k.val)
    (j : Fin 4) :
    (setCfg s.userCfgFlag offset).toNat.testBit j = (receive pending k block j).isSome := by
  have hval : k.val = j.val ↔ j = k := by
    rw [Fin.ext_iff, eq_comm]
  rw [toNat_setCfg _ (by omega), Nat.testBit_or, h.bits, hk, Nat.testBit_two_pow, receive,
    Function.update_apply]
  by_cases hjk : j = k
  · rw [if_pos hjk, decide_eq_true (hval.mpr hjk), Bool.or_true, Option.isSome_some]
  · rw [if_neg hjk, decide_eq_false (mt hval.mp hjk), Bool.or_false]

theorem setCfg_lt {flag offset : UInt8} (h : flag.toNat < 16) (hk : offset.toNat = k.val) :
    (setCfg flag offset).toNat < 16 := by
  rw [toNat_setCfg _ (by omega)]
  exact Nat.or_lt_two_pow (n := 4) h (Nat.pow_lt_pow_right (by decide) (by omega))

theorem checkCfgOk_setCfg_iff {offset : UInt8} (h : Represents s pending)
    (hk : offset.toNat = k.val) (block : Block) :
    checkCfgOk (setCfg s.userCfgFlag offset) = true ↔ Complete (receive pending k block) := by
  rw [checkCfgOk_iff (setCfg_lt h.small hk)]
  exact forall_congr' fun j => by rw [testBit_setCfg h hk]

/-- The blocks received so far and the new one, in the buffer it is stored in. -/
theorem hasBlock_receive {buf : Buffer} (h : Represents s pending)
    (hbuf : s.userCfgFlag ≠ 0 → s.userCfgBuf = some buf) {j : Fin 4} {kept : Block}
    (hkept : receive pending k block j = some kept) :
    HasBlock (patch 0 buf.toList (rwBlockSize * k) block.toList) j kept := by
  rw [receive, Function.update_apply] at hkept
  split at hkept
  · rename_i hjk
    cases hkept
    rw [hjk]
    exact hasBlock_patch buf k block
  · rename_i hjk
    have hflag : s.userCfgFlag ≠ 0 := by
      intro hzero
      have hbit := h.bits j
      rw [hzero, hkept, UInt8.toNat_zero, Nat.zero_testBit] at hbit
      cases hbit
    obtain ⟨buf', hbuf', hblocks⟩ := h.kept hflag
    cases (hbuf hflag).symm.trans hbuf'
    exact hasBlock_patch_other hjk (hblocks j kept hkept)

theorem eq_full_of_bits {flag : UInt8} (hsmall : flag.toNat < 16)
    (h : ∀ k : Fin 4, flag.toNat.testBit k = true) : flag = 0x0F := by
  rw [← UInt8.toNat_inj]
  generalize flag.toNat = n at *
  revert h
  interval_cases n <;> decide

/-- What is promised of a block, and what the next one finds. -/
theorem received_spec (h : Represents s pending) (hrec : received s c = some (k, block))
    (hblocks : Complete (receive pending k block) →
      c.env.writeBlock.isSome ∧ c.env.readBackBlock.isSome) :
    ∃ o t, atUserFlsh s c = some (o, t) ∧
      (o.written = true ↔ Complete (receive pending k block)) ∧
      (o.written = false → t.flash = s.flash) ∧
      (o.written = true → ∀ j kept, receive pending k block j = some kept →
        HasBlock (userFlash t.flash) j kept) ∧
      (Represents t (restart (receive pending k block)) ∨
        Stuck t (restart (receive pending k block))) := by
  have hsome : s.userCfgFlag ≠ 0 → s.userCfgBuf.isSome := by
    intro hflag
    obtain ⟨buf, hbuf, -⟩ := h.kept hflag
    rw [hbuf, Option.isSome_some]
  obtain ⟨buf, offset, hk, hbuf, heq⟩ := atUserFlsh_received hsome hrec
  rw [heq]
  by_cases hfull : checkCfgOk (setCfg s.userCfgFlag offset) = true
  · have hcomplete := (checkCfgOk_setCfg_iff h hk block).mp hfull
    obtain ⟨o, t, ht, hwritten, hflash, hnext⟩ := storeBlock_full (hblocks hcomplete) buf block hk
      hfull
    refine ⟨o, t, ht, iff_of_true hwritten hcomplete, ?_, ?_, ?_⟩
    · intro hnot
      cases hwritten.symm.trans hnot
    · intro _ j kept hkept
      rw [hflash]
      exact hasBlock_receive h hbuf hkept
    · rw [restart, if_pos hcomplete]
      obtain hflag | ⟨hflag, hback⟩ := hnext
      · exact .inl (represents_empty hflag)
      · refine .inr ⟨?_, fun _ => rfl, hback⟩
        rw [hflag]
        exact eq_full_of_bits (setCfg_lt h.small hk)
          ((checkCfgOk_iff (setCfg_lt h.small hk)).mp hfull)
  · have hmissing := mt (checkCfgOk_setCfg_iff h hk block).mpr hfull
    obtain ⟨o, buf', ht, hwritten, hlist⟩ := storeBlock_more c.env buf block hk hfull
    refine ⟨o, _, ht, iff_of_false (by rw [hwritten]; decide) hmissing, fun _ => rfl, ?_, ?_⟩
    · intro hwrote
      cases hwritten.symm.trans hwrote
    · rw [restart, if_neg hmissing]
      refine .inl ⟨testBit_setCfg h hk, setCfg_lt h.small hk, hmissing, fun _ => ⟨buf', rfl, ?_⟩⟩
      intro j kept hkept
      rw [hlist]
      exact hasBlock_receive h hbuf hkept

end Collection

/-! ### Every run -/

/-- What every command meets as long as no block came after a failed check. -/
def Inv (y : Sys) : Prop := Represents y.code y.pending ∨ Stuck y.code y.pending

theorem flag_ne_of_represents {s : State} {pending : Pending} (h : Represents s pending) :
    s.userCfgFlag ≠ 0x0F := by
  intro hflag
  apply h.missing
  intro k
  rw [← h.bits, hflag, testBit_full]

theorem represents_of_same {s t : State} {pending : Pending} (h : Represents s pending)
    (hflag : t.userCfgFlag = s.userCfgFlag)
    (hbuf : s.userCfgFlag ≠ 0 → t.userCfgBuf = s.userCfgBuf) : Represents t pending where
  bits k := by rw [hflag, h.bits]
  small := by rw [hflag]; exact h.small
  missing := h.missing
  kept hset := by
    rw [hflag] at hset
    rw [hbuf hset]
    exact h.kept hset

/-- A complete collection is written with a block for each of the two functions. -/
theorem blocks_of_received {s : State} {pending : Pending} {c : Command} {k : Fin 4}
    {block : Block} (h : Represents s pending) (hrec : received s c = some (k, block))
    (hcomplete : Complete (receive pending k block)) {result : Outcome × State}
    (hresult : atUserFlsh s c = some result) :
    c.env.writeBlock.isSome ∧ c.env.readBackBlock.isSome := by
  have hsome : s.userCfgFlag ≠ 0 → s.userCfgBuf.isSome := by
    intro hflag
    obtain ⟨buf, hbuf, -⟩ := h.kept hflag
    rw [hbuf, Option.isSome_some]
  obtain ⟨buf, offset, hk, -, heq⟩ := atUserFlsh_received hsome hrec
  rw [heq] at hresult
  exact storeBlock_full_some ((checkCfgOk_setCfg_iff h hk block).mpr hcomplete) hresult

/-- The block of a later collection completes the flag at once. -/
theorem not_lawful_of_stuck {y : Sys} {c : Command} (h : Stuck y.code y.pending)
    (hrec : received y.code c ≠ none) : ¬ Lawful y c := by
  rintro ⟨o, t, heq, hlaw⟩
  obtain ⟨⟨k, block⟩, hsome⟩ := Option.ne_none_iff_exists'.mp hrec
  rw [hsome] at hlaw
  obtain ⟨buf, offset, hk, -, hstore⟩ := atUserFlsh_received (fun _ => h.buf) hsome
  have hfull : checkCfgOk (setCfg y.code.userCfgFlag offset) = true := by
    rw [checkCfgOk_iff (setCfg_lt (by rw [h.flag]; decide) hk), h.flag]
    intro j
    rw [toNat_setCfg _ (by omega), Nat.testBit_or, testBit_full, Bool.true_or]
  rw [hstore] at heq
  obtain ⟨o', t', ht', hwritten, -⟩ :=
    storeBlock_full (storeBlock_full_some hfull heq) buf block hk hfull
  rw [ht'] at heq
  cases heq
  have hcomplete := hlaw.1.mp hwritten
  have hother : receive y.pending k block (k + 1) = none := by
    rw [receive, Function.update_of_ne (by omega), h.none]
  have hall := hcomplete (k + 1)
  rw [hother] at hall
  cases hall

theorem lawful_iff_of_not_received {y : Sys} {c : Command} (h : received y.code c = none) :
    Lawful y c ↔ Served y c := by
  constructor
  · rintro ⟨o, t, heq, -⟩
    cases c with
    | write argc offset data env =>
      intro k block hsome
      rw [h] at hsome
      cases hsome
    | read env =>
      intro hbuf
      simp only [atUserFlsh, doAtUserFlshRead] at heq
      rw [if_neg (Option.isSome_iff_ne_none.mp hbuf)] at heq
      obtain ⟨seen, hseen, -⟩ := Option.map_eq_some_iff.mp heq
      cases hblock : env.readBackBlock with
      | none =>
        rw [hblock, cfgUserReadCfg, if_pos (by decide)] at hseen
        cases hseen
      | some buf => rfl
  · intro hserved
    have hread : ∀ env, c = .read env → env.userCfgBlock.isSome → env.readBackBlock.isSome := by
      rintro env rfl
      exact hserved
    obtain ⟨o, t, heq, hwritten, hflash, -⟩ := atUserFlsh_not_received h hread
    refine ⟨o, t, heq, ?_⟩
    rw [h]
    exact ⟨hwritten, hflash⟩

/-- Only a write brings a block. -/
theorem served_iff_of_received {y : Sys} {c : Command} {k : Fin 4} {block : Block}
    (h : received y.code c = some (k, block)) :
    Served y c ↔ (Complete (receive y.pending k block) →
      c.env.writeBlock.isSome ∧ c.env.readBackBlock.isSome) := by
  cases c with
  | read env => cases h
  | write argc offset data env =>
    constructor
    · exact fun hserved => hserved k block h
    · intro hblocks k' block' h'
      rw [h] at h'
      cases h'
      exact hblocks

theorem lawful_iff {y : Sys} (h : Inv y) (c : Command) : Lawful y c ↔ Meets y c := by
  cases hrec : received y.code c with
  | none =>
    rw [lawful_iff_of_not_received hrec]
    exact ⟨fun hserved => ⟨hserved, fun hne => absurd hrec hne⟩, Meets.served⟩
  | some result =>
    obtain ⟨k, block⟩ := result
    have hne : received y.code c ≠ none := by
      rw [hrec]
      exact Option.some_ne_none _
    obtain hrep | hstuck := h
    · constructor
      · rintro ⟨o, t, heq, -⟩
        refine ⟨(served_iff_of_received hrec).mpr fun hcomplete => ?_,
          fun _ => flag_ne_of_represents hrep⟩
        exact blocks_of_received hrep hrec hcomplete heq
      · intro hmeets
        obtain ⟨o, t, heq, hwritten, hkept, hblocks, -⟩ :=
          received_spec hrep hrec ((served_iff_of_received hrec).mp hmeets.served)
        refine ⟨o, t, heq, ?_⟩
        rw [hrec]
        exact ⟨hwritten, hkept, hblocks⟩
    · exact iff_of_false (not_lawful_of_stuck hstuck hne) fun hmeets => hmeets.fresh hne hstuck.flag

theorem inv_step {y z : Sys} {c : Command} (h : Inv y) (hmeets : Meets y c)
    (hnext : step y c = some z) : Inv z := by
  obtain ⟨⟨o, t⟩, heq, rfl⟩ := Option.map_eq_some_iff.mp hnext
  cases hrec : received y.code c with
  | none =>
    have hread : ∀ env, c = .read env → env.userCfgBlock.isSome → env.readBackBlock.isSome := by
      rintro env rfl
      exact hmeets.served
    obtain ⟨o', t', heq', -, -, hflag, hbuf⟩ := atUserFlsh_not_received hrec hread
    cases heq.symm.trans heq'
    obtain hrep | hstuck := h
    · exact .inl (represents_of_same hrep hflag hbuf)
    · have hset : y.code.userCfgFlag ≠ 0 := by
        rw [hstuck.flag]
        decide
      exact .inr ⟨hflag.trans hstuck.flag, hstuck.none, by rw [hbuf hset]; exact hstuck.buf⟩
  | some result =>
    obtain ⟨k, block⟩ := result
    obtain hrep | hstuck := h
    · obtain ⟨o', t', heq', -, -, -, hinv⟩ :=
        received_spec hrep hrec ((served_iff_of_received hrec).mp hmeets.served)
      cases heq.symm.trans heq'
      exact hinv
    · exact absurd hstuck.flag (hmeets.fresh (by rw [hrec]; exact Option.some_ne_none _))

/-- The flash is written when it should be, in every state of a run, exactly if no block
comes after a failed check and there is memory for the write and for what is read back. -/
theorem lawful_along_iff (flash : Flash) (commands : List Command) :
    Along step Lawful (start flash) commands ↔ Along step Meets (start flash) commands :=
  along_iff (I := Inv) (.inl (represents_empty rfl)) (fun _ _ _ h hmeets => inv_step h hmeets)
    (fun _ c h => lawful_iff h c) commands

/-! ### A failed check -/

/-- The index of an entry, from its low byte. -/
def tabIndex (entry : UInt16) : Nat :=
  let t := (entry ^^^ (entry <<< 5)) &&& 0xFF
  (t ^^^ (t >>> 4)).toNat

theorem map_tabIndex : crc16Tab.toList.map tabIndex = List.range 256 := by decide +kernel

theorem getD_of_map_range {α : Type*} {tab : Array α} {f : α → Nat} {n i : Nat}
    (h : tab.toList.map f = List.range n) (hi : i < n) (value : α) : f (tab.getD i value) = i := by
  have hsize : tab.size = n := by
    rw [← Array.length_toList, ← List.length_map f, h, List.length_range]
  have hentry := congrArg (fun entries => entries[i]?) h
  simp only [List.getElem?_map, List.getElem?_range hi, Array.getElem?_toList,
    Array.getElem?_eq_getElem (hi.trans_eq hsize.symm), Option.map_some, Option.some.injEq]
    at hentry
  rw [Array.getD, dif_pos (hi.trans_eq hsize.symm)]
  exact hentry

/-- The entry for a byte. -/
theorem toNat_index (cksum : UInt16) (byte : UInt8) :
    ((cksum ^^^ byte.toUInt16) &&& 0xFF).toNat = (cksum.toNat &&& 255) ^^^ byte.toNat := by
  have hbyte : byte.toNat &&& 255 = byte.toNat :=
    (Nat.and_two_pow_sub_one_eq_mod byte.toNat 8).trans (Nat.mod_eq_of_lt byte.toNat_lt)
  rw [UInt16.toNat_and, UInt16.toNat_xor, UInt8.toNat_toUInt16]
  change (cksum.toNat ^^^ byte.toNat) &&& 255 = _
  rw [Nat.and_xor_distrib_right, hbyte]

theorem index_lt (cksum : UInt16) : (cksum &&& 0xFF).toNat < 256 := by
  rw [UInt16.toNat_and]
  exact Nat.and_lt_two_pow (n := 8) _ (by decide)

/-- The check notices a change of the last byte. -/
theorem crc16CcittCal_concat_ne (crcStart : UInt16) (buf : List UInt8) {x y : UInt8}
    (h : x ≠ y) :
    crc16CcittCal crcStart (buf ++ [x]) ≠ crc16CcittCal crcStart (buf ++ [y]) := by
  unfold crc16CcittCal
  rw [List.foldl_concat, List.foldl_concat]
  generalize buf.foldl _ crcStart = cksum
  intro heq
  have hindex := congrArg tabIndex ((UInt16.xor_left_inj (cksum <<< 8)).mp heq)
  rw [getD_of_map_range map_tabIndex (index_lt _), getD_of_map_range map_tabIndex (index_lt _),
    toNat_index, toNat_index] at hindex
  have hbytes := congrArg (((cksum >>> 8).toNat &&& 255) ^^^ ·) hindex
  simp only [Nat.xor_xor_cancel_left] at hbytes
  exact h (UInt8.toNat_inj.mp hbytes)

def filled : Buffer := Vector.replicate _ 97

/-- The flash when its last byte is not read back as it was written. -/
def spoiled : Flash := fun a => if a = flashAddr gUserCfg + 2047 then 98 else 97

def spoiledEnv : Env :=
  ⟨some filled, some (Vector.replicate _ 0), some (Vector.replicate _ 0), spoiled⟩

/-- A block of one letter, into memory that holds this letter already. -/
def letterBlock (k : Fin 4) : Command :=
  .write 3 k.val (List.replicate rwBlockSize 97) spoiledEnv

def letters : Block := ⟨(List.replicate rwBlockSize 97).toArray, List.length_replicate⟩

theorem toNat_offset (k : Fin 4) : (UInt8.ofInt k.val).toNat = k.val := by
  rw [uint8_ofInt, UInt8.toNat_ofNat']
  omega

theorem received_letterBlock (s : State) (k : Fin 4) :
    received s (letterBlock k) = some (k, letters) := by
  simp only [letterBlock, received, toNat_offset, List.length_replicate, k.isLt, spoiledEnv,
    Option.isSome_some, implies_true, and_self, dite_true, letters]

theorem memcpyAt_filled (k : Fin 4) :
    memcpyAt filled (rwBlockSize * k) (List.replicate rwBlockSize 97) = some filled := by
  have hfits := block_fits filled k
  rw [Vector.length_toList] at hfits
  obtain ⟨dest, hdest, hlist⟩ := memcpyAt_of_le filled
    (show rwBlockSize * k + (List.replicate rwBlockSize (97 : UInt8)).length ≤ _ by
      rwa [List.length_replicate])
  have hfilled : filled.toList = List.replicate rwTotalSize.toNat 97 := Vector.toList_replicate
  rw [hfilled, patch_replicate 0 97 hfits, ← hfilled, Vector.toList_inj] at hlist
  rw [hdest, hlist]

theorem readBlock_last (base n : Nat) (x y : UInt8) :
    readBlock (fun a => if a = base + n then y else x) base (n + 1) =
      List.replicate n x ++ [y] := by
  rw [readBlock, List.range_succ, List.map_append, List.map_singleton, if_pos rfl]
  congr 1
  rw [List.eq_replicate_iff]
  refine ⟨by rw [List.length_map, List.length_range], ?_⟩
  intro byte hbyte
  obtain ⟨i, hi, rfl⟩ := List.mem_map.mp hbyte
  rw [List.mem_range] at hi
  exact if_neg (by omega)

/-- What is read back differs in the last byte. -/
theorem crc_spoiled_ne : crc16CcittCal 0 (userFlash spoiled) ≠ crc16CcittCal 0 filled.toList := by
  have hspoiled : userFlash spoiled = List.replicate 2047 97 ++ [98] :=
    readBlock_last (flashAddr gUserCfg) 2047 97 98
  have hfilled : filled.toList = List.replicate 2047 97 ++ [97] := by
    have hlist : filled.toList = List.replicate (2047 + 1) 97 := Vector.toList_replicate
    rw [hlist]
    exact List.replicate_succ'
  rw [hspoiled, hfilled]
  exact crc16CcittCal_concat_ne 0 _ (by decide)

theorem storeBlock_letters (s : State) (k : Fin 4) :
    ∃ o t, storeBlock spoiledEnv (UInt8.ofInt k.val) letters filled s = some (o, t) ∧
      t.userCfgFlag = setCfg s.userCfgFlag (UInt8.ofInt k.val) ∧ t.userCfgBuf.isSome ∧
      (checkCfgOk t.userCfgFlag = false → t.userCfgBuf = some filled) := by
  have hfilled : memcpyAt filled (rwBlockSize * (UInt8.ofInt k.val).toNat) letters.toList =
      some filled := by
    rw [toNat_offset]
    exact memcpyAt_filled k
  rw [storeBlock, hfilled, Option.bind_eq_bind, Option.bind_some]
  split
  · rename_i hfull
    have hblocks : spoiledEnv.writeBlock.isSome ∧ spoiledEnv.readBackBlock.isSome := ⟨rfl, rfl⟩
    obtain ⟨back, after, heq, -⟩ := writeAndCheck_eq hblocks
      (setCfg s.userCfgFlag (UInt8.ofInt k.val)) filled s.flash
    rw [heq, if_pos (show crc16CcittCal 0 (userFlash spoiledEnv.seen) ≠ _ from crc_spoiled_ne)]
    refine ⟨_, _, rfl, rfl, rfl, fun hmore => ?_⟩
    rw [hfull] at hmore
    cases hmore
  · exact ⟨_, _, rfl, rfl, rfl, fun _ => rfl⟩

theorem step_letterBlock {y : Sys}
    (hbuf : y.code.userCfgFlag ≠ 0 → y.code.userCfgBuf = some filled) (k : Fin 4) :
    ∃ t, step y (letterBlock k) = some ⟨t, restart (receive y.pending k letters)⟩ ∧
      t.userCfgFlag = setCfg y.code.userCfgFlag (UInt8.ofInt k.val) ∧ t.userCfgBuf.isSome ∧
      (checkCfgOk t.userCfgFlag = false → t.userCfgBuf = some filled) := by
  obtain ⟨o, t, hstore, hnext⟩ := storeBlock_letters y.code k
  have hsmall : ¬ UInt8.ofInt k.val > 3 := by
    rw [gt_iff_lt, UInt8.lt_iff_toNat_lt, toNat_offset]
    exact Nat.not_lt.mpr (Nat.le_of_lt_succ k.isLt)
  have heq : atUserFlsh y.code (letterBlock k) = some (o, t) := by
    have hblock : spoiledEnv.userCfgBlock = some filled := rfl
    rw [← hstore, letters]
    by_cases hflag : y.code.userCfgFlag = 0
    · simp only [atUserFlsh, letterBlock, ne_eq, not_true_eq_false, if_false, if_neg hsmall,
        List.length_replicate, dite_true, doAtUserFlshWrite, if_pos hflag, hblock]
    · simp only [atUserFlsh, letterBlock, ne_eq, not_true_eq_false, if_false, if_neg hsmall,
        List.length_replicate, dite_true, doAtUserFlshWrite, if_neg hflag, hbuf hflag,
        Option.bind_some]
  refine ⟨t, ?_, hnext⟩
  rw [step, heq, Option.map_some, received_letterBlock]

def collection : List Command := [letterBlock 0, letterBlock 1, letterBlock 2, letterBlock 3]

theorem collection_stuck (flash : Flash) :
    ∃ y, Run step anyStep (start flash) collection y ∧ Stuck y.code y.pending := by
  obtain ⟨s, hs, hflag, -, hbuf⟩ := step_letterBlock (y := start flash) (fun h => absurd rfl h) 0
  replace hflag : s.userCfgFlag = 1 := hflag.trans
    (show setCfg 0 (UInt8.ofInt (0 : Fin 4).val) = 1 by decide)
  obtain ⟨t, ht, hflag', -, hbuf'⟩ := step_letterBlock
    (y := ⟨s, restart (receive (fun _ => none) 0 letters)⟩)
    (fun _ => hbuf (by rw [hflag]; decide)) 1
  rw [hflag] at hflag'
  replace hflag' : t.userCfgFlag = 3 := hflag'.trans (by decide)
  obtain ⟨u, hu, hflag'', -, hbuf''⟩ := step_letterBlock
    (y := ⟨t, restart (receive (restart (receive (fun _ => none) 0 letters)) 1 letters)⟩)
    (fun _ => hbuf' (by rw [hflag']; decide)) 2
  rw [hflag'] at hflag''
  replace hflag'' : u.userCfgFlag = 7 := hflag''.trans (by decide)
  obtain ⟨v, hv, hflagv, hback, -⟩ := step_letterBlock
    (y := ⟨u, restart (receive (restart (receive (restart (receive (fun _ => none)
      0 letters)) 1 letters)) 2 letters)⟩) (fun _ => hbuf'' (by rw [hflag'']; decide)) 3
  rw [hflag''] at hflagv
  refine ⟨_, (((Run.nil.snoc trivial hs).snoc trivial ht).snoc trivial hu).snoc trivial hv,
    hflagv.trans (by decide), ?_, hback⟩
  show ∀ k, restart (receive (restart (receive (restart (receive (restart (receive (fun _ => none)
    0 letters)) 1 letters)) 2 letters)) 3 letters) k = none
  decide

/-- A block behind a failed check is written with three stale ones. -/
theorem stale_written :
    ¬ Along step Lawful (start fun _ => 0xFF) (collection ++ [letterBlock 0]) := by
  intro h
  obtain ⟨y, hrun, hstuck⟩ := collection_stuck fun _ => 0xFF
  have hlawful := (along_concat.mp h).2 y hrun
  refine not_lawful_of_stuck hstuck ?_ hlawful
  rw [received_letterBlock]
  exact Option.some_ne_none _

end Sv6x66.Cfg.UserFlash
