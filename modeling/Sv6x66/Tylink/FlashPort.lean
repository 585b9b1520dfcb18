import Sv6x66.Lib.Run
import Sv6x66.Tylink.UniStorge

/-! The flash port as a byte store: next to the file the model keeps, for each
address, the byte last written or erased there. -/
namespace Sv6x66.Tylink.FlashPort
open Sv6x66.Lib
open Sv6x66.Lib.ByteFile
open Sv6x66.Tylink.UniStorge

/-- The byte last put at each address, `none` where there was no call yet. -/
abbrev Store := Nat → Option UInt8

def Store.put (store : Store) (addr : Nat) (data : List UInt8) : Store := fun a =>
  if addr ≤ a ∧ a < addr + data.length then data[a - addr]? else store a

structure Port where
  file : Option (List UInt8)
  store : Store

/-- A caller hands over a buffer of `size` bytes, or `NULL`. -/
inductive Call where
  | read (env : ReadEnv) (addr size : UInt32) (dst : Option (Vector UInt8 size.toNat))
  | write (env : WriteEnv) (addr size : UInt32) (src : Option (Vector UInt8 size.toNat))
  | erase (addr size : UInt32)

def readResult (s : Port) (env : ReadEnv) (addr size : UInt32)
    (dst : Option (Vector UInt8 size.toNat)) : OperateRet × Option (List UInt8) :=
  tuyaUniFlashRead s.file env addr size (dst.map Vector.toList)

def writeResult (s : Port) (env : WriteEnv) (addr size : UInt32)
    (src : Option (Vector UInt8 size.toNat)) : OperateRet × Option (List UInt8) :=
  tuyaUniFlashWrite s.file env addr size (src.map Vector.toList)

/-- What a successful call is meant to put into the store. -/
def meant (s : Port) : Call → Store
  | .read _ _ _ _ => s.store
  | .write env addr size src =>
    if (writeResult s env addr size src).1 = .oprtOk then
      s.store.put addr.toNat ((src.map Vector.toList).getD [])
    else s.store
  | .erase addr size =>
    if tuyaUniFlashErase addr size = .oprtOk then
      s.store.put addr.toNat (List.replicate size.toNat 0xFF)
    else s.store

def step (s : Port) (call : Call) : Port where
  file :=
    match call with
    | .write env addr size src => (writeResult s env addr size src).2
    | _ => s.file
  store := meant s call

def start (file : Option (List UInt8)) : Port := ⟨file, fun _ => none⟩

/-! ### The law -/

/-- The byte the file holds for an address. -/
def contents (file : Option (List UInt8)) (a : Nat) : Option UInt8 :=
  byteAt simpleFlashStart.toNat (file.getD []) a

def InArea (addr size : UInt32) : Prop := addr.toNat + size.toNat ≤ areaEnd

/-- The buffer holds the stored bytes, those last put where there were any. -/
def Filled (s : Port) (addr size : UInt32) (buffer : List UInt8) : Prop :=
  buffer.length = size.toNat ∧ ∀ i < size.toNat,
    contents s.file (addr.toNat + i) = buffer[i]? ∧
      ∀ byte, s.store (addr.toNat + i) = some byte → buffer[i]? = some byte

def OthersKept (s t : Port) (addr size : UInt32) : Prop :=
  ∀ a, a < addr.toNat ∨ addr.toNat + size.toNat ≤ a → contents t.file a = contents s.file a

/-- What a byte store promises of one call. -/
def Lawful (s : Port) : Call → Prop
  | .read env addr size dst =>
    ((readResult s env addr size dst).1 = .oprtOk →
        ∃ buffer, (readResult s env addr size dst).2 = some buffer ∧ Filled s addr size buffer) ∧
      (¬ InArea addr size → (readResult s env addr size dst).1 ≠ .oprtOk ∧
        (readResult s env addr size dst).2 = dst.map Vector.toList)
  | .write env addr size src =>
    OthersKept s (step s (.write env addr size src)) addr size ∧
      (¬ InArea addr size → (writeResult s env addr size src).1 ≠ .oprtOk ∧
        (step s (.write env addr size src)).file = s.file)
  | .erase addr size =>
    OthersKept s (step s (.erase addr size)) addr size ∧
      (¬ InArea addr size → tuyaUniFlashErase addr size ≠ .oprtOk ∧
        (step s (.erase addr size)).file = s.file)

/-! ### When the port keeps it -/

def ReadsAll (file : Option (List UInt8)) (env : ReadEnv) (addr size : UInt32) : Prop :=
  pos1 addr = fsLseek env.seekSet (pos1 addr) (file.getD []).length ∧
    size.toNat ≤ env.delivered ∧ (pos1 addr).toNat + size.toNat ≤ (file.getD []).length

def NoDummy (file : Option (List UInt8)) (env : WriteEnv) (addr : UInt32) : Prop :=
  pos1 addr ≤ fsLseek env.seekEnd (file.getD []).length (file.getD []).length ∨ env.filled = 0

def StoresAll (file : Option (List UInt8)) (env : WriteEnv) (addr size : UInt32) : Prop :=
  pos1 addr = fsLseek env.seekSet (pos1 addr) (file.getD []).length ∧ size.toNat ≤ env.stored

/-- The call fails, or it stays inside the area, the file system does all of it,
no dummy bytes are needed, and what is to be erased is erased already. -/
def Meets (s : Port) : Call → Prop
  | .read env addr size dst =>
    ReadFails s.file env addr size (dst.map Vector.toList) ∨
      InArea addr size ∧ (size = 0 ∨ ReadsAll s.file env addr size)
  | .write env addr size src =>
    WriteFails env addr size (src.map Vector.toList) ∨
      InArea addr size ∧ NoDummy s.file env addr ∧ (size = 0 ∨ StoresAll s.file env addr size)
  | .erase addr size =>
    InArea addr size ∧ ∀ i < size.toNat, ∀ byte,
      contents s.file (addr.toNat + i) = some byte → byte = 0xFF

/-- The file holds no other byte than the one last put at its address. -/
def Agrees (s : Port) : Prop :=
  ∀ a held byte, contents s.file a = some held → s.store a = some byte → held = byte

variable {s : Port} {addr size : UInt32}

theorem agrees_start (file : Option (List UInt8)) : Agrees (start file) := by
  intro a held byte _ hbyte
  simp only [start, reduceCtorEq] at hbyte

theorem Store.put_inside {store : Store} {start : Nat} {data : List UInt8} {a : Nat}
    (h : start ≤ a ∧ a < start + data.length) : store.put start data a = data[a - start]? :=
  if_pos h

theorem Store.put_outside {store : Store} {start : Nat} {data : List UInt8} {a : Nat}
    (h : ¬ (start ≤ a ∧ a < start + data.length)) : store.put start data a = store a := if_neg h

/-! ### Reads -/

theorem pos1_of_inArea {mounted : Bool} (hparm : invalidParm mounted addr size = false)
    (harea : InArea addr size) :
    simpleFlashStart.toNat ≤ addr.toNat ∧
      pos1 addr = (addr.toNat - simpleFlashStart.toNat : Nat) := by
  have hstart := le_of_not_invalidParm hparm
  unfold InArea at harea
  exact ⟨UInt32.le_iff_toNat_le.mp hstart, pos1_eq hstart (by omega)⟩

theorem Agrees.read (h : Agrees s) {env : ReadEnv} {dst : Option (Vector UInt8 size.toNat)}
    (hmeets : Meets s (.read env addr size dst)) : Lawful s (.read env addr size dst) := by
  by_cases hfails : ReadFails s.file env addr size (dst.map Vector.toList)
  · obtain ⟨hret, hdst⟩ := tuyaUniFlashRead_fails hfails
    exact ⟨fun hok => absurd hok hret, fun _ => ⟨hret, hdst⟩⟩
  obtain ⟨harea, hall⟩ := hmeets.resolve_left hfails
  refine ⟨fun _ => ?_, fun hout => absurd harea hout⟩
  obtain ⟨bytes, buffer, hfile, hdst, hparm, hread⟩ := tuyaUniFlashRead_ok hfails
  obtain ⟨hstart, hpos⟩ := pos1_of_inArea hparm harea
  have hlen : buffer.length = size.toNat := by
    obtain ⟨vector, -, rfl⟩ := Option.map_eq_some_iff.mp hdst
    exact vector.length_toList
  unfold readResult
  rw [hread]
  refine ⟨_, rfl, ?_⟩
  obtain rfl | ⟨hseek, hdelivered, hend⟩ := hall
  · refine ⟨?_, fun i hi => absurd hi (Nat.not_lt_zero i)⟩
    split
    · rw [fsRead, show UInt32.toNat 0 = 0 from rfl, Nat.zero_min, List.take_zero]
      exact hlen
    · exact hlen
  · rw [hfile, Option.getD_some] at hseek hend
    rw [if_pos hseek, hpos, Int.toNat_natCast] at *
    have hdata : (fsRead bytes (addr.toNat - simpleFlashStart.toNat) size.toNat
        env.delivered).length = buffer.length := by
      rw [fsRead, Nat.min_eq_left hdelivered, List.length_take, List.length_drop, hlen]
      omega
    rw [overlay_of_length _ _ hdata]
    refine ⟨hdata.trans hlen, ?_⟩
    intro i hi
    have hheld : contents s.file (addr.toNat + i) =
        (fsRead bytes (addr.toNat - simpleFlashStart.toNat) size.toNat env.delivered)[i]? := by
      rw [contents, byteAt_add hstart, hfile, Option.getD_some, fsRead, Nat.min_eq_left hdelivered,
        List.getElem?_take_of_lt hi, List.getElem?_drop]
    refine ⟨hheld, ?_⟩
    intro byte hbyte
    rw [← hheld, contents, byteAt_add hstart, hfile, Option.getD_some]
    have hin : addr.toNat - simpleFlashStart.toNat + i < bytes.length := by omega
    rw [List.getElem?_eq_getElem hin]
    refine congrArg some (h (addr.toNat + i) _ byte ?_ hbyte)
    rw [contents, byteAt_add hstart, hfile, Option.getD_some, List.getElem?_eq_getElem hin]

/-! ### Writes -/

theorem writeDummy_eq {file : Option (List UInt8)} {env : WriteEnv}
    (h : NoDummy file env addr) : writeDummy env addr (file.getD []) = file.getD [] := by
  simp only [writeDummy]
  split
  · obtain hpos | hfilled := h
    · omega
    · rw [hfilled]
      exact fsWrite_nothing (fsLseek_end_le _ _)
  · rfl

/-- A write that meets the condition puts its bytes and nothing else. -/
theorem contents_write {env : WriteEnv} {src : Option (Vector UInt8 size.toNat)}
    (hmeets : Meets s (.write env addr size src))
    (hfails : ¬ WriteFails env addr size (src.map Vector.toList)) :
    ∃ data : List UInt8, src.map Vector.toList = some data ∧ data.length = size.toNat ∧
      (writeResult s env addr size src).1 = .oprtOk ∧
      ∀ a, contents (step s (.write env addr size src)).file a =
        if addr.toNat ≤ a ∧ a < addr.toNat + data.length then data[a - addr.toNat]?
        else contents s.file a := by
  obtain ⟨harea, hdummy, hall⟩ := hmeets.resolve_left hfails
  obtain ⟨data, hsrc, hparm, hwrite⟩ := tuyaUniFlashWrite_ok s.file hfails
  obtain ⟨hstart, hpos⟩ := pos1_of_inArea hparm harea
  have hlen : data.length = size.toNat := by
    obtain ⟨vector, -, rfl⟩ := Option.map_eq_some_iff.mp hsrc
    exact vector.length_toList
  refine ⟨data, hsrc, hlen, ?_, ?_⟩
  · unfold writeResult
    rw [hwrite]
  intro a
  have hfile : (step s (.write env addr size src)).file =
      some (writeData env addr data (s.file.getD [])) := by
    rw [← writeDummy_eq hdummy]
    exact congrArg Prod.snd hwrite
  unfold contents
  rw [hfile, Option.getD_some, writeData, hpos]
  obtain hzero | ⟨hseek, hstored⟩ := hall
  · have hnil : data = [] := by
      rw [← List.length_eq_zero_iff, hlen, hzero]
      rfl
    subst hnil
    have hnone : ¬ (addr.toNat ≤ a ∧ a < addr.toNat + ([] : List UInt8).length) := by
      rw [List.length_nil]
      omega
    rw [if_neg hnone]
    split
    · rename_i hseek
      rw [Int.toNat_natCast, fsWrite, List.take_nil,
        byteAt_patch _ hstart (le_of_fsLseek hseek), if_neg hnone]
    · rfl
  · rw [hpos] at hseek
    rw [if_pos hseek, Int.toNat_natCast, fsWrite, List.take_of_length_le (by omega),
      byteAt_patch _ hstart (le_of_fsLseek hseek)]

theorem Agrees.write (h : Agrees s) {env : WriteEnv} {src : Option (Vector UInt8 size.toNat)}
    (hmeets : Meets s (.write env addr size src)) :
    Lawful s (.write env addr size src) ∧ Agrees (step s (.write env addr size src)) := by
  by_cases hfails : WriteFails env addr size (src.map Vector.toList)
  · obtain ⟨hret, hfile⟩ : (writeResult s env addr size src).1 ≠ .oprtOk ∧
      (writeResult s env addr size src).2 = s.file := tuyaUniFlashWrite_fails hfails
    have hsame : step s (.write env addr size src) = s := by
      unfold step meant
      dsimp only
      rw [if_neg hret]
      rw [hfile]
    refine ⟨⟨?_, fun _ => ⟨hret, hfile⟩⟩, ?_⟩
    · rw [hsame]
      exact fun _ _ => rfl
    · rw [hsame]
      exact h
  obtain ⟨data, hsrc, hlen, hok, hcontents⟩ := contents_write hmeets hfails
  refine ⟨⟨?_, fun hout => absurd (hmeets.resolve_left hfails).1 hout⟩, ?_⟩
  · intro a ha
    rw [hcontents, if_neg]
    rw [hlen]
    omega
  · intro a held byte hheld hbyte
    simp only [step, meant] at hbyte
    rw [if_pos hok, hsrc, Option.getD_some] at hbyte
    rw [hcontents] at hheld
    by_cases hin : addr.toNat ≤ a ∧ a < addr.toNat + data.length
    · rw [if_pos hin] at hheld
      rw [Store.put_inside hin, hheld] at hbyte
      exact Option.some.inj hbyte
    · rw [if_neg hin] at hheld
      rw [Store.put_outside hin] at hbyte
      exact h a held byte hheld hbyte

/-! ### Erases -/

theorem Agrees.erase (h : Agrees s) (hmeets : Meets s (.erase addr size)) :
    Lawful s (.erase addr size) ∧ Agrees (step s (.erase addr size)) := by
  obtain ⟨harea, herased⟩ := hmeets
  refine ⟨⟨fun _ _ => rfl, fun hout => absurd harea hout⟩, ?_⟩
  intro a held byte hheld hbyte
  have hput : s.store.put addr.toNat (List.replicate size.toNat 0xFF) a = some byte := hbyte
  by_cases hin : addr.toNat ≤ a ∧ a < addr.toNat + (List.replicate size.toNat (0xFF : UInt8)).length
  · rw [Store.put_inside hin] at hput
    rw [List.length_replicate] at hin
    have hbyte := List.eq_of_mem_replicate (List.mem_of_getElem? hput)
    have hheld : contents s.file (addr.toNat + (a - addr.toNat)) = some held := by
      rw [Nat.add_sub_cancel' hin.1]
      exact hheld
    rw [hbyte]
    exact herased (a - addr.toNat) (by omega) held hheld
  · rw [Store.put_outside hin] at hput
    exact h a held byte hheld hput

/-! ### Runs -/

theorem Agrees.call (h : Agrees s) {call : Call} (hmeets : Meets s call) :
    Lawful s call ∧ Agrees (step s call) := by
  cases call with
  | read env addr size dst => exact ⟨h.read hmeets, h⟩
  | write env addr size src => exact h.write hmeets
  | erase addr size => exact h.erase hmeets

/-- Whatever the file held and whatever was called before, as long as every call
met the condition the next one that does is lawful. -/
theorem lawful_of_meets (file : Option (List UInt8)) (calls : List Call)
    (hrun : Run (fun s call => some (step s call)) Meets (start file) calls s) (call : Call)
    (hmeets : Meets s call) : Lawful s call := by
  have hagrees : Agrees s := by
    refine hrun.invariant (agrees_start file) ?_
    intro s call t hagrees hmeets hstep
    cases hstep
    exact (hagrees.call hmeets).2
  exact (hagrees.call hmeets).1

/-! ### One byte -/

/-- A file system that does all it is asked. -/
def goodRead : ReadEnv := ⟨true, true, none, 0x10000⟩

def goodWrite : WriteEnv := ⟨true, true, none, 0x10000, none, 0x10000, fun _ => 0⟩

def writeByte : Call := .write goodWrite simpleFlashStart 1 (some #v[0x55])

def readByte : Call := .read goodRead simpleFlashStart 1 (some #v[0])

def afterWrite : Port := step (start none) writeByte

theorem meets_writeByte : Meets (start none) writeByte :=
  .inr ⟨by unfold InArea; decide, .inl (by decide),
    .inr ⟨by decide, by decide⟩⟩

/-- A byte is written to a file that does not exist yet and read back. -/
theorem lawful_readByte : Lawful afterWrite readByte := by
  refine lawful_of_meets none [writeByte] (Run.nil.snoc meets_writeByte rfl) readByte (.inr ?_)
  refine ⟨by unfold InArea; decide, .inr ?_⟩
  unfold ReadsAll
  decide

/-- The byte is erased and can still be read. -/
theorem erased_byte_survives :
    ∃ s, Run (fun s call => some (step s call)) anyStep (start none)
        [writeByte, .erase simpleFlashStart 1] s ∧ ¬ Lawful s readByte := by
  refine ⟨_, (Run.nil.snoc trivial rfl).snoc trivial rfl, ?_⟩
  rintro ⟨hread, -⟩
  obtain ⟨buffer, hbuffer, -, hfilled⟩ := hread (by decide)
  have hbyte : buffer[0]? = some 0xFF := (hfilled 0 (by decide)).2 0xFF (by decide)
  have hstale : (readResult (step afterWrite (.erase simpleFlashStart 1)) goodRead
    simpleFlashStart 1 (some #v[0])).2 = some [0x55] := by decide
  cases hstale.symm.trans hbuffer
  cases hbyte

end Sv6x66.Tylink.FlashPort
