import Sv6x66.Tylink.Datapoints
import Sv6x66.Tylink.SendFrame

/-! The datapoints of the cloud as they go to the MCU, `ty_obj_datapoint_proc`, and what
becomes of them when the MCU reports them back. -/
namespace Sv6x66.Tylink.DatapointCodec
open Sv6x66.Lib.CString
open Sv6x66.Tylink.McuLink Sv6x66.Tylink.SendFrame
open Sv6x66.Tylink.Datapoints hiding wordSwap toNat_wordSwap

def dataCtrlCmd : UInt8 := 6

def dataRptCmd : UInt8 := 7

/-- `dp_desc.mode` -/
inductive Mode where
  | rw | wr | ro
  deriving DecidableEq

/-- With what the commands read of a datapoint; `maxLen` is that of `prop_bitmap`. -/
structure DpDesc extends DpCntl where
  mode : Mode
  maxLen : UInt32

/-- `word` is the union `value` as a number, `dpStr` the string its pointer leads to. -/
structure ObjDp where
  dpid : UInt8
  word : UInt32
  dpStr : Bytes

def tyBitmapLenProc (bitLen : UInt8) : UInt16 :=
  let len := (bitLen / 8).toUInt16 + if bitLen % 8 = 0 then 0 else 1
  if 4 < len then 4 else len

/-- The `switch` over `prop_tp`. -/
def typeLen (dp : DpDesc) (objDp : ObjDp) : UInt8 × UInt16 :=
  match dp.prop with
  | .bool => (1, 1)
  | .value .. => (2, 4)
  | .str _ => (3, UInt16.ofNat (cstr objDp.dpStr).length)
  | .enum _ => (4, 1)
  | .bitmap => (5, tyBitmapLenProc dp.maxLen.toUInt8)

def tyGetObjTypeLen (dps : List DpDesc) (objDp : ObjDp) : Option (UInt8 × UInt16) :=
  match dps.find? fun dp => dp.dpId = objDp.dpid with
  | none => none
  | some dp =>
    if dp.mode = .ro then none
    else if dp.type = .obj then some (typeLen dp objDp)
    else none

def dwordSwap (x : UInt32) : UInt32 :=
  (x &&& 0xff) <<< 24 + (x &&& 0xff00) <<< 8 + (x &&& 0xff0000) >>> 8 +
    (x &&& 0xff000000) >>> 24

/-- A `UINT_T` as it lies in memory. -/
def dwordBytes (x : UInt32) : Bytes :=
  [x.toUInt8, (x >>> 8).toUInt8, (x >>> 16).toUInt8, (x >>> 24).toUInt8]

/-- What is put in the buffer. -/
def tyDataProc (objDp : ObjDp) (type : UInt8) (len : UInt16) : Bytes :=
  if type = 1 then [if objDp.word = 0 then 0 else 1]
  else if type = 2 then (dwordBytes (dwordSwap objDp.word)).take len.toNat
  else if type = 3 then objDp.dpStr.take len.toNat
  else if type = 4 then [objDp.word.toUInt8]
  else if type = 5 then
    if len = 1 then [objDp.word.toUInt8]
    else if len = 2 then wordBytes (wordSwap objDp.word)
    else (dwordBytes (dwordSwap objDp.word)).take len.toNat
  else []

/-- The header of the datapoint and its data. -/
def sendBuf (objDp : ObjDp) (type : UInt8) (len : UInt16) : Bytes :=
  [objDp.dpid, type] ++ wordBytes (wordSwap len.toUInt32) ++ tyDataProc objDp type len

def tyObjDatapointProc (dps : List DpDesc) (objDp : ObjDp) : Option Bytes :=
  (tyGetObjTypeLen dps objDp).map fun (type, len) =>
    tyUartSend dataCtrlCmd (4 + len.toUInt32) (sendBuf objDp type len)

/-- What `ty_msg_upload_proc` does with a report, as long as there is memory. -/
def upload (dev : Device) (fuel : Nat) (frame : Bytes) : Option Decode :=
  tyDatapointUploadProc dev (fun _ => true) fuel (readWord (frame.getD · 0) 4)
    fun i => frame.getD (6 + i) 0

/-! ### What a value means -/

/-- A value of the cloud. -/
structure Value where
  dp : DpDesc
  objDp : ObjDp

/-- The cloud sends values as the schema has them. -/
def InRange (u : Value) : Prop :=
  match u.dp.prop with
  | .bool => True
  | .value min max => min ≤ u.objDp.word.toBitVec.toInt ∧ u.objDp.word.toBitVec.toInt ≤ max
  | .str maxLen => ((cstr u.objDp.dpStr).length : Int) ≤ maxLen ∧
      (cstr u.objDp.dpStr).length < 2 ^ 16
  | .enum ppEnum => u.objDp.word.toNat < ppEnum.length ∧ u.objDp.word.toNat < 256
  | .bitmap => 1 ≤ u.dp.maxLen.toNat ∧ u.dp.maxLen.toNat ≤ 32 ∧
      u.objDp.word.toNat < 2 ^ u.dp.maxLen.toNat

def meaning (u : Value) : Json :=
  match u.dp.prop with
  | .bool => .bool (u.objDp.word ≠ 0)
  | .value .. => .number u.objDp.word.toBitVec.toInt
  | .str _ => .string (cstr u.objDp.dpStr)
  | .enum ppEnum => .string (cstr (ppEnum.getD u.objDp.word.toNat []))
  | .bitmap => .number u.objDp.word.toNat

/-- The datapoint of the schema that a command is for. -/
structure IsCommand (dps : List DpDesc) (u : Value) : Prop where
  found : dps.find? (fun dp => dp.dpId = u.objDp.dpid) = some u.dp
  mode : u.dp.mode ≠ .ro
  type : u.dp.type = .obj
  range : InRange u

def Value.len (u : Value) : UInt16 := (typeLen u.dp u.objDp).2

def Value.bytes (u : Value) : Bytes :=
  sendBuf u.objDp (typeLen u.dp u.objDp).1 u.len

/-- The byte behind a datapoint: of the next one, or the checksum. -/
def nextByte (later : List Value) (sum : UInt8) : UInt8 :=
  ((later.map Value.bytes).flatten ++ [sum]).headD 0

/-- What a datapoint is decoded as, with the byte behind it. -/
def echo (u : Value) (next : UInt8) : Json :=
  match u.dp.prop with
  | .bitmap =>
    if u.len = 3 then .number (u.objDp.word.toNat / 256 * 256 + next.toNat : Nat)
    else if u.len = 4 then .number u.objDp.word.toBitVec.toInt
    else .number u.objDp.word.toNat
  | _ => meaning u

def echoes (sum : UInt8) : List Value → List (UInt8 × Json)
  | [] => []
  | u :: later =>
    if later = [] ∧ u.len = 0 then []
    else (u.objDp.dpid, echo u (nextByte later sum)) :: echoes sum later

/-- A bitmap of three bytes is decoded with the byte behind it in place of its lowest one, and one
of four as a signed number; an empty string at the end of the report is too short. -/
def Survives (sum : UInt8) : List Value → Prop
  | [] => True
  | u :: later =>
    (u.dp.prop = .bitmap → (u.len = 3 → nextByte later sum = u.objDp.word.toUInt8) ∧
      (u.len = 4 → u.objDp.word.toNat < 2 ^ 31)) ∧ (later = [] → u.len ≠ 0) ∧
      Survives sum later

/-! ### Bytes of a word -/

theorem and_mask (x k : Nat) : x &&& 255 <<< k = x / 2 ^ k % 256 * 2 ^ k := by
  have hshift : x &&& 255 <<< k = (x >>> k &&& 255) <<< k := by
    apply Nat.eq_of_testBit_eq
    intro i
    simp only [Nat.testBit_and, Nat.testBit_shiftLeft, Nat.testBit_shiftRight]
    by_cases hi : k ≤ i
    · simp [hi]
    · simp [hi]
  rw [hshift, Nat.shiftLeft_eq, Nat.shiftRight_eq_div_pow,
    show (255 : Nat) = 2 ^ 8 - 1 from rfl, Nat.and_two_pow_sub_one_eq_mod]

theorem toNat_dwordSwap (x : UInt32) : (dwordSwap x).toNat =
    x.toNat % 256 * 2 ^ 24 + x.toNat / 2 ^ 8 % 256 * 2 ^ 16 +
      x.toNat / 2 ^ 16 % 256 * 2 ^ 8 + x.toNat / 2 ^ 24 := by
  have hx := x.toNat_lt
  have hmask (k : Nat) (mask : UInt32) (hm : mask.toNat = 255 <<< k) :
      (x &&& mask).toNat = x.toNat / 2 ^ k % 256 * 2 ^ k := by
    rw [UInt32.toNat_and, hm, and_mask]
  have h₀ := hmask 0 0xff rfl
  have h₁ := hmask 8 0xff00 rfl
  have h₂ := hmask 16 0xff0000 rfl
  have h₃ := hmask 24 0xff000000 rfl
  have hleft (y : UInt32) (k : UInt32) :
      (y <<< k).toNat = y.toNat * 2 ^ (k.toNat % 32) % 2 ^ 32 := by
    rw [UInt32.toNat_shiftLeft, Nat.shiftLeft_eq]
  have hright (y : UInt32) (k : UInt32) : (y >>> k).toNat = y.toNat / 2 ^ (k.toNat % 32) := by
    rw [UInt32.toNat_shiftRight, Nat.shiftRight_eq_div_pow]
  rw [dwordSwap]
  simp only [UInt32.toNat_add, hleft, hright, h₀, h₁, h₂, h₃]
  change (((x.toNat / 2 ^ 0 % 256 * 2 ^ 0 * 2 ^ 24 % 2 ^ 32 +
    x.toNat / 2 ^ 8 % 256 * 2 ^ 8 * 2 ^ 8 % 2 ^ 32) % 2 ^ 32 +
    x.toNat / 2 ^ 16 % 256 * 2 ^ 16 / 2 ^ 8) % 2 ^ 32 +
    x.toNat / 2 ^ 24 % 256 * 2 ^ 24 / 2 ^ 24) % 2 ^ 32 = _
  have hlast : x.toNat / 2 ^ 24 = x.toNat / 2 ^ 24 % 256 := by omega
  rw [hlast, Nat.mod_mod, show x.toNat / 2 ^ 0 = x.toNat from Nat.div_one _]
  have hbyte (n : Nat) : n % 256 < 256 := Nat.mod_lt _ (by decide)
  have hb₀ := hbyte x.toNat
  have hb₁ := hbyte (x.toNat / 2 ^ 8)
  have hb₂ := hbyte (x.toNat / 2 ^ 16)
  have hb₃ := hbyte (x.toNat / 2 ^ 24)
  generalize x.toNat % 256 = b₀, x.toNat / 2 ^ 8 % 256 = b₁, x.toNat / 2 ^ 16 % 256 = b₂,
    x.toNat / 2 ^ 24 % 256 = b₃ at hb₀ hb₁ hb₂ hb₃ ⊢
  omega

theorem dwordBytes_eq {x : UInt32} {b₀ b₁ b₂ b₃ : Nat} (h₀ : b₀ < 256) (h₁ : b₁ < 256)
    (h₂ : b₂ < 256) (h₃ : b₃ < 256)
    (h : x.toNat = b₃ * 2 ^ 24 + b₂ * 2 ^ 16 + b₁ * 2 ^ 8 + b₀) :
    dwordBytes x = [UInt8.ofNat b₀, UInt8.ofNat b₁, UInt8.ofNat b₂, UInt8.ofNat b₃] := by
  have hbyte (k : UInt32) {b : Nat} (hb : x.toNat / 2 ^ (k.toNat % 32) % 256 = b) :
      (x >>> k).toUInt8 = UInt8.ofNat b := by
    apply UInt8.toNat_inj.mp
    rw [UInt32.toNat_toUInt8, UInt32.toNat_shiftRight, Nat.shiftRight_eq_div_pow,
      UInt8.toNat_ofNat', ← hb, Nat.mod_mod]
  have hlow : x.toUInt8 = UInt8.ofNat b₀ := by
    apply UInt8.toNat_inj.mp
    rw [UInt32.toNat_toUInt8, UInt8.toNat_ofNat']
    omega
  have h8 : x.toNat / 2 ^ 8 % 256 = b₁ := by omega
  have h16 : x.toNat / 2 ^ 16 % 256 = b₂ := by omega
  have h24 : x.toNat / 2 ^ 24 % 256 = b₃ := by omega
  rw [dwordBytes, hlow, hbyte 8 h8, hbyte 16 h16, hbyte 24 h24]

/-- The number goes out with its upper byte in front. -/
theorem dwordBytes_dwordSwap (x : UInt32) : dwordBytes (dwordSwap x) =
    [UInt8.ofNat (x.toNat / 2 ^ 24), UInt8.ofNat (x.toNat / 2 ^ 16), UInt8.ofNat (x.toNat / 2 ^ 8),
      UInt8.ofNat x.toNat] := by
  have hx := x.toNat_lt
  have hlast : x.toNat / 2 ^ 24 = x.toNat / 2 ^ 24 % 256 := by omega
  have hswap := toNat_dwordSwap x
  rw [hlast] at hswap
  have hmod (n : Nat) : n % 256 < 256 := Nat.mod_lt _ (by decide)
  have hbyte (n : Nat) : UInt8.ofNat (n % 256) = UInt8.ofNat n := UInt8.ofNat_mod_size
  rw [dwordBytes_eq (hmod _) (hmod _) (hmod _) (hmod _) hswap, hbyte, hbyte, hbyte, hbyte]

/-! ### The bytes of a datapoint -/

variable {u : Value} {later values : List Value} {dps : List DpDesc} {sum : UInt8} {mem : Mem}

theorem toNat_tyBitmapLenProc {maxLen : UInt32} (hpos : 1 ≤ maxLen.toNat)
    (hmax : maxLen.toNat ≤ 32) :
    (tyBitmapLenProc maxLen.toUInt8).toNat = (maxLen.toNat + 7) / 8 := by
  have hall : ∀ n : Fin 33, 1 ≤ n.val →
      (tyBitmapLenProc (UInt8.ofNat n.val)).toNat = (n.val + 7) / 8 := by decide
  have hbyte : maxLen.toUInt8 = UInt8.ofNat maxLen.toNat := by
    apply UInt8.toNat_inj.mp
    rw [UInt32.toNat_toUInt8, UInt8.toNat_ofNat']
  rw [hbyte]
  exact hall ⟨maxLen.toNat, by omega⟩ hpos

/-- The bytes of a bitmap are as many as its bits need. -/
theorem InRange.bitmap (h : InRange u) (hprop : u.dp.prop = .bitmap) :
    (u.len = 1 ∨ u.len = 2 ∨ u.len = 3 ∨ u.len = 4) ∧
      u.objDp.word.toNat < 2 ^ (8 * u.len.toNat) := by
  rw [InRange, hprop] at h
  obtain ⟨hpos, hmax, hword⟩ := h
  have hlen : u.len.toNat = (u.dp.maxLen.toNat + 7) / 8 := by
    rw [Value.len, typeLen, hprop]
    exact toNat_tyBitmapLenProc hpos hmax
  refine ⟨?_, hword.trans_le (Nat.pow_le_pow_right (by decide) (by omega))⟩
  have hcases : u.len.toNat = 1 ∨ u.len.toNat = 2 ∨ u.len.toNat = 3 ∨ u.len.toNat = 4 := by omega
  simp only [← UInt16.toNat_inj]
  exact hcases

theorem length_cstr_le (str : Bytes) : (cstr str).length ≤ str.length :=
  (List.takeWhile_prefix _).length_le

theorem length_tyDataProc (h : InRange u) :
    (tyDataProc u.objDp (typeLen u.dp u.objDp).1 u.len).length = u.len.toNat := by
  cases hprop : u.dp.prop with
  | bool => simp [Value.len, typeLen, hprop, tyDataProc]
  | value min max => simp [Value.len, typeLen, hprop, tyDataProc, dwordBytes]
  | enum ppEnum => simp [Value.len, typeLen, hprop, tyDataProc]
  | str maxLen =>
    rw [InRange, hprop] at h
    have hle := length_cstr_le u.objDp.dpStr
    have hlen : u.len.toNat = (cstr u.objDp.dpStr).length := by
      rw [Value.len, typeLen, hprop]
      exact UInt16.toNat_ofNat_of_lt' h.2
    rw [hlen]
    simp [typeLen, hprop, tyDataProc, hlen, hle]
  | bitmap =>
    obtain ⟨hlen | hlen | hlen | hlen, -⟩ := h.bitmap hprop <;>
      simp [hlen, typeLen, hprop, tyDataProc, dwordBytes, wordBytes]

theorem bytes_eq (u : Value) : u.bytes =
    [u.objDp.dpid, (typeLen u.dp u.objDp).1, UInt8.ofNat (u.len.toNat / 256),
      UInt8.ofNat (u.len.toNat % 256)] ++ tyDataProc u.objDp (typeLen u.dp u.objDp).1 u.len := by
  have hlen : u.len.toUInt32 = UInt32.ofNat u.len.toNat := by
    apply UInt32.toNat_inj.mp
    have := u.len.toNat_lt
    rw [UInt16.toNat_toUInt32, UInt32.toNat_ofNat']
    omega
  rw [Value.bytes, sendBuf, hlen, wordBytes_wordSwap u.len.toNat_lt]
  rfl

theorem length_bytes (h : InRange u) : u.bytes.length = 4 + u.len.toNat := by
  rw [bytes_eq, List.length_append, length_tyDataProc h]
  rfl

/-! ### A datapoint that comes back -/

variable {next : UInt8} {data : Mem} {turn pos : Nat} {s : Decode}

theorem dword_eq {x : UInt32} (h : x.toNat = (data 0).toNat * 2 ^ 24 + (data 1).toNat * 2 ^ 16 +
    (data 2).toNat * 2 ^ 8 + (data 3).toNat) : dword data = x.toBitVec.toInt := by
  have hb₀ := (data 0).toNat_lt
  have hb₁ := (data 1).toNat_lt
  have hb₂ := (data 2).toNat_lt
  have hb₃ := (data 3).toNat_lt
  have hleft (b : UInt8) (k : UInt32) :
      (b.toUInt32 <<< k).toNat = b.toNat * 2 ^ (k.toNat % 32) % 2 ^ 32 := by
    rw [UInt32.toNat_shiftLeft, Nat.shiftLeft_eq, UInt8.toNat_toUInt32]
  have hword : (data 0).toUInt32 <<< 24 + (data 1).toUInt32 <<< 16 + (data 2).toUInt32 <<< 8 +
      (data 3).toUInt32 = x := by
    apply UInt32.toNat_inj.mp
    simp only [UInt32.toNat_add, hleft, UInt8.toNat_toUInt32]
    change (((((data 0).toNat * 2 ^ 24 % 2 ^ 32 + (data 1).toNat * 2 ^ 16 % 2 ^ 32) % 2 ^ 32 +
      (data 2).toNat * 2 ^ 8 % 2 ^ 32) % 2 ^ 32) + (data 3).toNat) % 2 ^ 32 = _
    omega
  rw [dword, hword]

theorem toNat_ofNat_byte (n : Nat) : (UInt8.ofNat n).toNat = n % 256 := UInt8.toNat_ofNat'

/-- A number goes out and comes back as it was. -/
theorem dword_dwordSwap {x : UInt32}
    (h : ∀ i < 4, data i = (dwordBytes (dwordSwap x)).getD i 0) :
    dword data = x.toBitVec.toInt := by
  have hx := x.toNat_lt
  rw [dwordBytes_dwordSwap] at h
  apply dword_eq
  rw [h 0 (by decide), h 1 (by decide), h 2 (by decide), h 3 (by decide)]
  change x.toNat = (UInt8.ofNat _).toNat * _ + (UInt8.ofNat _).toNat * _ +
    (UInt8.ofNat _).toNat * _ + (UInt8.ofNat _).toNat
  simp only [toNat_ofNat_byte]
  omega

/-- The data of the command, with `next` behind it. -/
structure DataOf (u : Value) (next : UInt8) (data : Mem) : Prop where
  bytes : ∀ i < u.len.toNat, data i = (tyDataProc u.objDp (typeLen u.dp u.objDp).1 u.len).getD i 0
  next : data u.len.toNat = next

/-- It is taken, as what `echo` says. -/
def ComesBack (u : Value) (next : UInt8) (data : Mem) : Prop :=
  let handled := handle u.dp.toDpCntl (typeLen u.dp u.objDp).1 u.len data true
  handled.accepted = true ∧ handled.item = some (echo u next)

theorem comesBack_bool (h : DataOf u next data) (hprop : u.dp.prop = .bool) :
    ComesBack u next data := by
  have hlen : u.len = 1 := by rw [Value.len, typeLen, hprop]
  have hbyte := h.bytes 0 (by rw [hlen]; decide)
  rw [ComesBack, handle, typeLen, hprop, hlen, echo, meaning, hprop]
  rw [typeLen, hprop, hlen, tyDataProc, if_pos rfl] at hbyte
  by_cases hword : u.objDp.word = 0
  · simp [hbyte, hword]
  · simp [hbyte, hword]

theorem comesBack_value (h : DataOf u next data) (hrange : InRange u) {min max : Int}
    (hprop : u.dp.prop = .value min max) : ComesBack u next data := by
  have hlen : u.len = 4 := by rw [Value.len, typeLen, hprop]
  rw [InRange, hprop] at hrange
  have hword : dword (fun i => if i < 4 then data i else 0) = u.objDp.word.toBitVec.toInt := by
    rw [dword_filled]
    apply dword_dwordSwap
    intro i hi
    rw [h.bytes i (by rw [hlen]; exact hi), hlen]
    simp [tyDataProc, typeLen, hprop, dwordBytes]
  obtain ⟨hmin, hmax⟩ := hrange
  have hok : ¬ (u.objDp.word.toBitVec.toInt < min ∨ max < u.objDp.word.toBitVec.toInt) := by omega
  rw [ComesBack, handle, typeLen, hprop, hlen, echo, meaning, hprop]
  simp [hword, hok]

theorem comesBack_str (h : DataOf u next data) (hrange : InRange u) {maxLen : Int}
    (hprop : u.dp.prop = .str maxLen) : ComesBack u next data := by
  rw [InRange, hprop] at hrange
  obtain ⟨hmax, hshort⟩ := hrange
  have hlen : u.len.toNat = (cstr u.objDp.dpStr).length := by
    rw [Value.len, typeLen, hprop]
    exact UInt16.toNat_ofNat_of_lt' hshort
  have htake : u.objDp.dpStr.take (cstr u.objDp.dpStr).length = cstr u.objDp.dpStr :=
    (List.prefix_iff_eq_take.mp (List.takeWhile_prefix _)).symm
  have hread : (List.range (cstr u.objDp.dpStr).length).map data = cstr u.objDp.dpStr := by
    apply List.ext_getElem
    · simp
    · intro i hi hi'
      rw [List.getElem_map, List.getElem_range, h.bytes i (by omega)]
      simp [typeLen, hprop, tyDataProc, hlen, htake, hi']
  have hzero : cstr (cstr u.objDp.dpStr) = cstr u.objDp.dpStr :=
    cstr_of_not_mem (zero_not_mem_cstr _)
  rw [ComesBack, handle, typeLen, hprop, echo, meaning, hprop]
  simp [hlen, hread, hzero, not_lt.mpr hmax]

theorem comesBack_enum (h : DataOf u next data) (hrange : InRange u) {ppEnum : List Bytes}
    (hprop : u.dp.prop = .enum ppEnum) : ComesBack u next data := by
  have hlen : u.len = 1 := by rw [Value.len, typeLen, hprop]
  rw [InRange, hprop] at hrange
  obtain ⟨hindex, hbyte⟩ := hrange
  have hdata : (data 0).toNat = u.objDp.word.toNat := by
    rw [h.bytes 0 (by rw [hlen]; decide)]
    simp [typeLen, hprop, tyDataProc]
    omega
  rw [ComesBack, handle, typeLen, hprop, hlen, echo, meaning, hprop]
  simp [hdata, hindex]

theorem comesBack_bitmap (h : DataOf u next data) (hrange : InRange u)
    (hprop : u.dp.prop = .bitmap) : ComesBack u next data := by
  obtain ⟨hlen, hword⟩ := hrange.bitmap hprop
  have hdata := h.bytes
  have hnext := h.next
  rw [typeLen, hprop] at hdata
  rw [ComesBack, handle, typeLen, hprop, echo, hprop]
  obtain hlen | hlen | hlen | hlen := hlen
  · rw [hlen] at hdata hword ⊢
    have hbyte : (data 0).toNat = u.objDp.word.toNat := by
      rw [hdata 0 (by decide)]
      change u.objDp.word.toUInt8.toNat = _
      rw [UInt32.toNat_toUInt8]
      exact Nat.mod_eq_of_lt hword
    simp [hbyte]
  · rw [hlen] at hdata hword ⊢
    have hbytes := wordBytes_wordSwap hword
    rw [UInt32.ofNat_toNat] at hbytes
    have hhigh := hdata 0 (by decide)
    have hlow := hdata 1 (by decide)
    change data 0 = (wordBytes (wordSwap u.objDp.word)).getD 0 0 at hhigh
    change data 1 = (wordBytes (wordSwap u.objDp.word)).getD 1 0 at hlow
    rw [hbytes] at hhigh hlow
    change data 0 = UInt8.ofNat _ at hhigh
    change data 1 = UInt8.ofNat _ at hlow
    have hvalue : (data 0).toNat * 256 + (data 1).toNat = u.objDp.word.toNat := by
      rw [hhigh, hlow, toNat_ofNat_byte, toNat_ofNat_byte]
      change u.objDp.word.toNat < 2 ^ 16 at hword
      omega
    have hcast : ((data 0).toNat * 256 + (data 1).toNat : Int) = u.objDp.word.toNat := by
      exact_mod_cast hvalue
    simp [hcast]
  · rw [hlen] at hdata hword hnext ⊢
    change u.objDp.word.toNat < 2 ^ 24 at hword
    change data 3 = next at hnext
    have hbytes (i : Nat) (hi : i < 3) :
        data i = ((dwordBytes (dwordSwap u.objDp.word)).take 3).getD i 0 := hdata i hi
    rw [dwordBytes_dwordSwap] at hbytes
    have h₀ : data 0 = UInt8.ofNat (u.objDp.word.toNat / 2 ^ 24) := hbytes 0 (by decide)
    have h₁ : data 1 = UInt8.ofNat (u.objDp.word.toNat / 2 ^ 16) := hbytes 1 (by decide)
    have h₂ : data 2 = UInt8.ofNat (u.objDp.word.toNat / 2 ^ 8) := hbytes 2 (by decide)
    have hb := next.toNat_lt
    have hvalue : dword data = (u.objDp.word.toNat / 256 * 256 + next.toNat : Nat) := by
      have hword' : (UInt32.ofNat (u.objDp.word.toNat / 256 * 256 + next.toNat)).toNat =
          u.objDp.word.toNat / 256 * 256 + next.toNat := by
        rw [UInt32.toNat_ofNat']
        omega
      rw [dword_eq (x := UInt32.ofNat (u.objDp.word.toNat / 256 * 256 + next.toNat))]
      · change BitVec.toInt _ = _
        rw [BitVec.toInt_eq_toNat_of_lt]
        · exact congrArg Int.ofNat hword'
        · change 2 * UInt32.toNat _ < _
          omega
      · rw [hword', h₀, h₁, h₂, hnext]
        simp only [toNat_ofNat_byte]
        omega
    simp [hvalue]
  · have hdword : dword data = u.objDp.word.toBitVec.toInt := by
      apply dword_dwordSwap
      intro i hi
      rw [hdata i (by rw [hlen]; exact hi), hlen]
      simp [tyDataProc, dwordBytes]
    simp [hlen, hdword]

/-- What the commands say is what is decoded, but for the long bitmaps. -/
theorem comesBack (h : DataOf u next data) (hrange : InRange u) : ComesBack u next data := by
  cases hprop : u.dp.prop with
  | bool => exact comesBack_bool h hprop
  | value min max => exact comesBack_value h hrange hprop
  | str maxLen => exact comesBack_str h hrange hprop
  | enum ppEnum => exact comesBack_enum h hrange hprop
  | bitmap => exact comesBack_bitmap h hrange hprop

theorem dpOf_command (h : IsCommand dps u) :
    dpOf (dps.map DpDesc.toDpCntl) u.objDp.dpid (typeLen u.dp u.objDp).1 =
      some u.dp.toDpCntl := by
  have hfound := h.found
  have htype : (typeLen u.dp u.objDp).1 = tyDpChangeProc u.dp.prop.propTp := by
    unfold typeLen
    cases u.dp.prop <;> rfl
  have hkind : 1 ≤ tyDpChangeProc u.dp.prop.propTp ∧ tyDpChangeProc u.dp.prop.propTp ≤ 5 := by
    cases u.dp.prop <;> simp [tyDpChangeProc, DpProp.propTp]
  have hmax : ¬ tyDpChangeProc u.dp.prop.propTp > tyDpType := by
    rw [gt_iff_lt, UInt8.not_lt]
    exact hkind.2
  obtain ⟨hid, before, after, hsplit, hbefore⟩ := List.find?_eq_some_iff_append.mp hfound
  have hall : (dps.map DpDesc.toDpCntl).find? (fun dp => dp.dpId = u.objDp.dpid ∧
      (dp.type = .raw ∧ tyDpChangeProc u.dp.prop.propTp = 0 ∨
        dp.type = .obj ∧ 1 ≤ tyDpChangeProc u.dp.prop.propTp ∧
          tyDpChangeProc u.dp.prop.propTp ≤ 5)) = some u.dp.toDpCntl := by
    apply List.find?_eq_some_iff_append.mpr
    refine ⟨?_, before.map DpDesc.toDpCntl, after.map DpDesc.toDpCntl, ?_, ?_⟩
    · simpa [h.type, hkind] using hid
    · rw [hsplit]
      simp
    · intro dp hdp
      obtain ⟨desc, hdesc, rfl⟩ := List.mem_map.mp hdp
      have hother := hbefore desc hdesc
      simp at hother ⊢
      exact .inl hother
  rw [htype, dpOf, if_neg hmax, hall]
  simp

/-! ### A report -/

/-- The payload of the report from `pos` on. -/
def Remains (mem : Mem) (pos : Nat) (values : List Value) (sum : UInt8) : Prop :=
  ∀ i, mem (pos + i) = ((values.map Value.bytes).flatten ++ [sum]).getD i 0

theorem Remains.header (h : Remains mem pos (u :: later) sum) :
    mem pos = u.objDp.dpid ∧ mem (pos + 1) = (typeLen u.dp u.objDp).1 ∧
      sizeAt mem pos = u.len.toNat := by
  have hlen := u.len.toNat_lt
  rw [Remains, List.map_cons, List.flatten_cons, bytes_eq] at h
  have hhigh : mem (pos + 2) = UInt8.ofNat (u.len.toNat / 256) := h 2
  have hlow : mem (pos + 3) = UInt8.ofNat (u.len.toNat % 256) := h 3
  refine ⟨h 0, h 1, ?_⟩
  rw [sizeAt, hhigh, hlow, toNat_ofNat_byte, toNat_ofNat_byte]
  omega

theorem Remains.tail (h : Remains mem pos (u :: later) sum) (hrange : InRange u) :
    Remains mem (pos + 4 + u.len.toNat) later sum := by
  intro i
  have hbytes := length_bytes hrange
  have hat := h (u.bytes.length + i)
  rw [List.map_cons, List.flatten_cons, List.append_assoc, List.getD_append_right _ _ _ _
    (Nat.le_add_right ..), Nat.add_sub_cancel_left] at hat
  rw [← hat, hbytes, Nat.add_assoc, Nat.add_assoc, Nat.add_assoc]

theorem Remains.dataOf (h : Remains mem pos (u :: later) sum) (hrange : InRange u) :
    DataOf u (nextByte later sum) (dataAt mem pos) := by
  have hlength := length_tyDataProc hrange
  constructor
  · intro i hi
    rw [Remains, List.map_cons, List.flatten_cons, bytes_eq] at h
    have hat := h (i + 4)
    rw [List.append_assoc, List.append_assoc] at hat
    have hdata : mem (pos + (i + 4)) = (tyDataProc u.objDp (typeLen u.dp u.objDp).1 u.len ++
        ((later.map Value.bytes).flatten ++ [sum])).getD i 0 := hat
    rw [dataAt, Nat.add_assoc, Nat.add_comm 4, hdata, List.getD_append]
    omega
  · have hnext := h.tail hrange 0
    rw [dataAt]
    refine hnext.trans ?_
    rw [nextByte]
    cases ((later.map Value.bytes).flatten ++ [sum]) <;> rfl

/-- A turn takes the datapoint and stands in front of the next one. -/
theorem visit_command (h : Stands mem turn pos s) (hremains : Remains mem pos (u :: later) sum)
    (hcommand : IsCommand dps u) (hnext : pos + 4 + u.len.toNat < 2 ^ 16) :
    let next := visit (dps.map DpDesc.toDpCntl) true s
    next.1 = true ∧ Stands mem (turn + 1) (pos + 4 + u.len.toNat) next.2 ∧
      next.2.root = s.root ++ [(u.objDp.dpid, echo u (nextByte later sum))] ∧
      next.2.objUpload = true := by
  obtain ⟨hdpid, htype, hsize⟩ := hremains.header
  have hdp : dpOf (dps.map DpDesc.toDpCntl) (mem pos) (mem (pos + 1)) = some u.dp.toDpCntl := by
    rw [hdpid, htype, dpOf_command hcommand]
  obtain ⟨len, hlen, hvisit⟩ := visit_known h hdp true
  obtain rfl : len = u.len := UInt16.toNat_inj.mp (hlen.trans hsize)
  obtain ⟨haccepted, hitem⟩ := comesBack (hremains.dataOf hcommand.range) hcommand.range
  rw [htype, hdpid] at hvisit
  have hgoes : (visit (dps.map DpDesc.toDpCntl) true s).1 = true := by
    rw [hvisit]
    exact haccepted
  have hstands := visit_next h hdp hgoes (by rw [hsize]; exact hnext)
  rw [hsize] at hstands
  refine ⟨hgoes, hstands, ?_, ?_⟩
  · rw [hvisit]
    dsimp only
    rw [hitem]
    rfl
  · rw [hvisit]
    dsimp only
    rw [hitem, Option.isSome_some, Bool.or_true]

theorem loop_stops {dps : List DpCntl} {outside : Nat → Bool} {len : UInt16}
    (h : Stands mem turn pos s) (hend : len.toNat < pos + tyDpFrameMin) (fuel : Nat) :
    loop dps outside len (fuel + 1) s = some (true, s) := by
  rw [loop, if_neg fun hgoes => hend.not_ge ((h.goes_iff len).mp hgoes)]

/-- The loop takes the datapoints one by one to the end of the report. -/
theorem loop_commands {len : UInt16} (h : Stands mem turn pos s)
    (hremains : Remains mem pos values sum) (hcommand : ∀ u ∈ values, IsCommand dps u)
    (hlen : len.toNat = pos + (values.map Value.bytes).flatten.length) :
    ∃ t, loop (dps.map DpDesc.toDpCntl) (fun _ => true) len (values.length + 1) s =
        some (true, t) ∧ t.root = s.root ++ echoes sum values ∧
      (t.objUpload = (s.objUpload || !(echoes sum values).isEmpty)) := by
  have hlt := len.toNat_lt
  have hmin : tyDpFrameMin = 5 := rfl
  induction values generalizing s turn pos with
  | nil =>
    refine ⟨s, loop_stops h ?_ _, (List.append_nil _).symm, (Bool.or_false _).symm⟩
    rw [hlen]
    exact Nat.lt_add_of_pos_right (by decide)
  | cons u later ih =>
    have hu := hcommand u List.mem_cons_self
    have hbytes := length_bytes hu.range
    rw [List.map_cons, List.flatten_cons, List.length_append, hbytes] at hlen
    rw [echoes]
    by_cases hlast : later = [] ∧ u.len = 0
    · obtain ⟨rfl, hzero⟩ := hlast
      rw [if_pos ⟨rfl, hzero⟩]
      refine ⟨s, loop_stops h ?_ _, (List.append_nil _).symm, (Bool.or_false _).symm⟩
      rw [hlen, hzero]
      exact Nat.add_lt_add_left (by decide) _
    · rw [if_neg hlast]
      have hlong : pos + tyDpFrameMin ≤ len.toNat := by
        by_cases hlater : later = []
        · have hne : u.len.toNat ≠ 0 := fun hzero =>
            hlast ⟨hlater, UInt16.toNat_inj.mp hzero⟩
          omega
        · obtain ⟨next, more, rfl⟩ := List.exists_cons_of_ne_nil hlater
          have hnext := length_bytes (hcommand next (by simp)).range
          rw [List.map_cons, List.flatten_cons, List.length_append, hnext] at hlen
          omega
      obtain ⟨hgoes, hstands, hroot, hupload⟩ :=
        visit_command h hremains hu (by omega)
      obtain ⟨t, hloop, htroot, htupload⟩ := ih hstands (hremains.tail hu.range)
        (fun v hv => hcommand v (List.mem_cons_of_mem _ hv)) (by omega)
      refine ⟨t, ?_, ?_, ?_⟩
      · rw [List.length_cons, loop_goes _ _ ((h.goes_iff len).mpr hlong)]
        dsimp only
        rw [if_pos hgoes, hloop]
      · rw [htroot, hroot, List.append_assoc]
        rfl
      · rw [htupload, hupload]
        simp

theorem echo_eq_iff (h : InRange u) : echo u next = meaning u ↔
    (u.dp.prop = .bitmap → (u.len = 3 → next = u.objDp.word.toUInt8) ∧
      (u.len = 4 → u.objDp.word.toNat < 2 ^ 31)) := by
  by_cases hprop : u.dp.prop = .bitmap
  · have hmeaning : meaning u = .number u.objDp.word.toNat := by rw [meaning, hprop]
    have hn := next.toNat_lt
    have hx := u.objDp.word.toNat_lt
    rw [echo, hprop, hmeaning]
    obtain ⟨hlen | hlen | hlen | hlen, -⟩ := h.bitmap hprop
    · simp [hlen]
    · simp [hlen]
    · simp only [hlen, if_true, Json.number.injEq, Nat.cast_inj, ← UInt8.toNat_inj,
        UInt32.toNat_toUInt8]
      constructor
      · intro heq
        exact fun _ => ⟨fun _ => by omega, fun hfour => nomatch hfour⟩
      · intro heq
        have := (heq trivial).1 trivial
        omega
    · have hint : u.objDp.word.toBitVec.toInt = u.objDp.word.toNat ↔
          u.objDp.word.toNat < 2 ^ 31 := by
        rw [BitVec.toInt_eq_toNat_cond]
        change (if 2 * u.objDp.word.toNat < 2 ^ 32 then (u.objDp.word.toNat : Int)
          else u.objDp.word.toNat - (2 ^ 32 : Nat)) = _ ↔ _
        split <;> omega
      simp [hlen, hint]
  · have hsame : echo u next = meaning u := by
      unfold echo
      cases hkind : u.dp.prop <;> simp_all
    exact iff_of_true hsame fun hbitmap => absurd hbitmap hprop

/-- Every value comes back as it was meant exactly if none of them is one that is lost. -/
theorem echoes_eq_iff (hcommand : ∀ u ∈ values, IsCommand dps u) :
    echoes sum values = values.map (fun u => (u.objDp.dpid, meaning u)) ↔ Survives sum values := by
  induction values with
  | nil => exact iff_of_true rfl trivial
  | cons u later ih =>
    have hu := hcommand u List.mem_cons_self
    have ih := ih fun v hv => hcommand v (List.mem_cons_of_mem _ hv)
    rw [echoes, Survives]
    by_cases hlast : later = [] ∧ u.len = 0
    · rw [if_pos hlast]
      refine iff_of_false (fun heq => nomatch heq) ?_
      exact fun hsurvives => hsurvives.2.1 hlast.1 hlast.2
    · have hsize : later = [] → u.len ≠ 0 := fun hlater hzero => hlast ⟨hlater, hzero⟩
      rw [if_neg hlast, List.map_cons, List.cons.injEq, ih, Prod.mk.injEq, echo_eq_iff hu.range]
      constructor
      · exact fun ⟨⟨_, hecho⟩, htail⟩ => ⟨hecho, hsize, htail⟩
      · exact fun ⟨hecho, _, htail⟩ => ⟨⟨rfl, hecho⟩, htail⟩

theorem tyObjDatapointProc_command (h : IsCommand dps u) :
    tyObjDatapointProc dps u.objDp = some (send ⟨dataCtrlCmd, u.bytes⟩) := by
  have hlt := u.len.toNat_lt
  have hkind : tyGetObjTypeLen dps u.objDp = some (typeLen u.dp u.objDp) := by
    rw [tyGetObjTypeLen, h.found]
    dsimp only
    rw [if_neg h.mode, if_pos h.type]
  have hlen : 4 + u.len.toUInt32 = UInt32.ofNat u.bytes.length := by
    apply UInt32.toNat_inj.mp
    rw [length_bytes h.range, UInt32.toNat_add, UInt16.toNat_toUInt32, UInt32.toNat_ofNat']
    rfl
  rw [tyObjDatapointProc, hkind]
  change some (tyUartSend dataCtrlCmd (4 + u.len.toUInt32) u.bytes) = _
  rw [hlen]
  rfl

/-- The commands of the cloud go to the MCU as frames of their own. The MCU reports what it was
told in one frame: it is decoded to the values that were meant exactly if none is lost. -/
theorem commands_reported {dev : Device} (hready : dev.ready = some (dps.map DpDesc.toDpCntl))
    (hcommand : ∀ u ∈ values, IsCommand dps u)
    (hfits : (values.map Value.bytes).flatten.length + 7 ≤ hnRecvBufMax) :
    (∀ u ∈ values, tyObjDatapointProc dps u.objDp = some (send ⟨dataCtrlCmd, u.bytes⟩)) ∧
      let report := send ⟨dataRptCmd, (values.map Value.bytes).flatten⟩
      ∃ fuel t, upload dev fuel report = some t ∧
        (t.reported.getD [] = values.map (fun u => (u.objDp.dpid, meaning u)) ↔
          Survives (report.getLastD 0) values) := by
  refine ⟨fun u hu => tyObjDatapointProc_command (hcommand u hu), ?_⟩
  have hmax : hnRecvBufMax = 1024 := rfl
  have hshort : (values.map Value.bytes).flatten.length < 2 ^ 16 := by omega
  obtain ⟨sum, -, hframe⟩ := send_eq (c := ⟨dataRptCmd, (values.map Value.bytes).flatten⟩) hshort
  have hsum : (send ⟨dataRptCmd, (values.map Value.bytes).flatten⟩).getLastD 0 = sum := by
    rw [hframe, List.getLastD_concat]
  have hlen := toNat_len
    (fun i => (send ⟨dataRptCmd, (values.map Value.bytes).flatten⟩).getD i 0) 2
  have hremains : Remains (fun i => (send ⟨dataRptCmd, (values.map Value.bytes).flatten⟩).getD
      (6 + i) 0) 0 values sum := by
    intro i
    dsimp only
    rw [hframe, Nat.zero_add, Nat.add_comm, List.append_assoc]
    rfl
  have hsize : sizeAt (fun i => (send ⟨dataRptCmd, (values.map Value.bytes).flatten⟩).getD i 0) 2 =
      (values.map Value.bytes).flatten.length := by
    rw [sizeAt, hframe]
    change (UInt8.ofNat _).toNat * 256 + (UInt8.ofNat _).toNat = _
    rw [toNat_ofNat_byte, toNat_ofNat_byte]
    dsimp only
    omega
  obtain ⟨t, hloop, hroot, hupload⟩ := loop_commands (stands_blank _) hremains hcommand
    (hlen.trans (hsize.trans (Nat.zero_add _).symm))
  have hreported : (if t.objUpload then some t.root else none).getD [] = echoes sum values := by
    rw [hupload, hroot]
    cases echoes sum values <;> rfl
  refine ⟨values.length + 1, { t with reported := if t.objUpload then some t.root else none },
    ?_, ?_⟩
  · rw [upload, tyDatapointUploadProc, hready]
    dsimp only
    rw [hloop]
  · dsimp only
    rw [hreported, hsum]
    exact echoes_eq_iff hcommand

/-- A switch and a bitmap of 17 bits, whose lowest byte is the dpid of the switch. -/
def bitmapSwitch : List Value :=
  let switch : DpDesc := { dpId := 1, type := .obj, prop := .bool, mode := .rw, maxLen := 0 }
  let faults : DpDesc := { dpId := 2, type := .obj, prop := .bitmap, mode := .rw, maxLen := 17 }
  [⟨faults, ⟨2, 0x10001, []⟩⟩, ⟨switch, ⟨1, 1, []⟩⟩]

theorem commands_reported_bitmapSwitch :
    let dps := bitmapSwitch.map Value.dp
    let dev : Device := ⟨true, false, statStaConn, some (dps.map DpDesc.toDpCntl), true⟩
    (∀ u ∈ bitmapSwitch, tyObjDatapointProc dps u.objDp = some (send ⟨dataCtrlCmd, u.bytes⟩)) ∧
      let report := send ⟨dataRptCmd, (bitmapSwitch.map Value.bytes).flatten⟩
      ∃ fuel t, upload dev fuel report = some t ∧
        (t.reported.getD [] = bitmapSwitch.map (fun u => (u.objDp.dpid, meaning u)) ↔
          Survives (report.getLastD 0) bitmapSwitch) :=
  commands_reported rfl (by
    intro u hu
    obtain rfl | hu := List.mem_cons.mp hu
    · exact ⟨rfl, by decide, rfl, by decide, by decide, by decide⟩
    · obtain rfl := List.mem_singleton.mp hu
      exact ⟨rfl, by decide, rfl, trivial⟩) (by decide)

end Sv6x66.Tylink.DatapointCodec
