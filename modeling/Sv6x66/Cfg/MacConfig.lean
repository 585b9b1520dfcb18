import Sv6x66.Cfg.JsonText
import Sv6x66.Cfg.MacText
import Sv6x66.Cfg.SectorWrite
import Sv6x66.Lib.CJson

/-! `mac_cfg.c`: the two MAC addresses are members of a configuration that is kept in a
sector of the flash as the text `cJSON_Print` makes of it. -/
namespace Sv6x66.Cfg.MacConfig
open Sv6x66.Lib
open Sv6x66.Lib.CString
open Sv6x66.Lib.NorFlash
open Sv6x66.Cfg.JsonText hiding colon
open Sv6x66.Cfg.MacText hiding colon hexDigit
open Sv6x66.Cfg.SectorWrite

/-- An object of texts, as `mac_raw.h` holds one. -/
structure Config where
  members : List Member
  terminated : ∀ member ∈ members, Terminated member

/-- The text of a MAC address. -/
abbrev MacString := {text : Bytes // IsMac text}

def addr1 : Bytes := ofString "addr1"
def addr2 : Bytes := ofString "addr2"

def isNamed (string : Bytes) (member : Member) : Bool := CJson.sameName string (some member.1)

/-- `cJSON_GetObjectItem`, and the `valuestring` of what it finds. -/
def getObjectItem (object : List Member) (string : Bytes) : Option Bytes :=
  (object.find? (isNamed string)).map Prod.snd

/-- `cJSON_ReplaceItemInObject`: the first item with the name is replaced, and nothing
happens if there is none. -/
def replaceItemInObject (string : Bytes) (newitem : Bytes) : List Member → List Member
  | [] => []
  | item :: next =>
    if isNamed string item then (string, newitem) :: next
    else item :: replaceItemInObject string newitem next

theorem terminated_replaceItemInObject {string newitem : Bytes} (hstring : 0 ∉ string)
    (hitem : 0 ∉ newitem) {object : List Member} (h : ∀ member ∈ object, Terminated member) :
    ∀ member ∈ replaceItemInObject string newitem object, Terminated member := by
  induction object with
  | nil => exact h
  | cons item next ih =>
    obtain ⟨hfirst, hnext⟩ := List.forall_mem_cons.mp h
    rw [replaceItemInObject]
    split
    · exact List.forall_mem_cons.mpr ⟨⟨hstring, hitem⟩, hnext⟩
    · exact List.forall_mem_cons.mpr ⟨hfirst, ih hnext⟩

def wifiCfgReplaceMemAddr1 (handle : Config) (str : Bytes) : Config where
  members := replaceItemInObject addr1 (cstr str) handle.members
  terminated := terminated_replaceItemInObject (by decide) (zero_not_mem_cstr str)
    handle.terminated

def wifiCfgReplaceMemAddr2 (handle : Config) (str : Bytes) : Config where
  members := replaceItemInObject addr2 (cstr str) handle.members
  terminated := terminated_replaceItemInObject (by decide) (zero_not_mem_cstr str)
    handle.terminated

def sgBasicMac : Bytes := [
  0x7b, 0x22, 0x61, 0x64, 0x64, 0x72, 0x31, 0x22, 0x3a, 0x22, 0x34, 0x34,
  0x3a, 0x35, 0x37, 0x3a, 0x31, 0x38, 0x3a, 0x33, 0x66, 0x3a, 0x37, 0x39,
  0x3a, 0x41, 0x31, 0x22, 0x2c, 0x22, 0x61, 0x64, 0x64, 0x72, 0x32, 0x22,
  0x3a, 0x22, 0x34, 0x34, 0x3a, 0x35, 0x37, 0x3a, 0x31, 0x38, 0x3a, 0x33,
  0x66, 0x3a, 0x37, 0x39, 0x3a, 0x41, 0x32, 0x22, 0x7d, 0x0a]

/-- The text `buf` points to, without its NUL. -/
def printed (handle : Option Config) : Bytes :=
  match handle with
  | some config => printObject config.members
  | none => sgBasicMac

/-- What is `behind` the text in the memory is programmed as well. -/
def wifiCfgWriteCfg (handle : Option Config) (behind : Vector UInt8 flashSectorSize)
    (flash : Flash) : Flash :=
  let ptr := flashAddr gWifiCfg
  programLoop ptr 0 flashSectorSize (printed handle ++ 0 :: behind.toList)
    (flashSectorErase ptr flash)

/-- The parsed text, `NULL` for one that is not an object. There is no result if `strlen`
finds no NUL in `mac_string`. -/
def wifiCfgInit (flash : Flash) : Option (Option (List Member)) :=
  let macString := readBlock flash (flashAddr gWifiCfg) flashSectorSize
  if 0 ∈ macString then some (parseObject (cstr macString)) else none

/-- Without the item a `NULL` is followed. -/
def wifiCfgGetAddr (string : Bytes) (handle : Option (List Member)) (addr : Addr) :
    Option (Bool × Addr) := do
  macstringParser (← getObjectItem (← handle) string) addr

def wifiCfgGetAddr1 : Option (List Member) → Addr → Option (Bool × Addr) := wifiCfgGetAddr addr1
def wifiCfgGetAddr2 : Option (List Member) → Addr → Option (Bool × Addr) := wifiCfgGetAddr addr2

/-! ### What it is for -/

/-- Where the loop of the writer takes a page out of `buf`. -/
def pagesRead (i size : Nat) : List Nat :=
  if i < size then i :: pagesRead (i + flashPageSize) size else []
termination_by size - i
decreasing_by
  simp only [flashPageSize]
  omega

/-- The writer stays inside the text and its NUL. -/
def ReadsPrinted (handle : Option Config) : Prop :=
  ∀ i ∈ pagesRead 0 flashSectorSize, i + flashPageSize ≤ (printed handle).length + 1

def Yields (result : Option (Bool × Addr)) (mac : MacString) : Prop :=
  ∃ addr, result = some (true, addr) ∧ addr.toList.map UInt8.toNat = octetsOf mac

/-- Both addresses are found in the flash. -/
def ComesBack (mac1 mac2 : MacString) (flash : Flash) : Prop :=
  ∃ handle, wifiCfgInit flash = some handle ∧ ∀ addr,
    Yields (wifiCfgGetAddr1 handle addr) mac1 ∧ Yields (wifiCfgGetAddr2 handle addr) mac2

/-- The configuration with two new addresses. -/
def withAddrs (config : Config) (mac1 mac2 : MacString) : Config :=
  wifiCfgReplaceMemAddr2 (wifiCfgReplaceMemAddr1 config mac1) mac2

/-! ### What is read -/

theorem programLoop_eq_foldl (ptr i size : Nat) (buf : Bytes) (flash : Flash) :
    programLoop ptr i size buf flash = (pagesRead i size).foldl
      (fun flash i => flashPageProgram (ptr + i) flashPageSize (buf.drop i) flash) flash := by
  by_cases hlt : i < size
  · rw [programLoop, if_pos hlt, pagesRead, if_pos hlt, List.foldl_cons,
      programLoop_eq_foldl ptr (i + flashPageSize)]
  · rw [programLoop, if_neg hlt, pagesRead, if_neg hlt, List.foldl_nil]
termination_by size - i
decreasing_by
  simp only [flashPageSize]
  omega

theorem pagesRead_le_iff {i size : Nat} (hi : flashPageSize ∣ i) (hsize : flashPageSize ∣ size)
    (length : Nat) :
    (∀ start ∈ pagesRead i size, start + flashPageSize ≤ length) ↔ (i < size → size ≤ length) := by
  by_cases hlt : i < size
  · have hpage : i + flashPageSize ≤ size := by
      obtain ⟨k, rfl⟩ := hi
      obtain ⟨n, rfl⟩ := hsize
      exact (Nat.mul_le_mul_left _ (Nat.lt_of_mul_lt_mul_left hlt)).trans_eq' (Nat.mul_succ _ _)
    rw [pagesRead, if_pos hlt, List.forall_mem_cons,
      pagesRead_le_iff (Nat.dvd_add hi (Nat.dvd_refl _)) hsize]
    omega
  · rw [pagesRead, if_neg hlt]
    exact iff_of_true (fun start hstart => absurd hstart List.not_mem_nil)
      fun h => absurd h hlt
termination_by size - i
decreasing_by
  simp only [flashPageSize]
  omega

theorem readsPrinted_iff (handle : Option Config) :
    ReadsPrinted handle ↔ flashSectorSize ≤ (printed handle).length + 1 := by
  rw [ReadsPrinted, pagesRead_le_iff (Nat.dvd_zero _) (by decide)]
  exact ⟨fun h => h (by decide), fun h _ => h⟩

/-! ### What is stored -/

theorem readBlock_wifiCfgWriteCfg (handle : Option Config)
    (behind : Vector UInt8 flashSectorSize) (flash : Flash) :
    readBlock (wifiCfgWriteCfg handle behind flash) (flashAddr gWifiCfg) flashSectorSize =
      (printed handle ++ 0 :: behind.toList).take flashSectorSize := by
  have hptr : flashSectorSize ∣ flashAddr gWifiCfg := by decide
  apply List.ext_getElem?
  intro i
  by_cases hi : i < flashSectorSize
  · have hlen : i < (printed handle ++ 0 :: behind.toList).length := by
      rw [List.length_append, List.length_cons, Vector.length_toList]
      omega
    rw [getElem?_readBlock hi, List.getElem?_take_of_lt hi, List.getElem?_eq_getElem hlen,
      wifiCfgWriteCfg, programLoop_apply (Nat.dvd_trans (by decide) hptr) (Nat.dvd_zero _)
      (by decide), if_pos (by omega), flashSectorErase, eraseSector_aligned (by decide) hptr,
      if_pos (by omega), free_and, Nat.add_sub_cancel_left, List.getD_eq_getElem _ _ hlen]
  · rw [List.getElem?_eq_none, List.getElem?_eq_none]
    · rw [List.length_take]
      omega
    · rw [readBlock, List.length_map, List.length_range]
      omega

theorem not_mem_ite {α : Type*} {p : Prop} [Decidable p] {a : α} {l l' : List α}
    (h : p → a ∉ l) (h' : a ∉ l') : a ∉ if p then l else l' := by
  by_cases hp : p
  · rw [if_pos hp]
    exact h hp
  · rwa [if_neg hp]

theorem zero_not_mem_escape (byte : UInt8) : 0 ∉ escape byte := by
  have hplain (h : byte > 31 ∧ byte ≠ quote ∧ byte ≠ backslash) : 0 ∉ [byte] := by
    rw [List.mem_singleton]
    rintro rfl
    exact absurd h.1 (by decide)
  have hhex : ∀ digit < 16, lowerHex digit ≠ 0 := by decide
  have hbyte := byte.toNat_lt
  have hfirst := hhex (byte.toNat / 16) (by omega)
  have hsecond := hhex (byte.toNat % 16) (by omega)
  rw [escape]
  refine not_mem_ite hplain ?_
  iterate 7 refine not_mem_ite (fun _ => by decide) ?_
  simp only [List.mem_cons, List.not_mem_nil, or_false, not_or]
  exact ⟨by decide, by decide, by decide, by decide, hfirst.symm, hsecond.symm⟩

theorem zero_not_mem_printStringPtr (text : Bytes) : 0 ∉ printStringPtr text := by
  have hescaped : 0 ∉ text.flatMap escape := fun hmem =>
    let ⟨byte, _, hbyte⟩ := List.mem_flatMap.mp hmem
    zero_not_mem_escape byte hbyte
  simp [printStringPtr, hescaped, quote]

theorem zero_not_mem_printMember (member : Member) (last : Bool) :
    0 ∉ printMember member last := by
  cases last <;>
    simp [printMember, zero_not_mem_printStringPtr, tab, JsonText.colon, newline, comma]

theorem zero_not_mem_printObject (members : List Member) : 0 ∉ printObject members := by
  have hmembers : 0 ∉ printMembers members := by
    induction members with
    | nil => exact List.not_mem_nil
    | cons member members ih =>
      rw [printMembers, List.mem_append]
      exact not_or.mpr ⟨zero_not_mem_printMember member _, ih⟩
  simp [printObject, hmembers, openBrace, newline, closeBrace]

/-- A configuration is found again if its text and the NUL fit into the sector; otherwise
the search for the NUL leaves it. -/
theorem wifiCfgInit_wifiCfgWriteCfg (config : Config) (behind : Vector UInt8 flashSectorSize)
    (flash : Flash) :
    wifiCfgInit (wifiCfgWriteCfg (some config) behind flash) =
      if (printObject config.members).length + 1 ≤ flashSectorSize then
        some (some config.members)
      else none := by
  have hzero := zero_not_mem_printObject config.members
  have hprinted : printed (some config) = printObject config.members := rfl
  rw [wifiCfgInit, readBlock_wifiCfgWriteCfg, hprinted]
  by_cases hfits : (printObject config.members).length + 1 ≤ flashSectorSize
  · obtain ⟨room, hroom⟩ : ∃ room, flashSectorSize - (printObject config.members).length =
        room + 1 := ⟨_, (Nat.sub_add_cancel (by omega)).symm⟩
    have hend (rest : Bytes) : cstr (0 :: rest) = [] := List.takeWhile_cons_of_neg (by decide)
    rw [if_pos hfits, List.take_append, List.take_of_length_le (by omega), hroom,
      List.take_succ_cons, if_pos (List.mem_append_right _ List.mem_cons_self),
      cstr_append hzero, hend, List.append_nil, parseObject_printObject config.terminated]
  · rw [if_neg hfits, List.take_append_of_le_length (by omega)]
    exact if_neg fun hmem => hzero (List.mem_of_mem_take hmem)

/-! ### The members -/

theorem isNamed_self (string newitem : Bytes) : isNamed string (string, newitem) = true :=
  decide_eq_true rfl

theorem getObjectItem_replace_self (string newitem : Bytes) (object : List Member) :
    getObjectItem (replaceItemInObject string newitem object) string =
      (getObjectItem object string).map fun _ => newitem := by
  induction object with
  | nil => rfl
  | cons item next ih =>
    rw [replaceItemInObject]
    by_cases hitem : isNamed string item = true
    · rw [if_pos hitem, getObjectItem, getObjectItem, List.find?_cons_of_pos hitem,
        List.find?_cons_of_pos (isNamed_self string newitem)]
      rfl
    · rw [if_neg hitem, getObjectItem, getObjectItem, List.find?_cons_of_neg hitem,
        List.find?_cons_of_neg hitem]
      exact ih

/-- An item has one name. -/
theorem not_isNamed {string other : Bytes}
    (hne : string.map CJson.tolower ≠ other.map CJson.tolower) {item : Member}
    (h : isNamed string item = true) : ¬ isNamed other item = true := by
  intro hother
  exact hne ((of_decide_eq_true h).trans (of_decide_eq_true hother).symm)

theorem getObjectItem_replace_other {string other : Bytes}
    (hne : string.map CJson.tolower ≠ other.map CJson.tolower) (newitem : Bytes)
    (object : List Member) :
    getObjectItem (replaceItemInObject string newitem object) other =
      getObjectItem object other := by
  induction object with
  | nil => rfl
  | cons item next ih =>
    rw [replaceItemInObject]
    by_cases hitem : isNamed string item = true
    · rw [if_pos hitem, getObjectItem, getObjectItem,
        List.find?_cons_of_neg (not_isNamed hne hitem),
        List.find?_cons_of_neg (not_isNamed hne (isNamed_self string newitem))]
    · rw [if_neg hitem, getObjectItem, getObjectItem, List.find?_cons, List.find?_cons]
      split
      · rfl
      · exact ih

theorem zero_not_mem_of_hexOctet {field : Bytes} (h : (hexOctet field).isSome) : 0 ∉ field := by
  obtain ⟨value, hvalue⟩ := Option.isSome_iff_exists.mp h
  obtain ⟨high, low, first, second, rfl, hhigh, hlow, -⟩ := hexOctet_eq_some hvalue
  have hzero (digit : Nat) : MacText.hexDigit 0 ≠ some digit := by
    rw [show MacText.hexDigit 0 = none by decide]
    exact Option.some_ne_none digit |>.symm
  simp only [List.mem_cons, List.not_mem_nil, or_false]
  rintro (rfl | rfl)
  · exact hzero _ hhigh
  · exact hzero _ hlow

theorem cstr_of_isMac {text : Bytes} (h : IsMac text) : cstr text = text := by
  obtain ⟨hcount, hfields⟩ := h
  have htext : [MacText.colon].intercalate (text.splitOn MacText.colon) = text :=
    List.intercalate_splitOn MacText.colon
  apply cstr_of_not_mem
  rw [← htext]
  generalize text.splitOn MacText.colon = fields at hcount hfields
  match fields, hcount with
  | [a, b, c, d, e, f], _ =>
    simp only [List.mem_cons, List.not_mem_nil, or_false, forall_eq_or_imp, forall_eq] at hfields
    obtain ⟨ha, hb, hc, hd, he, hf⟩ := hfields
    simp [List.intercalate, List.intersperse, MacText.colon, zero_not_mem_of_hexOctet ha,
      zero_not_mem_of_hexOctet hb, zero_not_mem_of_hexOctet hc, zero_not_mem_of_hexOctet hd,
      zero_not_mem_of_hexOctet he, zero_not_mem_of_hexOctet hf]

section

variable (config : Config) (mac1 mac2 : MacString)

theorem getObjectItem_addr1 : getObjectItem (withAddrs config mac1 mac2).members addr1 =
    (getObjectItem config.members addr1).map fun _ => mac1.1 := by
  have hother : getObjectItem (withAddrs config mac1 mac2).members addr1 = _ :=
    getObjectItem_replace_other (by decide) _ _
  rw [hother, wifiCfgReplaceMemAddr1, getObjectItem_replace_self, cstr_of_isMac mac1.2]

theorem getObjectItem_addr2 : getObjectItem (withAddrs config mac1 mac2).members addr2 =
    (getObjectItem config.members addr2).map fun _ => mac2.1 := by
  have hself : getObjectItem (withAddrs config mac1 mac2).members addr2 = _ :=
    getObjectItem_replace_self _ _ _
  have hother : getObjectItem
      (replaceItemInObject addr1 (cstr mac1.1) config.members) addr2 = _ :=
    getObjectItem_replace_other (by decide) _ _
  rw [hself, wifiCfgReplaceMemAddr1, hother, cstr_of_isMac mac2.2]

end

theorem yields_iff (string : Bytes) (addr : Addr) {object : List Member} {mac : MacString}
    {item : Option Bytes} (h : getObjectItem object string = item.map fun _ => mac.1) :
    Yields (wifiCfgGetAddr string (some object) addr) mac ↔ item.isSome := by
  cases item with
  | none =>
    have hnone : wifiCfgGetAddr string (some object) addr = none := by
      rw [wifiCfgGetAddr, Option.bind_eq_bind, Option.bind_some, h]
      rfl
    refine iff_of_false ?_ Bool.false_ne_true
    rintro ⟨after, hafter, -⟩
    cases hnone.symm.trans hafter
  | some text =>
    have hsome : wifiCfgGetAddr string (some object) addr = macstringParser mac.1 addr := by
      rw [wifiCfgGetAddr, Option.bind_eq_bind, Option.bind_some, h]
      rfl
    refine iff_of_true ?_ rfl
    have hmac : IsMac (cstr mac.1) := by
      rw [cstr_of_isMac mac.2]
      exact mac.2
    obtain ⟨after, hafter, hlist⟩ := macstringParser_of_isMac addr hmac
    rw [cstr_of_isMac mac.2] at hlist
    exact ⟨after, hsome.trans hafter, hlist⟩

/-- The configuration has an item for each address. -/
def HasAddrs (config : Config) : Prop :=
  (getObjectItem config.members addr1).isSome ∧ (getObjectItem config.members addr2).isSome

theorem comesBack_iff (config : Config) (mac1 mac2 : MacString)
    (behind : Vector UInt8 flashSectorSize) (flash : Flash) :
    ComesBack mac1 mac2 (wifiCfgWriteCfg (some (withAddrs config mac1 mac2)) behind flash) ↔
      HasAddrs config ∧
        (printObject (withAddrs config mac1 mac2).members).length + 1 ≤ flashSectorSize := by
  have hinit := wifiCfgInit_wifiCfgWriteCfg (withAddrs config mac1 mac2) behind flash
  have hyields (addr : Addr) := and_congr
    (yields_iff addr1 addr (getObjectItem_addr1 config mac1 mac2))
    (yields_iff addr2 addr (getObjectItem_addr2 config mac1 mac2))
  split at hinit
  · rename_i hfits
    constructor
    · rintro ⟨handle, hhandle, hboth⟩
      cases hinit.symm.trans hhandle
      exact ⟨(hyields (Vector.replicate 6 0)).mp (hboth _), hfits⟩
    · rintro ⟨hhas, -⟩
      exact ⟨_, hinit, fun addr => (hyields addr).mpr hhas⟩
  · rename_i hlong
    refine iff_of_false ?_ fun h => hlong h.2
    rintro ⟨handle, hhandle, -⟩
    cases hinit.symm.trans hhandle

/-- The writer programs a whole sector, whatever the length of the text, so only a text that
fills the sector with its NUL is neither read past nor cut off. -/
theorem readsPrinted_and_comesBack_iff (config : Config) (mac1 mac2 : MacString)
    (behind : Vector UInt8 flashSectorSize) (flash : Flash) :
    (ReadsPrinted (some (withAddrs config mac1 mac2)) ∧
      ComesBack mac1 mac2
        (wifiCfgWriteCfg (some (withAddrs config mac1 mac2)) behind flash)) ↔
    HasAddrs config ∧
      (printObject (withAddrs config mac1 mac2).members).length + 1 = flashSectorSize := by
  rw [readsPrinted_iff, comesBack_iff, printed]
  constructor
  · rintro ⟨hreads, hhas, hfits⟩
    exact ⟨hhas, Nat.le_antisymm hfits hreads⟩
  · rintro ⟨hhas, hfull⟩
    exact ⟨Nat.le_of_eq hfull.symm, hhas, Nat.le_of_eq hfull⟩

/-! ### The configuration of the image -/

/-- A bound for what the members are printed as. -/
def printBound (members : List Member) : Nat :=
  (members.map fun member => 6 * (member.1.length + member.2.length) + 9).sum

theorem length_escape_le (byte : UInt8) : (escape byte).length ≤ 6 := by
  rcases escape_cases byte with ⟨-, -, heq⟩ | ⟨d, heq, -, -⟩ | ⟨heq, -⟩ <;>
    simp only [heq, List.length_cons, List.length_nil] <;> omega

theorem length_printStringPtr_le (text : Bytes) :
    (printStringPtr text).length ≤ 6 * text.length + 2 := by
  have hescaped : (text.flatMap escape).length ≤ 6 * text.length := by
    induction text with
    | nil => exact Nat.le_refl _
    | cons byte text ih =>
      have hbyte := length_escape_le byte
      rw [List.flatMap_cons, List.length_append, List.length_cons]
      omega
  rw [printStringPtr, List.length_append, List.length_cons, List.length_singleton]
  omega

theorem length_printMembers_le (members : List Member) :
    (printMembers members).length ≤ printBound members := by
  induction members with
  | nil => exact Nat.le_refl _
  | cons member members ih =>
    have hname := length_printStringPtr_le member.1
    have hvalue := length_printStringPtr_le member.2
    have hmember : (printMember member members.isEmpty).length ≤
        6 * (member.1.length + member.2.length) + 9 := by
      cases members.isEmpty <;>
        simp only [printMember, List.length_append, List.length_cons, List.length_nil,
          if_true, Bool.false_eq_true, if_false] <;> omega
    rw [printBound] at ih
    rw [printMembers, List.length_append, printBound, List.map_cons, List.sum_cons]
    omega

theorem printBound_replaceItemInObject (string newitem : Bytes) (object : List Member) :
    printBound (replaceItemInObject string newitem object) ≤
      printBound object + (6 * (string.length + newitem.length) + 9) := by
  induction object with
  | nil => exact Nat.zero_le _
  | cons item next ih =>
    simp only [printBound] at ih
    rw [replaceItemInObject]
    split <;> simp only [printBound, List.map_cons, List.sum_cons] <;> omega

theorem printBound_withAddrs (config : Config) (mac1 mac2 : MacString) :
    printBound (withAddrs config mac1 mac2).members ≤ printBound config.members + 282 := by
  have hfirst := printBound_replaceItemInObject addr1 (cstr mac1.1) config.members
  have hsecond : printBound (withAddrs config mac1 mac2).members ≤ _ :=
    printBound_replaceItemInObject addr2 (cstr mac2.1)
      (replaceItemInObject addr1 (cstr mac1.1) config.members)
  have hname1 : addr1.length = 5 := rfl
  have hname2 : addr2.length = 5 := rfl
  have hlength1 : (cstr mac1.1).length = 17 := by
    rw [cstr_of_isMac mac1.2, length_of_isMac mac1.2]
  have hlength2 : (cstr mac2.1).length = 17 := by
    rw [cstr_of_isMac mac2.2, length_of_isMac mac2.2]
  omega

/-- A short configuration is read past its end, whatever the addresses are. -/
theorem not_readsPrinted_of_printBound {config : Config} (h : printBound config.members ≤ 3809)
    (mac1 mac2 : MacString) : ¬ ReadsPrinted (some (withAddrs config mac1 mac2)) := by
  have hbound := printBound_withAddrs config mac1 mac2
  have hprinted := length_printMembers_le (withAddrs config mac1 mac2).members
  rw [readsPrinted_iff, printed, printObject, flashSectorSize]
  simp only [List.length_append, List.length_cons, List.length_nil]
  omega

/-- `mac.txt`, which `mac_raw.h` is made from. -/
def macRaw : Config where
  members := [
    (addr1, ofString "44:57:18:3f:89:a1"),
    (addr2, ofString "44:57:18:3f:89:a2"),
    (ofString "softap_ssid", ofString "icomm-softap"),
    (ofString "softap_password", ofString "1234567890"),
    (ofString "softap_channel", ofString "1"),
    (ofString "softap_ack_timeout", ofString "10000"),
    (ofString "softap_data_timeout", ofString "20000"),
    (ofString "softap_autoconnect", ofString "1"),
    (ofString "region_code", ofString "0x00009c"),
    (ofString "__comment_taiwan_region_code", ofString "Taiwan:0x00009e"),
    (ofString "watch_dog_count", ofString "5000"),
    (ofString "__comment_watch_dog_count", ofString "unit is ms"),
    (ofString "softap_encryt_mode", ofString "0"),
    (ofString "__comment_softap_encryt_mode", ofString "0: open, 1:WPA2-tkip 2:WPA2:CCMP"),
    (ofString "slink_mode", ofString "0")]
  terminated := by decide

theorem not_readsPrinted_macRaw (mac1 mac2 : MacString) :
    ¬ ReadsPrinted (some (withAddrs macRaw mac1 mac2)) :=
  not_readsPrinted_of_printBound (by decide) mac1 mac2

/-- The two addresses and nothing else. -/
def onlyAddrs : Config where
  members := [(addr1, ofString "44:57:18:3f:89:a1"), (addr2, ofString "44:57:18:3f:89:a2")]
  terminated := by decide

def firstMac : MacString := ⟨ofString "00:23:45:67:89:AB", by decide⟩
def secondMac : MacString := ⟨ofString "00:23:45:67:89:AC", by decide⟩

/-- The text is far shorter than the sector. -/
theorem onlyAddrs_overread : ¬ (ReadsPrinted (some (withAddrs onlyAddrs firstMac secondMac)) ∧
    ComesBack firstMac secondMac (wifiCfgWriteCfg
      (some (withAddrs onlyAddrs firstMac secondMac)) (Vector.replicate _ 0) fun _ => 0xFF)) := by
  rw [readsPrinted_iff]
  rintro ⟨hreads, -⟩
  exact absurd hreads (by decide)

end Sv6x66.Cfg.MacConfig
