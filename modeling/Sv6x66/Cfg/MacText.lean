import Sv6x66.Lib.CString

/-! `macstring_parser` of `mac_cfg.c`. -/
namespace Sv6x66.Cfg.MacText
open Sv6x66.Lib.CString

def colon : UInt8 := 58

/-- What the three branches for hexadecimal digits add. -/
def nibble (c : UInt8) : Option UInt8 :=
  if 48 ≤ c ∧ c ≤ 57 then some (c - 48)
  else if 97 ≤ c ∧ c ≤ 102 then some (c - 97 + 10)
  else if 65 ≤ c ∧ c ≤ 70 then some (c - 65 + 10)
  else none

abbrev Addr := Vector UInt8 6

/-- The loop, with the octet under way at `index`; `false` is the error exit. There is no
result if a colon moves on to `addr[6]`, which is set to 0 before the index is tested. -/
def parseLoop : Bytes → Nat → Addr → Option (Bool × Addr)
  | [], _, addr => some (true, addr)
  | c :: rest, index, addr =>
    if h : index > 5 then some (false, addr)
    else
      match nibble c with
      | some value => parseLoop rest index (addr.set index ((addr[index] <<< 4) + value))
      | none =>
        if c = colon then
          if h : index + 1 < 6 then parseLoop rest (index + 1) (addr.set (index + 1) 0) else none
        else some (false, addr)

/-- `len` is a `u8`. -/
def macstringParser (macstr : Bytes) (addr : Addr) : Option (Bool × Addr) :=
  let len := UInt8.ofNat (cstr macstr).length
  if len > 17 then some (false, addr)
  else parseLoop ((cstr macstr).take len.toNat) 0 (addr.set 0 0)

/-! ### What it is for -/

def hexDigit (c : UInt8) : Option Nat := (digitOf c).filter (· < 16)

def hexOctet : Bytes → Option Nat
  | [high, low] => do some (16 * (← hexDigit high) + (← hexDigit low))
  | _ => none

/-- Six octets of two hexadecimal digits, with colons between them. -/
def IsMac (text : Bytes) : Prop :=
  (text.splitOn colon).length = 6 ∧ ∀ field ∈ text.splitOn colon, (hexOctet field).isSome

instance (text : Bytes) : Decidable (IsMac text) := by
  unfold IsMac
  infer_instance

def octetsOf (text : Bytes) : List Nat := (text.splitOn colon).filterMap hexOctet

/-- The text is parsed inside `addr`, and taken exactly if it is a MAC address. -/
def Parses (macstr : Bytes) (addr : Addr) : Prop :=
  ∃ taken after, macstringParser macstr addr = some (taken, after) ∧
    (taken = true ↔ IsMac (cstr macstr)) ∧
    (IsMac (cstr macstr) → after.toList.map UInt8.toNat = octetsOf (cstr macstr))

def isMacChar (c : UInt8) : Bool := (nibble c).isSome || c == colon

/-- The part of a text that an 8-bit length covers. -/
def covered (text : Bytes) : Bytes := text.take (text.length % 256)

/-- If the length test lets the text through, its characters up to the first one that is
neither a digit nor a colon hold at most five colons, and they are not all of it unless it
is a MAC address. -/
def MeansMac (text : Bytes) : Prop :=
  text.length % 256 ≤ 17 →
    ((covered text).takeWhile isMacChar).count colon ≤ 5 ∧
      ((∀ c ∈ covered text, isMacChar c = true) → IsMac text)

/-! ### The exits of the loop -/

theorem nibble_colon : nibble colon = none := by decide

section Exits

variable {c : UInt8} {rest : Bytes} {index : Nat} {addr : Addr}

theorem parseLoop_digit {value : UInt8} (hc : nibble c = some value) (h : index < 6) :
    parseLoop (c :: rest) index addr =
      parseLoop rest index (addr.set index ((addr[index] <<< 4) + value)) := by
  rw [parseLoop, dif_neg (by omega), hc]

theorem parseLoop_colon (h : index + 1 < 6) :
    parseLoop (colon :: rest) index addr =
      parseLoop rest (index + 1) (addr.set (index + 1) 0) := by
  rw [parseLoop, dif_neg (by omega), nibble_colon]
  simp only [if_true, dif_pos h]

theorem parseLoop_colon_overrun : parseLoop (colon :: rest) 5 addr = none := by
  rw [parseLoop, dif_neg (by omega), nibble_colon]
  rfl

theorem parseLoop_other (hc : isMacChar c = false) (h : index < 6) :
    parseLoop (c :: rest) index addr = some (false, addr) := by
  simp only [isMacChar, Bool.or_eq_false_iff, Option.isSome_eq_false_iff, Option.isNone_iff_eq_none,
    beq_eq_false_iff_ne] at hc
  rw [parseLoop, dif_neg (by omega), hc.1]
  exact if_neg hc.2

end Exits

/-- The sixth colon is one too many, wherever it stands among digits and colons. Without
it the loop says whether there is anything else. -/
theorem parseLoop_exit (text : Bytes) {index : Nat} (addr : Addr) (hindex : index ≤ 5) :
    if index + (text.takeWhile isMacChar).count colon ≤ 5 then
      ∃ after, parseLoop text index addr = some (text.all isMacChar, after)
    else parseLoop text index addr = none := by
  induction text generalizing index addr with
  | nil =>
    rw [if_pos (by simpa using hindex)]
    exact ⟨addr, rfl⟩
  | cons c rest ih =>
    cases hc : nibble c with
    | some value =>
      have hvalid : isMacChar c = true := by rw [isMacChar, hc]; rfl
      have hne : c ≠ colon := by
        rintro rfl
        rw [nibble_colon] at hc
        cases hc
      rw [List.takeWhile_cons_of_pos hvalid, List.count_cons_of_ne hne,
        parseLoop_digit hc (by omega), List.all_cons, hvalid, Bool.true_and]
      exact ih _ hindex
    | none =>
      by_cases hcolon : c = colon
      · subst hcolon
        have hvalid : isMacChar colon = true := by decide
        rw [List.takeWhile_cons_of_pos hvalid, List.count_cons_self, List.all_cons, hvalid,
          Bool.true_and]
        by_cases hlast : index = 5
        · rw [if_neg (by omega), hlast]
          exact parseLoop_colon_overrun
        · rw [parseLoop_colon (by omega), ← Nat.add_assoc, Nat.add_right_comm]
          exact ih _ (by omega)
      · have hvalid : isMacChar c = false := by
          rw [isMacChar, hc, Option.isSome_none, Bool.false_or, beq_eq_false_iff_ne]
          exact hcolon
        rw [List.takeWhile_cons_of_neg (by rw [hvalid]; exact Bool.false_ne_true), List.count_nil,
          if_pos (by omega), List.all_cons, hvalid, Bool.false_and]
        exact ⟨addr, parseLoop_other hvalid (by omega)⟩

/-! ### A MAC address -/

theorem hexDigit_eq (c : UInt8) : hexDigit c =
    if 48 ≤ c ∧ c ≤ 57 then some (c.toNat - 48)
    else if 97 ≤ c ∧ c ≤ 102 then some (c.toNat - 87)
    else if 65 ≤ c ∧ c ≤ 70 then some (c.toNat - 55)
    else none := by
  ext digit
  rw [hexDigit, Option.filter_eq_some_iff, digitOf_eq_some_iff, decide_eq_true_eq]
  simp only [UInt8.le_iff_toNat_le, UInt8.toNat_ofNat]
  split_ifs
  · rw [Option.some_inj]
    omega
  · rw [Option.some_inj]
    omega
  · rw [Option.some_inj]
    omega
  · rw [iff_false]
    omega

theorem nibble_eq (c : UInt8) : nibble c = (hexDigit c).map UInt8.ofNat := by
  have hsub {k : UInt8} (hk : k ≤ c) : UInt8.ofNat (c.toNat - k.toNat) = c - k := by
    rw [UInt8.ofNat_sub (UInt8.le_iff_toNat_le.mp hk), UInt8.ofNat_toNat, UInt8.ofNat_toNat]
  rw [nibble, hexDigit_eq]
  split_ifs with hten hsmall hlarge
  · exact congrArg some (hsub hten.1).symm
  · have hle : 87 ≤ c := UInt8.le_trans (by decide) hsmall.1
    rw [Option.map_some]
    refine congrArg some (.trans ?_ (hsub hle).symm)
    grind
  · have hle : 55 ≤ c := UInt8.le_trans (by decide) hlarge.1
    refine congrArg some (.trans ?_ (hsub hle).symm)
    grind
  · rfl

theorem hexDigit_lt {c : UInt8} {digit : Nat} (h : hexDigit c = some digit) : digit < 16 := by
  obtain ⟨-, hlt⟩ := Option.filter_eq_some_iff.mp h
  simpa using hlt

theorem hexOctet_eq_some {field : Bytes} {value : Nat} (h : hexOctet field = some value) :
    ∃ high low first second, field = [high, low] ∧ hexDigit high = some first ∧
      hexDigit low = some second ∧ value = 16 * first + second := by
  unfold hexOctet at h
  split at h
  · rename_i high low
    obtain ⟨first, hfirst, h⟩ := Option.bind_eq_some_iff.mp h
    obtain ⟨second, hsecond, h⟩ := Option.bind_eq_some_iff.mp h
    exact ⟨high, low, first, second, rfl, hfirst, hsecond, (Option.some.inj h).symm⟩
  · cases h

/-- Two digits shifted in, one after the other. -/
theorem shifted_eq {first second : Nat} (hfirst : first < 16) (hsecond : second < 16) :
    ((((0 : UInt8) <<< 4) + UInt8.ofNat first) <<< 4) + UInt8.ofNat second =
      UInt8.ofNat (16 * first + second) := by
  have hall : ∀ first second : Fin 16,
      ((((0 : UInt8) <<< 4) + UInt8.ofNat first) <<< 4) + UInt8.ofNat second =
        UInt8.ofNat (16 * first + second) := by decide
  exact hall ⟨first, hfirst⟩ ⟨second, hsecond⟩

theorem parseLoop_octet {field rest : Bytes} {index value : Nat} {addr : Addr}
    (hvalue : hexOctet field = some value) (h : index < 6) (hzero : addr[index] = 0) :
    parseLoop (field ++ rest) index addr =
      parseLoop rest index (addr.set index (UInt8.ofNat value)) := by
  obtain ⟨high, low, first, second, rfl, hfirst, hsecond, rfl⟩ := hexOctet_eq_some hvalue
  have hhigh : nibble high = some (UInt8.ofNat first) := by
    rw [nibble_eq, hfirst, Option.map_some]
  have hlow : nibble low = some (UInt8.ofNat second) := by
    rw [nibble_eq, hsecond, Option.map_some]
  rw [List.cons_append, List.cons_append, List.nil_append, parseLoop_digit hhigh h,
    parseLoop_digit hlow h, hzero, Vector.getElem_set_self, Vector.set_set,
    shifted_eq (hexDigit_lt hfirst) (hexDigit_lt hsecond)]

theorem take_set {addr : Addr} {index : Nat} (h : index < 6) (value : UInt8) :
    (addr.set index value).toList.take (index + 1) = addr.toList.take index ++ [value] := by
  have hlength : index < addr.toList.length := by rwa [Vector.length_toList]
  rw [Vector.toList_set, List.take_add_one, List.take_set_of_le (Nat.le_refl _),
    List.getElem?_set_self hlength]
  rfl

theorem toNat_hexOctet {field : Bytes} {value : Nat} (h : hexOctet field = some value) :
    (UInt8.ofNat value).toNat = value := by
  obtain ⟨_, _, first, second, -, hfirst, hsecond, rfl⟩ := hexOctet_eq_some h
  have hhigh := hexDigit_lt hfirst
  have hlow := hexDigit_lt hsecond
  rw [UInt8.toNat_ofNat']
  omega

/-- The octets from `index` on. -/
theorem parseLoop_fields {fields : List Bytes} {index : Nat} {addr : Addr}
    (hfields : ∀ field ∈ fields, (hexOctet field).isSome) (hne : fields ≠ [])
    (hlength : index + fields.length = 6) (hzero : ∀ h : index < 6, addr[index] = 0) :
    ∃ after, parseLoop ([colon].intercalate fields) index addr = some (true, after) ∧
      after.toList.map UInt8.toNat =
        (addr.toList.take index).map UInt8.toNat ++ fields.filterMap hexOctet := by
  induction fields generalizing index addr with
  | nil => exact absurd rfl hne
  | cons field fields ih =>
    obtain ⟨value, hvalue⟩ := Option.isSome_iff_exists.mp (hfields field List.mem_cons_self)
    rw [List.length_cons] at hlength
    have hindex : index < 6 := by omega
    have htaken : ((addr.set index (UInt8.ofNat value)).toList.take (index + 1)).map UInt8.toNat =
        (addr.toList.take index).map UInt8.toNat ++ [value] := by
      rw [take_set hindex, List.map_append, List.map_singleton, toNat_hexOctet hvalue]
    rw [List.filterMap_cons_some hvalue]
    by_cases hlast : fields = []
    · have hend : index + 1 = 6 := by
        rw [hlast] at hlength
        exact hlength
      rw [hlast, List.intercalate_singleton, ← List.append_nil field,
        parseLoop_octet hvalue hindex (hzero hindex)]
      refine ⟨_, rfl, ?_⟩
      rw [List.filterMap_nil, ← htaken, hend, List.take_of_length_le (Vector.length_toList).le]
    · have hnext : index + 1 < 6 := by
        have := List.length_pos_iff.mpr hlast
        omega
      have hcleared : ∀ _ : index + 1 < 6,
          ((addr.set index (UInt8.ofNat value)).set (index + 1) 0 hnext)[index + 1] = 0 :=
        fun _ => Vector.getElem_set_self hnext
      obtain ⟨after, hafter, hlist⟩ := ih
        (fun later hlater => hfields later (List.mem_cons_of_mem _ hlater)) hlast
        (show index + 1 + fields.length = 6 by omega) hcleared
      rw [List.intercalate_cons_of_ne_nil hlast, List.append_assoc, List.singleton_append,
        parseLoop_octet hvalue hindex (hzero hindex), parseLoop_colon hnext]
      refine ⟨after, hafter, ?_⟩
      rw [hlist, Vector.toList_set, List.take_set_of_le (Nat.le_refl _), htaken, List.append_assoc,
        List.singleton_append]

theorem length_of_hexOctet {field : Bytes} (h : (hexOctet field).isSome) : field.length = 2 := by
  obtain ⟨value, hvalue⟩ := Option.isSome_iff_exists.mp h
  obtain ⟨high, low, _, _, rfl, -⟩ := hexOctet_eq_some hvalue
  rfl

theorem length_of_isMac {text : Bytes} (h : IsMac text) : text.length = 17 := by
  obtain ⟨hcount, hfields⟩ := h
  have htext : [colon].intercalate (text.splitOn colon) = text := List.intercalate_splitOn colon
  rw [← htext]
  generalize text.splitOn colon = fields at hcount hfields
  match fields, hcount with
  | [a, b, c, d, e, f], _ =>
    simp only [List.mem_cons, List.not_mem_nil, or_false, forall_eq_or_imp, forall_eq] at hfields
    obtain ⟨ha, hb, hc, hd, he, hf⟩ := hfields
    simp [List.intercalate, List.intersperse, length_of_hexOctet ha, length_of_hexOctet hb,
      length_of_hexOctet hc, length_of_hexOctet hd, length_of_hexOctet he, length_of_hexOctet hf]

/-- A MAC address is read as it is written. -/
theorem macstringParser_of_isMac {macstr : Bytes} (addr : Addr) (h : IsMac (cstr macstr)) :
    ∃ after, macstringParser macstr addr = some (true, after) ∧
      after.toList.map UInt8.toNat = octetsOf (cstr macstr) := by
  have hlength := length_of_isMac h
  have hne : (cstr macstr).splitOn colon ≠ [] := List.splitOn_ne_nil _ _
  have hcleared : ∀ _ : 0 < 6, (addr.set 0 0 (by decide))[0] = 0 :=
    fun _ => Vector.getElem_set_self _
  obtain ⟨after, hafter, hlist⟩ := parseLoop_fields h.2 hne (by rw [h.1]) hcleared
  rw [List.intercalate_splitOn] at hafter
  refine ⟨after, ?_, hlist⟩
  rw [macstringParser, hlength]
  have htake : (cstr macstr).take (UInt8.ofNat 17).toNat = cstr macstr :=
    List.take_of_length_le (by rw [hlength]; decide)
  rw [htake]
  exact hafter

/-! ### Every text -/

theorem macstringParser_of_long {macstr : Bytes} (addr : Addr)
    (h : ¬ (cstr macstr).length % 256 ≤ 17) : macstringParser macstr addr = some (false, addr) := by
  rw [macstringParser]
  apply if_pos
  rw [gt_iff_lt, UInt8.lt_iff_toNat_lt, UInt8.toNat_ofNat']
  exact not_le.mp h

theorem macstringParser_of_short {macstr : Bytes} (addr : Addr)
    (h : (cstr macstr).length % 256 ≤ 17) :
    macstringParser macstr addr = parseLoop (covered (cstr macstr)) 0 (addr.set 0 0) := by
  rw [macstringParser]
  apply if_neg
  rw [gt_iff_lt, UInt8.lt_iff_toNat_lt, UInt8.toNat_ofNat']
  exact not_lt.mpr h

theorem parsesMac_iff (macstr : Bytes) (addr : Addr) :
    Parses macstr addr ↔ MeansMac (cstr macstr) := by
  by_cases hlen : (cstr macstr).length % 256 ≤ 17
  · have hexit := parseLoop_exit (covered (cstr macstr)) (addr.set 0 0) (Nat.zero_le 5)
    rw [← macstringParser_of_short addr hlen, Nat.zero_add] at hexit
    split at hexit
    · rename_i hcount
      obtain ⟨after, hafter⟩ := hexit
      have hall : (covered (cstr macstr)).all isMacChar = true ↔
          ∀ c ∈ covered (cstr macstr), isMacChar c = true := List.all_eq_true
      constructor
      · rintro ⟨taken, after', heq, hiff, -⟩ -
        cases hafter.symm.trans heq
        exact ⟨hcount, fun hvalid => hiff.mp (hall.mpr hvalid)⟩
      · intro hmeans
        refine ⟨_, after, hafter, ⟨fun hvalid => (hmeans hlen).2 (hall.mp hvalid), ?_⟩, ?_⟩
        · intro hmac
          obtain ⟨_, heq, -⟩ := macstringParser_of_isMac addr hmac
          exact (Prod.mk.inj (Option.some.inj (hafter.symm.trans heq))).1
        · intro hmac
          obtain ⟨_, heq, hlist⟩ := macstringParser_of_isMac addr hmac
          rw [(Prod.mk.inj (Option.some.inj (hafter.symm.trans heq))).2]
          exact hlist
    · rename_i hcount
      refine iff_of_false ?_ fun hmeans => hcount (hmeans hlen).1
      rintro ⟨taken, after, heq, -⟩
      cases hexit.symm.trans heq
  · refine iff_of_true ⟨false, addr, macstringParser_of_long addr hlen, ?_, ?_⟩
      fun hshort => absurd hshort hlen
    · refine iff_of_false Bool.false_ne_true fun hmac => hlen ?_
      rw [length_of_isMac hmac]
    · intro hmac
      refine absurd ?_ hlen
      rw [length_of_isMac hmac]

/-- Six colons are taken, and the last one writes behind the array. -/
theorem colons_overrun : ¬ Parses (ofString "::::::") (Vector.replicate 6 0) := by
  rintro ⟨taken, after, heq, -⟩
  have hnone : macstringParser (ofString "::::::") (Vector.replicate 6 0) = none := by
    decide
  cases hnone.symm.trans heq

end Sv6x66.Cfg.MacText
