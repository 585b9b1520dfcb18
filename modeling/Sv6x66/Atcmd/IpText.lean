import Sv6x66.Lib.CString
import Sv6x66.Lib.Words
import Sv6x66.Atcmd.CommandLine

/-! `ip2int` of `atcmd.c`: an address is copied, cut at dots and spaces, and four of the
pieces are converted. -/
namespace Sv6x66.Atcmd.IpText
open Sv6x66.Lib
open Sv6x66.Lib.CString
open Sv6x66.Lib.Words
open Sv6x66.Atcmd.CommandLine

def delimiters : Bytes := ofString " ."

def isDelimiter (byte : UInt8) : Bool := delimiters.contains byte

/-- A token, and where `strtok(NULL, delimiters)` goes on; behind the last one it stays
at the end. -/
def strtok (text : Bytes) : Option Bytes × Bytes :=
  match first isDelimiter text with
  | none => (none, [])
  | some (token, rest) => (some token, rest)

abbrev IpAddr := Vector UInt8 4

/-- `(u8)atoi(text)`, where `beyond` is what `atoi` makes of a number beyond `int`. -/
def octet (beyond : Bytes → Int) (text : Bytes) : UInt8 :=
  UInt8.ofInt (if -2 ^ 31 ≤ atoi text ∧ atoi text < 2 ^ 31 then atoi text else beyond text)

/-- `sizeof(cp)`. -/
def cpSize : Nat := 16

/-- There is no result if the copy runs over `cp`. -/
def ip2int (beyond : Bytes → Int) (pStr : Bytes) (ipaddr : IpAddr) : Option (Int × IpAddr) :=
  if (cstr pStr).length + 1 ≤ cpSize then
    let (pIp1, rest) := strtok (cstr pStr)
    let (pIp2, rest) := strtok rest
    let (pIp3, rest) := strtok rest
    let (pIp4, _) := strtok rest
    match pIp1, pIp2, pIp3, pIp4 with
    | some pIp1, some pIp2, some pIp3, some pIp4 =>
      some (errorSuccess,
        #v[octet beyond pIp1, octet beyond pIp2, octet beyond pIp3, octet beyond pIp4])
    | _, _, _, _ => some (errorInvalidParameter, ipaddr)
  else none

/-! ### What it is for -/

def dot : UInt8 := 46

def IsOctet (field : Bytes) : Prop :=
  field ≠ [] ∧ (∀ byte ∈ field, isDigit byte = true) ∧ digitsValue field ≤ 255

instance (field : Bytes) : Decidable (IsOctet field) :=
  haveI : Decidable (∀ byte ∈ field, isDigit byte = true) := List.decidableBAll _ _
  inferInstanceAs (Decidable (_ ∧ _ ∧ _))

/-- Four octets with single dots between them. -/
def DottedQuad (text : Bytes) : Prop :=
  (text.splitOn dot).length = 4 ∧ ∀ field ∈ text.splitOn dot, IsOctet field

instance (text : Bytes) : Decidable (DottedQuad text) := by
  unfold DottedQuad
  infer_instance

/-- The text is parsed inside `cp`, and taken exactly if it is a dotted quad. -/
def Parses (beyond : Bytes → Int) (pStr : Bytes) (ipaddr : IpAddr) : Prop :=
  ∃ result addr, ip2int beyond pStr ipaddr = some (result, addr) ∧
    (result = errorSuccess ↔ DottedQuad (cstr pStr)) ∧
    (DottedQuad (cstr pStr) →
      addr.toList.map UInt8.toNat = ((cstr pStr).splitOn dot).map digitsValue)

/-- No malformed text has four fields. -/
def FieldsMeanQuad (text : Bytes) : Prop :=
  4 ≤ (words isDelimiter text).length → DottedQuad text

/-! ### The tokens -/

/-- The first four words. -/
def ofWords (beyond : Bytes → Int) (ipaddr : IpAddr) : List Bytes → Int × IpAddr
  | a :: b :: c :: d :: _ =>
    (errorSuccess, #v[octet beyond a, octet beyond b, octet beyond c, octet beyond d])
  | _ => (errorInvalidParameter, ipaddr)

theorem strtok_fst (text : Bytes) : (strtok text).1 = (words isDelimiter text).head? := by
  unfold strtok
  cases hfirst : first isDelimiter text with
  | none => rw [words_of_first_none hfirst, List.head?_nil]
  | some found => rw [words_of_first_some hfirst, List.head?_cons]

theorem words_strtok_snd (text : Bytes) :
    words isDelimiter (strtok text).2 = (words isDelimiter text).tail := by
  unfold strtok
  cases hfirst : first isDelimiter text with
  | none => rw [words_of_first_none hfirst, words_nil, List.tail_nil]
  | some found => rw [words_of_first_some hfirst, List.tail_cons]

theorem ip2int_eq (beyond : Bytes → Int) {pStr : Bytes} (ipaddr : IpAddr)
    (h : (cstr pStr).length + 1 ≤ cpSize) :
    ip2int beyond pStr ipaddr = some (ofWords beyond ipaddr (words isDelimiter (cstr pStr))) := by
  rw [ip2int, if_pos h]
  simp only [strtok_fst, words_strtok_snd]
  match words isDelimiter (cstr pStr) with
  | [] | [_] | [_, _] | [_, _, _] | _ :: _ :: _ :: _ :: _ => rfl

theorem ofWords_success_iff (beyond : Bytes → Int) (ipaddr : IpAddr) (fields : List Bytes) :
    (ofWords beyond ipaddr fields).1 = errorSuccess ↔ 4 ≤ fields.length := by
  match fields with
  | [] | [_] | [_, _] | [_, _, _] =>
    exact iff_of_false (show errorInvalidParameter ≠ errorSuccess by decide) (by simp)
  | _ :: _ :: _ :: _ :: _ => exact iff_of_true rfl (by simp)

/-! ### Dotted quads -/

theorem not_delimiter_of_digit {byte : UInt8} (h : isDigit byte = true) :
    isDelimiter byte = false := by
  have hdelimiters : delimiters = [32, 46] := by decide
  simp only [isDigit, Bool.and_eq_true, decide_eq_true_eq] at h
  rw [isDelimiter, hdelimiters, List.contains_eq_mem, decide_eq_false_iff_not]
  intro hmem
  simp only [List.mem_cons, List.not_mem_nil, or_false] at hmem
  obtain rfl | rfl := hmem
  · exact absurd h.1 (by decide)
  · exact absurd h.1 (by decide)

theorem words_of_quad {text : Bytes} (h : DottedQuad text) :
    words isDelimiter text = text.splitOn dot := by
  have hfields : ∀ field ∈ text.splitOn dot, field ≠ [] ∧
      ∀ byte ∈ field, isDelimiter byte = false := by
    intro field hfield
    obtain ⟨hne, hdigits, -⟩ := h.2 field hfield
    exact ⟨hne, fun byte hbyte => not_delimiter_of_digit (hdigits byte hbyte)⟩
  have hwords := words_intercalate (show isDelimiter dot = true by decide) hfields
  rwa [List.intercalate_splitOn] at hwords

theorem toNat_octet (beyond : Bytes → Int) {field : Bytes} (h : IsOctet field) :
    (octet beyond field).toNat = digitsValue field := by
  obtain ⟨hne, hdigits, hvalue⟩ := h
  have hatoi : atoi field = digitsValue field := by
    have hfield : atoi (field ++ []) = digitsValue field := atoi_of_digits hne hdigits (by simp)
    rwa [List.append_nil] at hfield
  rw [octet, if_pos (by omega), hatoi, uint8_ofInt, UInt8.toNat_ofNat']
  exact Nat.mod_eq_of_lt (by omega)

theorem ofWords_quad (beyond : Bytes → Int) (ipaddr : IpAddr) {fields : List Bytes}
    (hlength : fields.length = 4) (hfields : ∀ field ∈ fields, IsOctet field) :
    (ofWords beyond ipaddr fields).2.toList.map UInt8.toNat = fields.map digitsValue := by
  match fields, hlength with
  | [a, b, c, d], _ =>
    simp only [List.mem_cons, List.not_mem_nil, or_false, forall_eq_or_imp, forall_eq] at hfields
    obtain ⟨ha, hb, hc, hd⟩ := hfields
    change [(octet beyond a).toNat, (octet beyond b).toNat, (octet beyond c).toNat,
      (octet beyond d).toNat] = _
    rw [toNat_octet beyond ha, toNat_octet beyond hb, toNat_octet beyond hc,
      toNat_octet beyond hd]
    rfl

/-- The parser counts fields, and does not look at what is in them. -/
theorem parses_iff (beyond : Bytes → Int) (pStr : Bytes) (ipaddr : IpAddr) :
    Parses beyond pStr ipaddr ↔
      (cstr pStr).length + 1 ≤ cpSize ∧ FieldsMeanQuad (cstr pStr) := by
  by_cases hfits : (cstr pStr).length + 1 ≤ cpSize
  · have heq := ip2int_eq beyond ipaddr hfits
    have hsuccess := ofWords_success_iff beyond ipaddr (words isDelimiter (cstr pStr))
    have hvalue (hquad : DottedQuad (cstr pStr)) := ofWords_quad beyond ipaddr hquad.1 hquad.2
    constructor
    · rintro ⟨result, addr, hresult, hiff, -⟩
      have hfound := Option.some.inj (heq.symm.trans hresult)
      rw [hfound] at hsuccess
      exact ⟨hfits, fun hfour => hiff.mp (hsuccess.mpr hfour)⟩
    · rintro ⟨-, hmean⟩
      refine ⟨(ofWords beyond ipaddr _).1, (ofWords beyond ipaddr _).2, heq, ?_, ?_⟩
      · rw [hsuccess]
        refine ⟨hmean, fun hquad => ?_⟩
        rw [words_of_quad hquad, hquad.1]
      · intro hquad
        rw [words_of_quad hquad]
        exact hvalue hquad
  · refine iff_of_false ?_ fun h => hfits h.1
    rintro ⟨result, addr, hresult, -⟩
    rw [ip2int, if_neg hfits] at hresult
    cases hresult

/-- 256 is taken for 0. -/
theorem octet_wraps :
    ¬ Parses (fun _ => 0) (ofString "256.1.1.1") (Vector.replicate 4 0) := by
  rintro ⟨result, addr, hresult, hiff, -⟩
  have heq : ip2int (fun _ => 0) (ofString "256.1.1.1") (Vector.replicate 4 0) =
      some (errorSuccess, #v[0, 1, 1, 1]) := by decide +kernel
  cases hresult.symm.trans heq
  exact absurd (hiff.mp rfl) (by decide)

end Sv6x66.Atcmd.IpText
