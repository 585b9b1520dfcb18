import Mathlib.Tactic
import Mathlib.Data.List.TakeWhile
import Mathlib.Data.Nat.Digits.Lemmas

/-! Texts of C programs as lists of bytes. A text in memory ends at its first
NUL, whatever the memory holds behind it. -/
namespace Sv6x66.Lib.CString

abbrev Bytes := List UInt8

def ofString (s : String) : Bytes := s.toList.map fun c => UInt8.ofNat c.toNat

/-- Unlike the text, its size in UTF-8 is cheap to evaluate on a literal. -/
theorem length_ofString_le (s : String) : (ofString s).length ≤ s.utf8ByteSize := by
  rw [ofString, List.length_map]
  induction s using String.push_induction with
  | empty => simp
  | push s c ih =>
    have hsize := c.utf8Size_pos
    rw [String.toList_push, List.length_append, List.length_singleton, String.utf8ByteSize_push]
    omega

/-- What stands behind an occurrence. -/
theorem drop_found {α : Type*} {needle hay before after : List α}
    (h : hay = before ++ (needle ++ after)) :
    hay.drop (before.length + needle.length) = after := by
  rw [h, ← List.append_assoc, ← List.length_append]
  exact List.drop_left

section Find

variable {α : Type*} [DecidableEq α]

/-- Index of the first occurrence of `needle`. -/
def find (needle : List α) : List α → Option Nat
  | [] => if needle = [] then some 0 else none
  | a :: rest => if needle <+: a :: rest then some 0 else (find needle rest).map (· + 1)

theorem find_cons_of_starts {needle rest : List α} {a : α} (h : needle <+: a :: rest) :
    find needle (a :: rest) = some 0 := by
  rw [find, if_pos h]

theorem find_cons_of_not_starts {needle rest : List α} {a : α} (h : ¬ needle <+: a :: rest) :
    find needle (a :: rest) = (find needle rest).map (· + 1) := by
  rw [find, if_neg h]

theorem find_add_length_le {needle hay : List α} {i : Nat} (h : find needle hay = some i) :
    i + needle.length ≤ hay.length := by
  induction hay generalizing i with
  | nil =>
    unfold find at h
    split at h
    case isTrue hneedle =>
      cases h
      simp [hneedle]
    case isFalse => cases h
  | cons a rest ih =>
    by_cases hstarts : needle <+: a :: rest
    · rw [find_cons_of_starts hstarts] at h
      cases h
      have hlength := hstarts.length_le
      omega
    · rw [find_cons_of_not_starts hstarts] at h
      obtain ⟨j, hj, rfl⟩ := Option.map_eq_some_iff.mp h
      have hrest := ih hj
      rw [List.length_cons]
      omega

/-- What follows the first occurrence does not matter: an occurrence that
starts earlier would lie in the same bytes. -/
theorem find_append {needle hay : List α} {i : Nat} (h : find needle hay = some i)
    (tail : List α) : find needle (hay ++ tail) = some i := by
  induction hay generalizing i with
  | nil =>
    unfold find at h
    split at h
    case isTrue hneedle =>
      cases h
      cases tail <;> simp [find, hneedle]
    case isFalse => cases h
  | cons a rest ih =>
    by_cases hstarts : needle <+: a :: rest
    · rw [find_cons_of_starts hstarts] at h
      have hlonger : needle <+: a :: (rest ++ tail) :=
        hstarts.trans (List.prefix_append (a :: rest) tail)
      rw [List.cons_append, find_cons_of_starts hlonger, h]
    · have hlength := find_add_length_le h
      rw [find_cons_of_not_starts hstarts] at h
      obtain ⟨j, hj, rfl⟩ := Option.map_eq_some_iff.mp h
      have hlonger : ¬ needle <+: a :: (rest ++ tail) := by
        intro hneedle
        apply hstarts
        apply List.prefix_of_prefix_length_le hneedle
        · exact List.prefix_append (a :: rest) tail
        · omega
      rw [List.cons_append, find_cons_of_not_starts hlonger, ih hj, Option.map_some]

/-- An occurrence whose first byte is not in the text before it is the first. -/
theorem find_of_head_not_mem {a : α} {needle before : List α} (h : a ∉ before) (after : List α) :
    find (a :: needle) (before ++ (a :: needle ++ after)) = some before.length := by
  induction before with
  | nil => exact find_cons_of_starts (List.prefix_append _ _)
  | cons b rest ih =>
    have hb : ¬ a :: needle <+: b :: (rest ++ (a :: needle ++ after)) := by
      intro hstarts
      rw [List.cons_prefix_cons] at hstarts
      exact h (by simp [hstarts.1])
    rw [List.cons_append, find_cons_of_not_starts hb, ih fun hrest => h (by simp [hrest])]
    rfl

/-- The needle stands where it is found. -/
theorem find_starts {needle hay : List α} {i : Nat} (h : find needle hay = some i) :
    needle <+: hay.drop i := by
  induction hay generalizing i with
  | nil =>
    unfold find at h
    split at h
    case isTrue hneedle =>
      cases h
      simp [hneedle]
    case isFalse => cases h
  | cons a rest ih =>
    by_cases hstarts : needle <+: a :: rest
    · rw [find_cons_of_starts hstarts] at h
      cases h
      exact hstarts
    · rw [find_cons_of_not_starts hstarts] at h
      obtain ⟨j, hj, rfl⟩ := Option.map_eq_some_iff.mp h
      exact ih hj

theorem exists_of_find {needle hay : List α} {i : Nat} (h : find needle hay = some i) :
    ∃ before after, hay = before ++ (needle ++ after) ∧ before.length = i := by
  obtain ⟨after, hafter⟩ := find_starts h
  have hlength := find_add_length_le h
  refine ⟨hay.take i, after, ?_, ?_⟩
  · rw [hafter, List.take_append_drop]
  · rw [List.length_take]
    omega

theorem find_singleton_append {a : α} {before : List α} (h : a ∉ before) (after : List α) :
    find [a] (before ++ a :: after) = some before.length :=
  find_of_head_not_mem h after

theorem find_singleton_eq_none {a : α} {text : List α} : find [a] text = none ↔ a ∉ text := by
  constructor
  · intro hnone hmem
    obtain ⟨before, after, rfl, hbefore⟩ := List.eq_append_cons_of_mem hmem
    rw [find_singleton_append hbefore] at hnone
    cases hnone
  · intro hmem
    cases hfind : find [a] text with
    | none => rfl
    | some i =>
      have hstarts := (find_starts hfind).subset (List.mem_singleton_self a)
      exact absurd (List.mem_of_mem_drop hstarts) hmem

theorem exists_of_find_singleton {a : α} {text : List α} {i : Nat} (h : find [a] text = some i) :
    ∃ before after, text = before ++ a :: after ∧ before.length = i ∧ a ∉ before := by
  have hmem : a ∈ text := by
    have hstarts := (find_starts h).subset (List.mem_singleton_self a)
    exact List.mem_of_mem_drop hstarts
  obtain ⟨before, after, rfl, hbefore⟩ := List.eq_append_cons_of_mem hmem
  rw [find_singleton_append hbefore] at h
  exact ⟨before, after, rfl, Option.some.inj h, hbefore⟩

end Find

/-- The text that starts at the beginning of this memory. -/
def cstr (memory : Bytes) : Bytes := memory.takeWhile (· ≠ 0)

def strstr (memory needle : Bytes) : Option Nat := find needle (cstr memory)

theorem cstr_append {text : Bytes} (h : 0 ∉ text) (memory : Bytes) :
    cstr (text ++ memory) = text ++ cstr memory := by
  apply List.takeWhile_append_of_pos
  intro byte hbyte
  simpa using ne_of_mem_of_not_mem hbyte h

theorem cstr_append_of_mem {text : Bytes} (h : 0 ∈ text) (memory : Bytes) :
    cstr (text ++ memory) = cstr text := by
  obtain ⟨before, after, rfl, hbefore⟩ := List.eq_append_cons_of_mem h
  rw [List.append_assoc, cstr_append hbefore, cstr_append hbefore]
  rfl

theorem drop_append_of_ended {done : Bytes} {start : Nat} (h : 0 ∈ done.drop start)
    (rest : Bytes) : (done ++ rest).drop start = done.drop start ++ rest := by
  apply List.drop_append_of_le_length
  by_contra hgt
  rw [List.drop_eq_nil_of_le (by omega)] at h
  cases h

theorem cstr_of_ended {done : Bytes} {start : Nat} (h : 0 ∈ done.drop start) (rest : Bytes) :
    cstr ((done ++ rest).drop start) = cstr (done.drop start) := by
  rw [drop_append_of_ended h, cstr_append_of_mem h]

theorem cstr_of_not_mem {text : Bytes} (h : 0 ∉ text) : cstr text = text := by
  have happend := cstr_append h []
  rwa [List.append_nil, show cstr [] = [] from rfl, List.append_nil] at happend

theorem zero_not_mem_cstr (memory : Bytes) : 0 ∉ cstr memory := by
  intro hmem
  exact absurd (List.mem_takeWhile_imp hmem) (by decide)

theorem cstr_drop {memory : Bytes} {k : Nat} (h : k ≤ (cstr memory).length) :
    cstr (memory.drop k) = (cstr memory).drop k := by
  induction memory generalizing k with
  | nil => simp [cstr]
  | cons byte memory ih =>
    cases k with
    | zero => rfl
    | succ k =>
      by_cases hbyte : byte = 0
      · simp [cstr, hbyte] at h
      · have htext : cstr (byte :: memory) = byte :: cstr memory := by simp [cstr, hbyte]
        rw [htext] at h ⊢
        exact ih (Nat.le_of_succ_le_succ h)

/-- No byte of the text is the NUL. -/
theorem zero_mem_drop {memory : Bytes} {k : Nat} (h : k ≤ (cstr memory).length) :
    0 ∈ memory.drop k ↔ 0 ∈ memory := by
  induction memory generalizing k with
  | nil => simp
  | cons byte memory ih =>
    cases k with
    | zero => rfl
    | succ k =>
      by_cases hbyte : byte = 0
      · simp [cstr, hbyte] at h
      · have htext : cstr (byte :: memory) = byte :: cstr memory := by simp [cstr, hbyte]
        rw [htext] at h
        rw [List.drop_succ_cons, ih (Nat.le_of_succ_le_succ h), List.mem_cons]
        exact (or_iff_right (Ne.symm hbyte)).symm

theorem strstr_append {text needle : Bytes} {i : Nat} (h : 0 ∉ text)
    (hfind : find needle text = some i) (memory : Bytes) :
    strstr (text ++ memory) needle = some i := by
  rw [strstr, cstr_append h, find_append hfind]

def isDigit (byte : UInt8) : Bool := 48 ≤ byte.toNat && byte.toNat ≤ 57

def isSpace (byte : UInt8) : Bool := byte.toNat = 32 || (9 ≤ byte.toNat && byte.toNat ≤ 13)

def digitsValue (text : Bytes) : Nat :=
  (text.takeWhile isDigit).foldl (fun value byte => 10 * value + (byte.toNat - 48)) 0

/-- The number a text starts with, before any limit of the C type. -/
def atoi (text : Bytes) : Int :=
  match text.dropWhile isSpace with
  | [] => 0
  | sign :: digits =>
    if sign.toNat = 45 then -(digitsValue digits : Int)
    else if sign.toNat = 43 then digitsValue digits
    else digitsValue (sign :: digits)

/-- What `atoi` makes of a number beyond `int`, which C leaves open. -/
class AtoiBeyond where
  beyond : Bytes → Int

/-- `atoi` with its result as an `int`. -/
def atoiInt [AtoiBeyond] (text : Bytes) : Int :=
  if -2 ^ 31 ≤ atoi text ∧ atoi text < 2 ^ 31 then atoi text else AtoiBeyond.beyond text

theorem atoiInt_eq [AtoiBeyond] {text : Bytes} {n : Nat} (h : atoi text = n) (hn : n < 2 ^ 31) :
    atoiInt text = n := by
  rw [atoiInt, if_pos (by omega), h]

/-- `atoi` by way of a `strtol` that saturates. -/
@[reducible] def saturating : AtoiBeyond where
  beyond text := if atoi text < 0 then -2 ^ 31 else 2 ^ 31 - 1

/-- The value of a digit of any base up to 36. -/
def digitOf (byte : UInt8) : Option Nat :=
  if isDigit byte then some (byte.toNat - 48)
  else if 97 ≤ byte.toNat ∧ byte.toNat ≤ 122 then some (byte.toNat - 87)
  else if 65 ≤ byte.toNat ∧ byte.toNat ≤ 90 then some (byte.toNat - 55)
  else none

/-- The digits of the base that a text starts with. -/
def leadingDigits (base : Nat) (text : Bytes) : List Nat :=
  ((text.map digitOf).takeWhile fun digit => digit.any (· < base)).reduceOption

/-- `0x` before a number of base 16. -/
def afterHexPrefix (base : Nat) (text : Bytes) : Bytes :=
  match text with
  | zero :: x :: rest =>
    if base = 16 ∧ zero.toNat = 48 ∧ (x.toNat = 120 ∨ x.toNat = 88) then rest else text
  | _ => text

def magnitude (base : Nat) (text : Bytes) : Nat :=
  Nat.ofDigits base (leadingDigits base (afterHexPrefix base text)).reverse

/-- `strtoul` of an `unsigned long` of 32 bits: saturated, and a sign negates. -/
def strtoul (base : Nat) (text : Bytes) : Nat :=
  let (negative, digits) : Bool × Bytes :=
    match text.dropWhile isSpace with
    | [] => (false, [])
    | sign :: digits =>
      if sign.toNat = 45 then (true, digits)
      else if sign.toNat = 43 then (false, digits)
      else (false, sign :: digits)
  let value := magnitude base digits
  if 2 ^ 32 ≤ value then 2 ^ 32 - 1
  else if negative then (2 ^ 32 - value) % 2 ^ 32
  else value

/-- `strtol` of a `long` of 32 bits: the value, saturated, and the text at `endptr`. -/
def strtol (base : Nat) (text : Bytes) : Int × Bytes :=
  let (negative, body) : Bool × Bytes :=
    match text.dropWhile isSpace with
    | [] => (false, [])
    | sign :: digits =>
      if sign.toNat = 45 then (true, digits)
      else if sign.toNat = 43 then (false, digits)
      else (false, sign :: digits)
  let number := if leadingDigits base (afterHexPrefix base body) = [] then body
    else afterHexPrefix base body
  let digits := leadingDigits base number
  if digits = [] then (0, text)
  else
    let value : Int := (Nat.ofDigits base digits.reverse : Nat)
    (max (-2 ^ 31) (min (2 ^ 31 - 1) (if negative then -value else value)),
      number.drop digits.length)

def digitByte (digit : Nat) : UInt8 := UInt8.ofNat (48 + digit)

/-- The decimal text of a number, without leading zeros (empty for 0). -/
def decimal (n : Nat) : Bytes := ((Nat.digits 10 n).map digitByte).reverse

theorem toNat_digitByte {digit : Nat} (h : digit < 10) : (digitByte digit).toNat = 48 + digit := by
  unfold digitByte
  rw [UInt8.toNat_ofNat', Nat.mod_eq_of_lt (by omega)]

theorem isDigit_digitByte {digit : Nat} (h : digit < 10) : isDigit (digitByte digit) = true := by
  have hbyte := toNat_digitByte h
  simp only [isDigit, hbyte, Bool.and_eq_true, decide_eq_true_eq]
  omega

theorem isDigit_of_mem_decimal {n : Nat} {byte : UInt8} (h : byte ∈ decimal n) :
    isDigit byte = true := by
  unfold decimal at h
  rw [List.mem_reverse, List.mem_map] at h
  obtain ⟨digit, hdigit, rfl⟩ := h
  exact isDigit_digitByte (Nat.digits_lt_base (by decide) hdigit)

/-- Digits before something else, in the order of the text. -/
theorem digitsValue_append {digits : List Nat} (hdigits : ∀ digit ∈ digits, digit < 10)
    {rest : Bytes} (hrest : ∀ byte ∈ rest.head?, isDigit byte = false) :
    digitsValue (digits.map digitByte ++ rest) = Nat.ofDigits 10 digits.reverse := by
  have htake : (digits.map digitByte ++ rest).takeWhile isDigit = digits.map digitByte := by
    rw [List.takeWhile_append_of_pos]
    · cases rest with
      | nil => simp
      | cons byte rest => simp [hrest byte rfl]
    · intro byte hbyte
      obtain ⟨digit, hdigit, rfl⟩ := List.mem_map.mp hbyte
      exact isDigit_digitByte (hdigits digit hdigit)
  unfold digitsValue
  rw [htake]
  clear htake
  induction digits using List.reverseRecOn with
  | nil => rfl
  | append_singleton before digit ih =>
    have hbefore := ih fun d hd => hdigits d (List.mem_append_left _ hd)
    have hbyte := toNat_digitByte (hdigits digit (List.mem_append_right _ (List.mem_singleton_self _)))
    rw [List.map_append, List.foldl_append, hbefore, List.reverse_append]
    simp only [List.map_cons, List.map_nil, List.foldl_cons, List.foldl_nil, hbyte,
      List.reverse_singleton, List.singleton_append, Nat.ofDigits_cons]
    omega

theorem atoi_append {digit : Nat} {digits : List Nat}
    (hdigits : ∀ d ∈ digit :: digits, d < 10)
    {rest : Bytes} (hrest : ∀ byte ∈ rest.head?, isDigit byte = false) :
    atoi ((digit :: digits).map digitByte ++ rest) =
      (Nat.ofDigits 10 (digit :: digits).reverse : Nat) := by
  have hvalue := digitsValue_append hdigits hrest
  have hbyte := toNat_digitByte (hdigits digit List.mem_cons_self)
  have hdigit := hdigits digit List.mem_cons_self
  have hspace : isSpace (digitByte digit) = false := by
    simp only [isSpace, hbyte, Bool.or_eq_false_iff, Bool.and_eq_false_iff,
      decide_eq_false_iff_not]
    omega
  unfold atoi
  rw [List.map_cons, List.cons_append] at *
  rw [List.dropWhile_cons_of_neg (by simp [hspace])]
  simp only
  rw [if_neg (by omega), if_neg (by omega), hvalue]

/-- A number written with any digits, leading zeros included. -/
theorem atoi_of_digits {text rest : Bytes} (hne : text ≠ [])
    (hdigits : ∀ byte ∈ text, isDigit byte = true)
    (hrest : ∀ byte ∈ rest.head?, isDigit byte = false) :
    atoi (text ++ rest) = digitsValue text := by
  obtain ⟨byte, tail, rfl⟩ := List.exists_cons_of_ne_nil hne
  have hbyte := hdigits byte List.mem_cons_self
  have hrange : 48 ≤ byte.toNat ∧ byte.toNat ≤ 57 := by simpa [isDigit] using hbyte
  have hspace : isSpace byte = false := by
    simp only [isSpace, Bool.or_eq_false_iff, Bool.and_eq_false_iff, decide_eq_false_iff_not]
    omega
  have hstop : rest.takeWhile isDigit = [] := by
    cases rest with
    | nil => rfl
    | cons next rest => exact List.takeWhile_cons_of_neg (by simp [hrest next rfl])
  have hall : (byte :: tail).takeWhile isDigit = byte :: tail :=
    List.takeWhile_eq_self_iff.mpr hdigits
  unfold atoi
  rw [List.cons_append, List.dropWhile_cons_of_neg (by simp [hspace])]
  dsimp only
  rw [if_neg (by omega), if_neg (by omega), ← List.cons_append]
  unfold digitsValue
  rw [List.takeWhile_append_of_pos hdigits, hstop, List.append_nil, hall]

theorem digits_reverse_lt {n digit : Nat} (h : digit ∈ (Nat.digits 10 n).reverse) : digit < 10 :=
  Nat.digits_lt_base (by decide) (List.mem_reverse.mp h)

theorem atoi_decimal (n : Nat) : atoi (decimal n) = n := by
  have hlt : ∀ digit ∈ (Nat.digits 10 n).reverse, digit < 10 := fun _ => digits_reverse_lt
  have hvalue : Nat.ofDigits 10 (Nat.digits 10 n).reverse.reverse = n := by
    rw [List.reverse_reverse, Nat.ofDigits_digits]
  unfold decimal
  rw [← List.map_reverse]
  cases htext : (Nat.digits 10 n).reverse with
  | nil =>
    rw [htext] at hvalue
    exact congrArg Nat.cast hvalue
  | cons digit digits =>
    rw [htext] at hlt hvalue
    rw [← List.append_nil (List.map digitByte (digit :: digits)), atoi_append hlt (by simp), hvalue]

theorem length_decimal_le {n k : Nat} (h : n < 10 ^ k) : (decimal n).length ≤ k := by
  unfold decimal
  rw [List.length_reverse, List.length_map]
  exact (Nat.digits_length_le_iff (by decide) n).mpr h

theorem not_mem_decimal {byte : UInt8} (h : isDigit byte = false) (n : Nat) :
    byte ∉ decimal n := by
  intro hbyte
  rw [isDigit_of_mem_decimal hbyte] at h
  cases h

/-- What `(unsigned char)` keeps of a number that is not negative. -/
theorem uint8_ofInt (n : Nat) : UInt8.ofInt n = UInt8.ofNat n := by
  unfold UInt8.ofInt
  rw [← UInt8.toNat_inj, UInt8.toNat_ofNat', UInt8.toNat_ofNat']
  omega

/-- The digits of a number end at a byte that is none. -/
theorem leadingDigits_append {base : Nat} {group : Bytes} {digits : List Nat}
    (hgroup : group.map digitOf = digits.map some) (hlt : ∀ digit ∈ digits, digit < base)
    {rest : Bytes} (hrest : ∀ byte ∈ rest.head?, digitOf byte = none) :
    leadingDigits base (group ++ rest) = digits := by
  have htake : ((group ++ rest).map digitOf).takeWhile (fun digit => digit.any (· < base)) =
      digits.map some := by
    rw [List.map_append, hgroup, List.takeWhile_append_of_pos]
    · cases rest with
      | nil => simp
      | cons byte rest => simp [hrest byte rfl]
    · intro digit hdigit
      obtain ⟨d, hd, rfl⟩ := List.mem_map.mp hdigit
      simpa using hlt d hd
  unfold leadingDigits List.reduceOption
  rw [htake, List.filterMap_map]
  exact List.filterMap_some

theorem digitOf_eq_some_iff {byte : UInt8} {digit : Nat} : digitOf byte = some digit ↔
    (48 ≤ byte.toNat ∧ byte.toNat ≤ 57 ∧ digit = byte.toNat - 48) ∨
      (97 ≤ byte.toNat ∧ byte.toNat ≤ 122 ∧ digit = byte.toNat - 87) ∨
      (65 ≤ byte.toNat ∧ byte.toNat ≤ 90 ∧ digit = byte.toNat - 55) := by
  have hdigit : isDigit byte = true ↔ 48 ≤ byte.toNat ∧ byte.toNat ≤ 57 := by
    rw [isDigit, Bool.and_eq_true, decide_eq_true_eq, decide_eq_true_eq]
  rw [digitOf, if_congr hdigit rfl rfl]
  split_ifs
  · rw [Option.some_inj]
    omega
  · rw [Option.some_inj]
    omega
  · rw [Option.some_inj]
    omega
  · rw [false_iff]
    omega

theorem not_space_of_digitOf {byte : UInt8} {digit : Nat} (h : digitOf byte = some digit) :
    isSpace byte = false ∧ byte.toNat ≠ 45 ∧ byte.toNat ≠ 43 := by
  rw [digitOf_eq_some_iff] at h
  simp only [isSpace, Bool.or_eq_false_iff, Bool.and_eq_false_iff, decide_eq_false_iff_not]
  omega

theorem not_x_of_digitOf {byte : UInt8} (h : ∀ digit, digitOf byte = some digit → digit < 16) :
    byte.toNat ≠ 120 ∧ byte.toNat ≠ 88 := by
  constructor
  · intro hx
    have h33 : digitOf byte = some 33 := by simp [digitOf, isDigit, hx]
    exact absurd (h 33 h33) (by decide)
  · intro hx
    have h33 : digitOf byte = some 33 := by simp [digitOf, isDigit, hx]
    exact absurd (h 33 h33) (by decide)

section Hex

variable {group : Bytes} {digits : List Nat}

theorem exists_digit (hgroup : group.map digitOf = digits.map some) {byte : UInt8}
    (hbyte : byte ∈ group) : ∃ digit ∈ digits, digitOf byte = some digit := by
  have hmem : digitOf byte ∈ group.map digitOf := List.mem_map_of_mem hbyte
  rw [hgroup] at hmem
  obtain ⟨digit, hdigit, heq⟩ := List.mem_map.mp hmem
  exact ⟨digit, hdigit, heq.symm⟩

/-- Digits have no `0x` in front: the second byte is a digit, or ends the number. -/
theorem afterHexPrefix_digits (hgroup : group.map digitOf = digits.map some)
    (hlt : ∀ digit ∈ digits, digit < 16) (hne : group ≠ []) {rest : Bytes}
    (hrest : ∀ byte ∈ rest.head?, digitOf byte = none) :
    afterHexPrefix 16 (group ++ rest) = group ++ rest := by
  have hin : ∀ byte ∈ group, ∃ digit ∈ digits, digitOf byte = some digit :=
    fun byte => exists_digit hgroup
  unfold afterHexPrefix
  split
  · rename_i zero x others htext
    have hx : ∀ digit, digitOf x = some digit → digit < 16 := by
      intro digit hdigit
      match group, hin, htext with
      | [], _, _ => exact absurd rfl hne
      | [_], _, htext =>
        have hhead : rest.head? = some x := by
          rw [List.singleton_append] at htext
          rw [(List.cons.inj htext).2]
          rfl
        rw [hrest x hhead] at hdigit
        cases hdigit
      | _ :: second :: _, hin, htext =>
        have hsecond : second = x := (List.cons.inj (List.cons.inj htext).2).1
        obtain ⟨d, hd, heq⟩ := hin second (by simp)
        rw [hsecond, hdigit] at heq
        cases heq
        exact hlt digit hd
    obtain ⟨h120, h88⟩ := not_x_of_digitOf hx
    rw [if_neg (by omega)]
  · rfl

/-- A hexadecimal number in front of a byte that is no digit. -/
theorem strtol_hex (hgroup : group.map digitOf = digits.map some)
    (hlt : ∀ digit ∈ digits, digit < 16) (hne : digits ≠ [])
    (hsmall : Nat.ofDigits 16 digits.reverse < 2 ^ 31) {rest : Bytes}
    (hrest : ∀ byte ∈ rest.head?, digitOf byte = none) :
    strtol 16 (group ++ rest) = (((Nat.ofDigits 16 digits.reverse : Nat) : Int), rest) := by
  have hleading := leadingDigits_append hgroup hlt hrest
  have hlength : digits.length = group.length := by simpa using (congrArg List.length hgroup).symm
  cases group with
  | nil => exact absurd (List.length_eq_zero_iff.mp hlength) hne
  | cons first group =>
    have hplain := afterHexPrefix_digits hgroup hlt (List.cons_ne_nil first group) hrest
    obtain ⟨digit, -, hdigit⟩ := exists_digit hgroup List.mem_cons_self
    obtain ⟨hspace, hminus, hplus⟩ := not_space_of_digitOf hdigit
    unfold strtol
    rw [List.cons_append, List.dropWhile_cons_of_neg (by simp [hspace])]
    simp only [if_neg hminus, if_neg hplus]
    rw [List.cons_append] at hplain hleading
    rw [hplain, hleading, if_neg hne, hleading, if_neg hne]
    refine Prod.ext ?_ ?_
    · simp only [Bool.false_eq_true, if_false]
      omega
    · rw [hlength, ← List.cons_append]
      exact List.drop_left

end Hex

end Sv6x66.Lib.CString
