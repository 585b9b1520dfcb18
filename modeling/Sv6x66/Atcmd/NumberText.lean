import Sv6x66.Lib.CString
import Mathlib.Data.List.ReduceOption

/-! `ssv6xxx_atoi_base` and `ssv6xxx_atoi` of `ssv_lib.c`. -/
namespace Sv6x66.Atcmd.NumberText
open Sv6x66.Lib.CString

def zero : UInt8 := 48
def minus : UInt8 := 45

/-- What the loop computes of a character: characters in front of the digits or the letters
wrap around. -/
def index (base v : UInt32) : UInt32 :=
  let index := v - 48
  if index > 10 ∧ base = 16 then (if v ≥ 97 then v - 97 else v - 65) + 10 else index

/-- The loop of `ssv6xxx_atoi_base`: its value, and what it leaves of the text. -/
def atoiBaseLoop (base : UInt32) : Bytes → UInt32 → UInt32 × Bytes
  | [], value => (value, [])
  | c :: s, value =>
    if c = 0 then (value, c :: s)
    else if index base c.toUInt32 > base - 1 then (value, c :: s)
    else atoiBaseLoop base s (value * base + index base c.toUInt32)

def ssv6xxxAtoiBase (s : Bytes) (base : UInt32) : UInt32 := (atoiBaseLoop base s 0).1

def isX (c : UInt8) : Bool := c = 120 || c = 88
def isB (c : UInt8) : Bool := c = 98 || c = 66

/-- The end of a list is read as the NUL. -/
def ssv6xxxAtoi : Bytes → Int32
  | [] => (ssv6xxxAtoiBase [] 10).toInt32
  | c :: s =>
    if c = zero then
      match s with
      | [] => 0
      | d :: s =>
        if isX d then (ssv6xxxAtoiBase s 16).toInt32
        else if isB d then (ssv6xxxAtoiBase s 2).toInt32
        else 0
    else if c = minus then -(ssv6xxxAtoiBase s 10).toInt32
    else (ssv6xxxAtoiBase (c :: s) 10).toInt32

/-! ### What it is for -/

/-- The number that a text starts with, 0 without a digit. -/
def numberOf (base : Nat) (s : Bytes) : Nat := Nat.ofDigits base (leadingDigits base s).reverse

/-- The value of the longest prefix of digits, and nothing behind it is looked into. -/
def ReadsPrefix (base : UInt32) (s : Bytes) : Prop :=
  ssv6xxxAtoiBase s base = UInt32.ofNat (numberOf base.toNat s) ∧
    (atoiBaseLoop base s 0).2 = s.drop (leadingDigits base.toNat s).length

/-- The numeral a text starts with. A prefix without a digit behind it is the numeral 0. -/
def numeralOf : Bytes → Int
  | [] => 0
  | c :: s =>
    if c = minus then -(numberOf 10 s : Int)
    else if c = zero then
      match s with
      | [] => 0
      | d :: s =>
        if isX d then numberOf 16 s
        else if isB d then numberOf 2 s
        else numberOf 10 (d :: s)
    else numberOf 10 (c :: s)

def ReadsNumeral (s : Bytes) : Prop := ssv6xxxAtoi s = Int32.ofInt (numeralOf s)

/-- The characters between `9` and `A`. -/
def isBetween (c : UInt8) : Bool := 58 ≤ c && c ≤ 64

/-! ### The loop -/

/-- The digit a character is taken for. -/
def counted (base : UInt32) (c : UInt8) : Option Nat :=
  if c = 0 ∨ index base c.toUInt32 > base - 1 then none
  else some (index base c.toUInt32).toNat

/-- The digits at the beginning of a text, with any reading of the characters. -/
def prefixDigits (digit : UInt8 → Option Nat) : Bytes → List Nat
  | [] => []
  | c :: s =>
    match digit c with
    | some d => d :: prefixDigits digit s
    | none => []

theorem leadingDigits_eq (base : Nat) (s : Bytes) :
    leadingDigits base s = prefixDigits (fun c => (digitOf c).filter (· < base)) s := by
  induction s with
  | nil => rfl
  | cons c s ih =>
    rw [leadingDigits] at ih ⊢
    rw [prefixDigits, List.map_cons]
    cases hdigit : digitOf c with
    | none => rfl
    | some d =>
      by_cases hlt : d < base
      · rw [List.takeWhile_cons_of_pos (by simpa using hlt), List.reduceOption_cons_of_some, ih,
          Option.filter_some, if_pos (by simpa using hlt)]
      · rw [List.takeWhile_cons_of_neg (by simpa using hlt), Option.filter_some,
          if_neg (by simpa using hlt)]
        rfl

theorem atoiBaseLoop_eq (base : UInt32) (s : Bytes) (value : Nat) :
    atoiBaseLoop base s (UInt32.ofNat value) =
      (UInt32.ofNat ((prefixDigits (counted base) s).foldl
        (fun value digit => value * base.toNat + digit) value),
        s.drop (prefixDigits (counted base) s).length) := by
  induction s generalizing value with
  | nil => rfl
  | cons c s ih =>
    rw [atoiBaseLoop, prefixDigits]
    by_cases hend : c = 0 ∨ index base c.toUInt32 > base - 1
    · rw [counted, if_pos hend]
      rcases hend with hzero | hover
      · exact if_pos hzero
      · rw [if_pos hover, ite_self]
        rfl
    · obtain ⟨hzero, hover⟩ := not_or.mp hend
      have hnext := ih (value * base.toNat + (index base c.toUInt32).toNat)
      rw [UInt32.ofNat_add, UInt32.ofNat_mul, UInt32.ofNat_toNat, UInt32.ofNat_toNat] at hnext
      rw [if_neg hzero, if_neg hover, counted, if_neg hend, hnext]
      rfl

theorem foldl_eq_ofDigits (base : Nat) (digits : List Nat) :
    digits.foldl (fun value digit => value * base + digit) 0 =
      Nat.ofDigits base digits.reverse := by
  rw [Nat.ofDigits_eq_foldr, List.foldr_reverse]
  congr 1
  funext value digit
  rw [Nat.cast_id, Nat.add_comm, Nat.mul_comm]

theorem ssv6xxxAtoiBase_eq (s : Bytes) (base : UInt32) :
    ssv6xxxAtoiBase s base = UInt32.ofNat
      (Nat.ofDigits base.toNat (prefixDigits (counted base) s).reverse) := by
  rw [← foldl_eq_ofDigits]
  exact congrArg Prod.fst (atoiBaseLoop_eq base s 0)

theorem rest_eq (s : Bytes) (base : UInt32) :
    (atoiBaseLoop base s 0).2 = s.drop (prefixDigits (counted base) s).length :=
  congrArg Prod.snd (atoiBaseLoop_eq base s 0)

/-! ### What is taken for a digit -/

/-- A character in front of `0` wraps around. -/
theorem toNat_sub_zero (c : UInt8) : (c.toUInt32 - 48).toNat =
    if c.toNat < 48 then 2 ^ 32 - 48 + c.toNat else c.toNat - 48 := by
  have hc := c.toNat_lt
  rw [UInt32.toNat_sub, UInt8.toNat_toUInt32, UInt32.toNat_ofNat_of_lt (by decide)]
  split <;> omega

theorem counted_eq_some_iff {base : UInt32} (hpos : 0 < base.toNat) (c : UInt8) (d : Nat) :
    counted base c = some d ↔
      c.toNat ≠ 0 ∧ d = (index base c.toUInt32).toNat ∧ d < base.toNat := by
  have hlast : (base - 1).toNat = base.toNat - 1 := UInt32.toNat_sub_of_le base 1 hpos
  have hzero : c = 0 ↔ c.toNat = 0 := UInt8.toNat_inj.symm
  rw [counted, Option.ite_none_left_eq_some, Option.some_inj, gt_iff_lt, UInt32.lt_iff_toNat_lt,
    hlast, hzero]
  omega

/-- Up to base 10 that is a digit. -/
theorem counted_of_le_ten {base : UInt32} (hpos : 0 < base.toNat) (hbase : base.toNat ≤ 10)
    (c : UInt8) : counted base c = (digitOf c).filter (· < base.toNat) := by
  have hindex : index base c.toUInt32 = c.toUInt32 - 48 := by
    refine if_neg fun ⟨_, hsixteen⟩ => ?_
    rw [hsixteen] at hbase
    exact absurd hbase (by decide)
  ext d
  rw [counted_eq_some_iff hpos, hindex, toNat_sub_zero, Option.filter_eq_some_iff,
    digitOf_eq_some_iff, decide_eq_true_eq]
  split <;> omega

theorem toNat_index_sixteen (c : UInt8) : (index 16 c.toUInt32).toNat =
    if 48 ≤ c.toNat ∧ c.toNat ≤ 58 then c.toNat - 48
    else if 97 ≤ c.toNat then c.toNat - 87
    else (2 ^ 32 - 55 + c.toNat) % 2 ^ 32 := by
  have hc := c.toNat_lt
  have hfar : c.toUInt32 - 48 > 10 ↔ ¬ (48 ≤ c.toNat ∧ c.toNat ≤ 58) := by
    rw [gt_iff_lt, UInt32.lt_iff_toNat_lt, toNat_sub_zero, UInt32.toNat_ofNat_of_lt (by decide)]
    split <;> omega
  have hsmall : c.toUInt32 ≥ 97 ↔ 97 ≤ c.toNat := by
    rw [ge_iff_le, UInt32.le_iff_toNat_le, UInt8.toNat_toUInt32]
    rfl
  simp only [index, hfar, hsmall, and_true, ite_not]
  split_ifs with hten hletter
  · rw [toNat_sub_zero, if_neg (by omega)]
  · rw [UInt32.toNat_add, UInt32.toNat_sub, UInt8.toNat_toUInt32]
    simp only [UInt32.toNat_ofNat]
    omega
  · rw [UInt32.toNat_add, UInt32.toNat_sub, UInt8.toNat_toUInt32]
    simp only [UInt32.toNat_ofNat]
    omega

theorem isBetween_iff {c : UInt8} : isBetween c = true ↔ 58 ≤ c.toNat ∧ c.toNat ≤ 64 := by
  rw [isBetween, Bool.and_eq_true, decide_eq_true_eq, decide_eq_true_eq, UInt8.le_iff_toNat_le,
    UInt8.le_iff_toNat_le]
  rfl

/-- In base 16 seven more characters are taken for one. -/
theorem counted_sixteen (c : UInt8) :
    counted 16 c = if isBetween c then some (if c = 58 then 10 else c.toNat - 55)
      else (digitOf c).filter (· < 16) := by
  have hc := c.toNat_lt
  have hsixteen : (16 : UInt32).toNat = 16 := rfl
  have hcolon : c = 58 ↔ c.toNat = 58 := UInt8.toNat_inj.symm
  ext d
  rw [counted_eq_some_iff (by decide), toNat_index_sixteen, hsixteen]
  by_cases hbetween : isBetween c = true
  · rw [if_pos hbetween, Option.some_inj, if_congr hcolon rfl rfl]
    rw [isBetween_iff] at hbetween
    split_ifs <;> omega
  · rw [if_neg hbetween, Option.filter_eq_some_iff, digitOf_eq_some_iff, decide_eq_true_eq]
    rw [isBetween_iff] at hbetween
    split_ifs <;> omega

/-! ### Where the digits end -/

section

variable {digit more : UInt8 → Option Nat}

theorem prefixDigits_stops (digit : UInt8 → Option Nat) (s : Bytes) :
    ∀ c ∈ (s.drop (prefixDigits digit s).length).head?, digit c = none := by
  induction s with
  | nil => simp
  | cons c s ih =>
    rw [prefixDigits]
    cases hc : digit c with
    | none => simpa using hc
    | some d => exact ih

/-- A second reading that agrees on the digits of the first one goes on behind them. -/
theorem prefixDigits_append (h : ∀ c d, digit c = some d → more c = some d) (s : Bytes) :
    prefixDigits more s =
      prefixDigits digit s ++ prefixDigits more (s.drop (prefixDigits digit s).length) := by
  induction s with
  | nil => rfl
  | cons c s ih =>
    rw [prefixDigits.eq_2 digit]
    cases hc : digit c with
    | none => rfl
    | some d =>
      rw [prefixDigits, h c d hc, ih]
      rfl

theorem length_prefixDigits_le (digit : UInt8 → Option Nat) (s : Bytes) :
    (prefixDigits digit s).length ≤ s.length := by
  induction s with
  | nil => exact Nat.le_refl _
  | cons c s ih =>
    rw [prefixDigits]
    split
    · exact Nat.succ_le_succ ih
    · exact Nat.zero_le _

theorem prefixDigits_eq_nil {digit : UInt8 → Option Nat} {s : Bytes} :
    prefixDigits digit s = [] ↔ ∀ c ∈ s.head?, digit c = none := by
  cases s with
  | nil => simp [prefixDigits]
  | cons c s =>
    rw [prefixDigits]
    cases hc : digit c <;> simp [hc]

theorem lt_of_mem_prefixDigits {bound : Nat} (h : ∀ c d, digit c = some d → d < bound)
    {s : Bytes} {d : Nat} (hd : d ∈ prefixDigits digit s) : d < bound := by
  induction s with
  | nil => exact absurd hd List.not_mem_nil
  | cons c s ih =>
    rw [prefixDigits] at hd
    split at hd
    · rename_i value hc
      rcases List.mem_cons.mp hd with rfl | hmem
      · exact h c d hc
      · exact ih hmem
    · exact absurd hd List.not_mem_nil

end

/-- A digit of base 16; a letter above `f` is none. -/
def hexDigit (c : UInt8) : Option Nat := (digitOf c).filter (· < 16)

theorem not_hexDigit_of_isBetween {c : UInt8} (h : isBetween c = true) : hexDigit c = none := by
  rw [isBetween_iff] at h
  refine Option.eq_none_iff_forall_not_mem.mpr fun d hd => ?_
  obtain ⟨hdigit, hlt⟩ := Option.filter_eq_some_iff.mp hd
  rw [digitOf_eq_some_iff] at hdigit
  rw [decide_eq_true_eq] at hlt
  omega

theorem counted_of_hexDigit (c : UInt8) (d : Nat) (h : hexDigit c = some d) :
    counted 16 c = some d := by
  rw [counted_sixteen, if_neg]
  · exact h
  · intro hbetween
    rw [not_hexDigit_of_isBetween hbetween] at h
    cases h

theorem counted_lt (c : UInt8) (d : Nat) (h : counted 16 c = some d) : d < 16 :=
  ((counted_eq_some_iff (by decide) c d).mp h).2.2

/-! ### Both functions -/

/-- The base of a number. -/
def bases : List UInt32 := [2, 10, 16]

/-- What stands right behind the hexadecimal digits. -/
def behindHex (s : Bytes) : Option UInt8 := (s.drop (leadingDigits 16 s).length).head?

theorem readsPrefix_of_counted {base : UInt32} {s : Bytes}
    (h : prefixDigits (counted base) s = leadingDigits base.toNat s) : ReadsPrefix base s := by
  rw [ReadsPrefix, ssv6xxxAtoiBase_eq, rest_eq, h]
  exact ⟨rfl, rfl⟩

theorem readsPrefix_sixteen_iff (s : Bytes) :
    ReadsPrefix 16 s ↔ ∀ c ∈ behindHex s, isBetween c = false := by
  have hsplit := prefixDigits_append (s := s) counted_of_hexDigit
  have hlead : leadingDigits 16 s = prefixDigits hexDigit s := leadingDigits_eq 16 s
  have hstops := prefixDigits_stops hexDigit s
  have hnil : prefixDigits (counted 16) (s.drop (prefixDigits hexDigit s).length) = [] ↔
      ∀ c ∈ behindHex s, isBetween c = false := by
    rw [prefixDigits_eq_nil, behindHex, hlead]
    refine forall₂_congr fun c hc => ?_
    have hnone : (digitOf c).filter (· < 16) = none := hstops c hc
    rw [counted_sixteen, hnone]
    cases isBetween c <;> simp
  rw [← hnil]
  constructor
  · rintro ⟨-, hrest⟩
    have hlen := congrArg List.length hrest
    have hmore := congrArg List.length hsplit
    have hle := length_prefixDigits_le (counted 16) s
    have hle16 : (leadingDigits (16 : UInt32).toNat s).length =
        (prefixDigits hexDigit s).length := congrArg List.length hlead
    rw [rest_eq, List.length_drop, List.length_drop, hle16] at hlen
    rw [List.length_append] at hmore
    exact List.length_eq_zero_iff.mp (by omega)
  · intro hnil
    rw [hnil, List.append_nil] at hsplit
    exact readsPrefix_of_counted (hsplit.trans hlead.symm)

theorem readsPrefix_iff {base : UInt32} (hbase : base ∈ bases) (s : Bytes) :
    ReadsPrefix base s ↔ (base = 16 → ∀ c ∈ behindHex s, isBetween c = false) := by
  simp only [bases, List.mem_cons, List.not_mem_nil, or_false] at hbase
  rcases hbase with rfl | rfl | rfl
  · refine iff_of_true (readsPrefix_of_counted ?_) fun h => absurd h (by decide)
    rw [leadingDigits_eq]
    congr 1
    funext c
    exact counted_of_le_ten (by decide) (by decide) c
  · refine iff_of_true (readsPrefix_of_counted ?_) fun h => absurd h (by decide)
    rw [leadingDigits_eq]
    congr 1
    funext c
    exact counted_of_le_ten (by decide) (by decide) c
  · rw [readsPrefix_sixteen_iff]
    exact ⟨fun h _ => h, fun h => h rfl⟩

/-- The eight digits that a value of 32 bits keeps, the last one first. -/
def lastEight (digits : List Nat) : List Nat := (digits.reverse ++ List.replicate 8 0).take 8

/-- Behind `0x` the characters that are counted end like the digits; behind any other 0
that is not `0b` the number is a multiple of `2 ^ 32`. -/
def MeansNumeral : Bytes → Prop
  | c :: d :: s =>
    c = zero →
      if isX d then lastEight (prefixDigits (counted 16) s) = lastEight (leadingDigits 16 s)
      else if isB d then True
      else 2 ^ 32 ∣ numberOf 10 (d :: s)
  | _ => True

theorem lastEight_eq_iff {digits digits' : List Nat} (h : ∀ d ∈ digits, d < 16)
    (h' : ∀ d ∈ digits', d < 16) :
    lastEight digits = lastEight digits' ↔
      Nat.ofDigits 16 digits.reverse % 2 ^ 32 = Nat.ofDigits 16 digits'.reverse % 2 ^ 32 := by
  have hmod {digits : List Nat} (h : ∀ d ∈ digits, d < 16) :
      Nat.ofDigits 16 digits.reverse % 2 ^ 32 = Nat.ofDigits 16 (lastEight digits) ∧
        (∀ d ∈ lastEight digits, d < 16) ∧ (lastEight digits).length = 8 := by
    have hall : ∀ d ∈ digits.reverse ++ List.replicate 8 0, d < 16 := by
      intro d hd
      rcases List.mem_append.mp hd with hmem | hmem
      · exact h d (List.mem_reverse.mp hmem)
      · rw [List.eq_of_mem_replicate hmem]
        decide
    refine ⟨?_, fun d hd => hall d (List.mem_of_mem_take hd), ?_⟩
    · rw [← Nat.ofDigits_append_replicate_zero (k := 8) digits.reverse]
      exact Nat.ofDigits_mod_pow_eq_ofDigits_take 8 (by decide) _ hall
    · rw [lastEight, List.length_take, List.length_append, List.length_replicate]
      omega
  obtain ⟨hvalue, hlt, hlength⟩ := hmod h
  obtain ⟨hvalue', hlt', hlength'⟩ := hmod h'
  rw [hvalue, hvalue']
  exact ⟨congrArg _, Nat.ofDigits_inj_of_len_eq (by decide) (hlength.trans hlength'.symm) hlt hlt'⟩

theorem int32_ofNat_eq_iff (a b : Nat) : Int32.ofNat a = Int32.ofNat b ↔ a % 2 ^ 32 = b % 2 ^ 32 := by
  rw [← UInt32.toInt32_ofNat', ← UInt32.toInt32_ofNat']
  constructor
  · intro h
    have hword := congrArg Int32.toUInt32 h
    rw [UInt32.toUInt32_toInt32, UInt32.toUInt32_toInt32] at hword
    exact (UInt32.ofNat_eq_iff_mod_eq_toNat a _).mp hword |>.trans (UInt32.toNat_ofNat' ..)
  · intro h
    rw [← UInt32.ofNat_mod_size (x := a), h, UInt32.ofNat_mod_size]

theorem toInt32_of_readsPrefix {base : UInt32} {s : Bytes} (h : ReadsPrefix base s) :
    (ssv6xxxAtoiBase s base).toInt32 = Int32.ofInt (numberOf base.toNat s) := by
  rw [h.1, Int32.ofInt_eq_ofNat]
  rfl

theorem readsPrefix_ten (s : Bytes) : ReadsPrefix 10 s :=
  (readsPrefix_iff (by decide) s).mpr fun h => absurd h (by decide)

theorem readsPrefix_two (s : Bytes) : ReadsPrefix 2 s :=
  (readsPrefix_iff (by decide) s).mpr fun h => absurd h (by decide)

theorem readsNumeral_iff (s : Bytes) : ReadsNumeral s ↔ MeansNumeral s := by
  have hten (s : Bytes) := toInt32_of_readsPrefix (readsPrefix_ten s)
  have htwo (s : Bytes) := toInt32_of_readsPrefix (readsPrefix_two s)
  rw [ReadsNumeral]
  cases s with
  | nil => exact iff_of_true rfl trivial
  | cons c s =>
    rw [ssv6xxxAtoi.eq_def, numeralOf.eq_def]
    dsimp only
    by_cases hzero : c = zero
    · have hplus : c ≠ minus := by
        rw [hzero]
        decide
      rw [if_pos hzero, if_neg hplus, if_pos hzero]
      cases s with
      | nil => exact iff_of_true rfl trivial
      | cons d s =>
        rw [MeansNumeral, forall_prop_of_true hzero]
        dsimp only
        split
        · rw [ssv6xxxAtoiBase_eq, UInt32.toInt32_ofNat', Int32.ofInt_eq_ofNat, int32_ofNat_eq_iff,
            lastEight_eq_iff, numberOf]
          · rfl
          · exact fun d hd => lt_of_mem_prefixDigits counted_lt hd
          · rw [leadingDigits_eq]
            refine fun d hd => lt_of_mem_prefixDigits (fun c d hc => ?_) hd
            exact of_decide_eq_true (Option.filter_eq_some_iff.mp hc).2
        · split
          · exact iff_of_true (htwo s) trivial
          · rw [Int32.ofInt_eq_ofNat, Nat.dvd_iff_mod_eq_zero]
            exact (int32_ofNat_eq_iff 0 _).trans eq_comm
    · have hmeans : MeansNumeral (c :: s) := by
        cases s with
        | nil => trivial
        | cons d s => exact fun h => absurd h hzero
      rw [if_neg hzero]
      refine iff_of_true ?_ hmeans
      by_cases hminus : c = minus
      · rw [if_pos hminus, if_pos hminus, hten, Int32.ofInt_neg]
        rfl
      · rw [if_neg hminus, if_neg hminus, if_neg hzero]
        exact hten (c :: s)

/-- For every text, each function reads what it should on exactly the texts described. -/
theorem reads_iff (s : Bytes) :
    (∀ base ∈ bases,
      (ReadsPrefix base s ↔ (base = 16 → ∀ c ∈ behindHex s, isBetween c = false))) ∧
      (ReadsNumeral s ↔ MeansNumeral s) :=
  ⟨fun _ hbase => readsPrefix_iff hbase s, readsNumeral_iff s⟩

/-- A colon counts as ten, and a leading zero ends the number. -/
theorem colon_counts :
    ¬ ReadsPrefix 16 (ofString "1:") ∧ ssv6xxxAtoiBase (ofString "1:") 16 = 26 ∧
      ¬ ReadsNumeral (ofString "0123") ∧ ssv6xxxAtoi (ofString "0123") = 0 := by
  rw [readsPrefix_sixteen_iff, readsNumeral_iff]
  refine ⟨?_, by decide, ?_, by decide⟩
  · intro h
    exact absurd (h 58 (by decide)) (by decide)
  · intro h
    exact absurd (h rfl) (by decide)

end Sv6x66.Atcmd.NumberText
