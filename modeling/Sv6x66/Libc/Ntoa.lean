import Mathlib.Tactic
import Sv6x66.Lib.CString

/-! The conversion buffers of `libc_patch.c`: `_ntoa_long`, `_ntoa_format` and
`_ftoa` write a number into one from its last digit on. -/
namespace Sv6x66.Libc.Ntoa
open Function

def ntoaBufferSize : Nat := 32

/-- The largest `size_t`, and the largest `unsigned int`. -/
def sizeMax : Nat := 4294967295

/-- `n--` of an unsigned number -/
def dec (n : Nat) : Nat := if n = 0 then sizeMax else n - 1

structure Flags where
  zeropad : Bool
  left : Bool
  plus : Bool
  space : Bool
  hash : Bool
  uppercase : Bool
  long : Bool
  longLong : Bool
  precision : Bool
  deriving DecidableEq

/-- What stands between `%` and the specifier. -/
structure Spec where
  flags : Flags
  width : Nat
  precision : Nat
  deriving DecidableEq

/-- `buf` and `len`. `uses` are the places of `buf` written or read. -/
structure Conv where
  buf : Nat → UInt8
  len : Nat
  uses : List Nat

/-- The buffer before the first digit, whatever the stack holds there. -/
def Conv.empty : Conv := ⟨fun _ => 0, 0, []⟩

namespace Conv

/-- `buf[len++] = c` -/
def put (conv : Conv) (c : UInt8) : Conv :=
  ⟨update conv.buf conv.len c, conv.len + 1, conv.uses ++ [conv.len]⟩

def putIf (conv : Conv) (c : UInt8) : Conv :=
  if conv.len < ntoaBufferSize then conv.put c else conv

def padTo (conv : Conv) (c : UInt8) (limit : Nat) : Conv :=
  if conv.len < limit ∧ conv.len < ntoaBufferSize then (conv.put c).padTo c limit else conv
termination_by ntoaBufferSize - conv.len
decreasing_by
  simp only [put]
  omega

/-- `len--` -/
def back (conv : Conv) : Conv := { conv with len := dec conv.len }

end Conv

def ch (c : Char) : UInt8 := UInt8.ofNat c.toNat

def digitChar (upper : Bool) (digit : Nat) : UInt8 :=
  UInt8.ofNat (if digit < 10 then 48 + digit else (if upper then 65 else 97) + digit - 10)

def digitLoop (base : Nat) (upper : Bool) (value : Nat) (conv : Conv) : Conv :=
  let next := conv.put (digitChar upper (value % base))
  if next.len < ntoaBufferSize ∧ value / base ≠ 0 then digitLoop base upper (value / base) next
  else next
termination_by ntoaBufferSize - conv.len
decreasing_by
  have hlen : next.len = conv.len + 1 := rfl
  simp only [Conv.put]
  omega

/-- The digits of `_ntoa_long` and `_ntoa_long_long`. -/
def digits (value base : Nat) (spec : Spec) : Conv :=
  if ¬ spec.flags.precision ∨ value ≠ 0 then digitLoop base spec.flags.uppercase value .empty
  else .empty

def padZeros (spec : Spec) (conv : Conv) : Conv :=
  if spec.flags.left then conv
  else
    let conv := conv.padTo (ch '0') spec.precision
    if spec.flags.zeropad then conv.padTo (ch '0') spec.width else conv

/-- The zeros `#` takes back where they fill the precision or the width. -/
def dropZeros (base : Nat) (spec : Spec) (conv : Conv) : Conv :=
  if (conv.len = spec.precision ∨ conv.len = spec.width) ∧ 0 < conv.len then
    if base = 16 ∧ 0 < conv.back.len then conv.back.back else conv.back
  else conv

def putX (base : Nat) (spec : Spec) (conv : Conv) : Conv :=
  if base = 16 then conv.putIf (if spec.flags.uppercase then ch 'X' else ch 'x') else conv

def putHash (base : Nat) (spec : Spec) (conv : Conv) : Conv :=
  if spec.flags.hash then (putX base spec (dropZeros base spec conv)).putIf (ch '0') else conv

def putSign (negative : Bool) (spec : Spec) (conv : Conv) : Conv :=
  if negative then conv.putIf (ch '-')
  else if spec.flags.plus then conv.putIf (ch '+')
  else if spec.flags.space then conv.putIf (ch ' ')
  else conv

def signed (negative : Bool) (spec : Spec) : Bool :=
  negative || spec.flags.plus || spec.flags.space

/-- The sign takes the place of the last zero where the width is used up. -/
def handleSign (negative : Bool) (spec : Spec) (conv : Conv) : Conv :=
  putSign negative spec (if conv.len = spec.width ∧ signed negative spec then conv.back else conv)

def padSpaces (spec : Spec) (conv : Conv) : Conv :=
  if ¬ spec.flags.left ∧ ¬ spec.flags.zeropad then conv.padTo (ch ' ') spec.width else conv

/-- `_ntoa_format` up to the reversal. -/
def ntoaFormat (conv : Conv) (negative : Bool) (base : Nat) (spec : Spec) : Conv :=
  padSpaces spec (handleSign negative spec (putHash base spec (padZeros spec conv)))

/-- What the floating-point operations of `_ftoa` yield for a value and a precision: its sign,
whether it is above `thres_max`, and the rounded parts in front of and behind the point. -/
structure FloatParts where
  negative : Bool
  big : Bool
  whole : Int
  frac : Nat

/-- The digits behind the point, and how many of `count` are left. -/
def fracLoop (frac count : Nat) (conv : Conv) : Conv × Nat :=
  let next := conv.put (UInt8.ofNat (48 + frac % 10))
  let left := dec count
  if next.len < ntoaBufferSize ∧ frac / 10 ≠ 0 then fracLoop (frac / 10) left next
  else (next, left)
termination_by ntoaBufferSize - conv.len
decreasing_by
  have hlen : next.len = conv.len + 1 := rfl
  simp only [Conv.put]
  omega

def wholeLoop (whole : Int) (conv : Conv) : Conv :=
  if conv.len < ntoaBufferSize then
    let next := conv.put (UInt8.ofInt (48 + whole.tmod 10))
    if whole.tdiv 10 = 0 then next else wholeLoop (whole.tdiv 10) next
  else conv
termination_by ntoaBufferSize - conv.len
decreasing_by
  simp only [Conv.put]
  omega

/-- The precision `_ftoa` works with. -/
def ftoaPrec (spec : Spec) : Nat := if spec.flags.precision then min spec.precision 9 else 6

/-- `_ftoa` up to the reversal. -/
def ftoaFormat (parts : FloatParts) (spec : Spec) : Conv :=
  let prec := ftoaPrec spec
  let conv :=
    if prec = 0 then .empty
    else
      let (conv, count) := fracLoop parts.frac prec .empty
      (conv.padTo (ch '0') (conv.len + count)).putIf (ch '.')
  let conv := padZeros { spec with precision := prec } (wholeLoop parts.whole conv)
  padSpaces spec (putSign parts.negative spec conv)

/-! ### The bounds of the buffer -/

/-- Nothing outside the buffer has been used. -/
structure Conv.Inside (conv : Conv) : Prop where
  len : conv.len ≤ ntoaBufferSize
  uses : ∀ i ∈ conv.uses, i < ntoaBufferSize

variable {conv : Conv} {spec : Spec} {value base : Nat} {negative : Bool}

theorem ntoaBufferSize_le_sizeMax : ntoaBufferSize ≤ sizeMax := by
  decide

theorem Conv.len_back (hpos : 0 < conv.len) : conv.back.len = conv.len - 1 :=
  if_neg hpos.ne'

theorem Conv.len_back_zero (h : conv.len = 0) : conv.back.len = sizeMax :=
  if_pos h

namespace Conv.Inside

theorem empty : Inside .empty :=
  ⟨Nat.zero_le _, fun _ hi => absurd hi List.not_mem_nil⟩

theorem put (h : conv.Inside) (hlt : conv.len < ntoaBufferSize) (c : UInt8) :
    (conv.put c).Inside := by
  refine ⟨hlt, fun i hi => ?_⟩
  obtain hold | hnew := List.mem_append.mp hi
  · exact h.uses i hold
  · exact List.mem_singleton.mp hnew ▸ hlt

theorem putIf (h : conv.Inside) (c : UInt8) : (conv.putIf c).Inside := by
  rw [Conv.putIf]
  split
  · exact h.put ‹_› c
  · exact h

theorem padTo (h : conv.Inside) (c : UInt8) (limit : Nat) : (conv.padTo c limit).Inside := by
  induction conv using Conv.padTo.induct c limit with
  | case1 conv hlt ih =>
    rw [Conv.padTo, if_pos hlt]
    exact ih (h.put hlt.2 c)
  | case2 conv hstop =>
    rw [Conv.padTo, if_neg hstop]
    exact h

theorem back (h : conv.Inside) (hpos : 0 < conv.len) : conv.back.Inside := by
  refine ⟨?_, h.uses⟩
  rw [Conv.len_back hpos]
  exact (Nat.sub_le _ _).trans h.len

end Conv.Inside

theorem Conv.len_padTo (h : conv.len ≤ ntoaBufferSize) (c : UInt8) (limit : Nat) :
    (conv.padTo c limit).len = max conv.len (min limit ntoaBufferSize) := by
  induction conv using Conv.padTo.induct c limit with
  | case1 conv hlt ih =>
    have hlen : (conv.put c).len = conv.len + 1 := rfl
    rw [Conv.padTo, if_pos hlt, ih hlt.2, hlen]
    omega
  | case2 conv hstop =>
    rw [Conv.padTo, if_neg hstop]
    omega

theorem Conv.len_putIf (conv : Conv) (c : UInt8) :
    (conv.putIf c).len = if conv.len < ntoaBufferSize then conv.len + 1 else conv.len := by
  rw [putIf]
  split
  · rfl
  · rfl

/-! ### Integers -/

theorem inside_digitLoop (base : Nat) (upper : Bool) (value : Nat) (h : conv.Inside)
    (hlt : conv.len < ntoaBufferSize) :
    (digitLoop base upper value conv).Inside ∧ 0 < (digitLoop base upper value conv).len := by
  induction value, conv using digitLoop.induct base upper with
  | case1 value conv next hmore ih =>
    rw [digitLoop, if_pos hmore]
    exact ih (h.put hlt _) hmore.1
  | case2 value conv next hstop =>
    rw [digitLoop, if_neg hstop]
    exact ⟨h.put hlt _, Nat.succ_pos _⟩

/-- No digit is written for zero with a precision. -/
theorem inside_digits (value base : Nat) (spec : Spec) :
    (digits value base spec).Inside ∧
      ((digits value base spec).len = 0 ↔ spec.flags.precision ∧ value = 0) := by
  have hempty := Conv.Inside.empty
  rw [digits]
  split
  · rename_i hsome
    obtain ⟨hinside, hpos⟩ :=
      inside_digitLoop base spec.flags.uppercase value hempty (Nat.zero_lt_succ 31)
    refine ⟨hinside, iff_of_false hpos.ne' fun hnone => ?_⟩
    exact hsome.elim (· hnone.1) (· hnone.2)
  · rename_i hnone
    rw [not_or, not_not, not_not] at hnone
    exact ⟨hempty, iff_of_true rfl hnone⟩

theorem inside_padZeros (h : conv.Inside) (spec : Spec) : (padZeros spec conv).Inside := by
  rw [padZeros]
  split
  · exact h
  · dsimp only
    split
    · exact (h.padTo _ _).padTo _ _
    · exact h.padTo _ _

theorem len_padZeros (h : conv.Inside) (hwidth : spec.width = 0) :
    (padZeros spec conv).len = 0 ↔ conv.len = 0 ∧ (spec.flags.left ∨ spec.precision = 0) := by
  have hsize : ntoaBufferSize = 32 := rfl
  have hprec := Conv.len_padTo h.len (ch '0') spec.precision
  rw [padZeros]
  split
  · rename_i hleft
    exact (and_iff_left (.inl hleft)).symm
  · rename_i hleft
    rw [or_iff_right hleft]
    dsimp only
    split
    · rw [Conv.len_padTo (h.padTo _ _).len, hprec, hwidth]
      omega
    · rw [hprec]
      omega

theorem inside_dropZeros (h : conv.Inside) (base : Nat) (spec : Spec) :
    (dropZeros base spec conv).Inside := by
  rw [dropZeros]
  split
  · rename_i hback
    have hone := h.back hback.2
    split
    · exact hone.back (And.right ‹_›)
    · exact hone
  · exact h

theorem inside_putX (h : conv.Inside) (base : Nat) (spec : Spec) :
    (putX base spec conv).Inside := by
  rw [putX]
  split
  · exact h.putIf _
  · exact h

theorem inside_putHash (h : conv.Inside) (base : Nat) (spec : Spec) :
    (putHash base spec conv).Inside ∧
      ((putHash base spec conv).len = 0 ↔ conv.len = 0 ∧ ¬ spec.flags.hash) := by
  rw [putHash]
  split
  · rename_i hhash
    refine ⟨(inside_putX (inside_dropZeros h base spec) base spec).putIf _, ?_⟩
    refine iff_of_false ?_ fun hnone => hnone.2 hhash
    rw [Conv.len_putIf]
    split
    · exact Nat.succ_ne_zero _
    · rename_i hfull
      exact fun hzero => hfull (hzero ▸ by decide)
  · rename_i hhash
    exact ⟨h, (and_iff_left hhash).symm⟩

theorem inside_putSign (h : conv.Inside) (negative : Bool) (spec : Spec) :
    (putSign negative spec conv).Inside := by
  rw [putSign]
  split
  · exact h.putIf _
  · split
    · exact h.putIf _
    · split
      · exact h.putIf _
      · exact h

theorem inside_padSpaces (h : conv.Inside) (spec : Spec) : (padSpaces spec conv).Inside := by
  rw [padSpaces]
  split
  · exact h.padTo _ _
  · exact h

theorem inside_handleSign (h : conv.Inside)
    (hsome : ¬ (conv.len = 0 ∧ spec.width = 0 ∧ signed negative spec)) :
    (handleSign negative spec conv).Inside := by
  rw [handleSign]
  split
  · rename_i hback
    have hpos : 0 < conv.len := by
      by_contra hzero
      have hzero := Nat.eq_zero_of_not_pos hzero
      exact hsome ⟨hzero, hback.1 ▸ hzero, hback.2⟩
    exact inside_putSign (h.back hpos) negative spec
  · exact inside_putSign h negative spec

/-- A zero with a precision that leaves no digit, and a sign but no width in front of it. -/
def EmptySigned (value : Nat) (negative : Bool) (spec : Spec) : Prop :=
  value = 0 ∧ spec.flags.precision ∧ spec.width = 0 ∧ ¬ spec.flags.hash ∧
    (spec.flags.left ∨ spec.precision = 0) ∧ signed negative spec

theorem len_putHash_padZeros (value base : Nat) (hwidth : spec.width = 0) :
    (putHash base spec (padZeros spec (digits value base spec))).len = 0 ↔
      (((spec.flags.precision ∧ value = 0) ∧ (spec.flags.left ∨ spec.precision = 0)) ∧
        ¬ spec.flags.hash) := by
  obtain ⟨hdigits, hnone⟩ := inside_digits value base spec
  rw [(inside_putHash (inside_padZeros hdigits spec) base spec).2, len_padZeros hdigits hwidth,
    hnone]

theorem inside_ntoaFormat (h : ¬ EmptySigned value negative spec) :
    (ntoaFormat (digits value base spec) negative base spec).Inside := by
  have hdigits := (inside_digits value base spec).1
  have hhash := (inside_putHash (inside_padZeros hdigits spec) base spec).1
  refine inside_padSpaces (inside_handleSign hhash ?_) spec
  rintro ⟨hzero, hwidth, hsigned⟩
  obtain ⟨⟨⟨hprec, hvalue⟩, hleft⟩, hhash⟩ := (len_putHash_padZeros value base hwidth).mp hzero
  exact h ⟨hvalue, hprec, hwidth, hhash, hleft, hsigned⟩

theorem putSign_of_full (h : ntoaBufferSize ≤ conv.len) (negative : Bool) (spec : Spec) :
    putSign negative spec conv = conv := by
  have hfull : ∀ c, conv.putIf c = conv := fun c => if_neg (Nat.not_lt.mpr h)
  rw [putSign, hfull, hfull, hfull, ite_self, ite_self, ite_self]

theorem padSpaces_of_full (h : ntoaBufferSize ≤ conv.len) (spec : Spec) :
    padSpaces spec conv = conv := by
  have hstop : ¬ (conv.len < spec.width ∧ conv.len < ntoaBufferSize) :=
    fun hlt => Nat.not_lt.mpr h hlt.2
  rw [padSpaces, Conv.padTo, if_neg hstop, ite_self]

/-- `len--` at zero leaves the largest `size_t`. -/
theorem len_ntoaFormat (base : Nat) (h : EmptySigned value negative spec) :
    (ntoaFormat (digits value base spec) negative base spec).len = sizeMax := by
  obtain ⟨hvalue, hprec, hwidth, hhash, hleft, hsigned⟩ := h
  have hzero := (len_putHash_padZeros value base hwidth).mpr
    ⟨⟨⟨hprec, hvalue⟩, hleft⟩, hhash⟩
  have hback := Conv.len_back_zero hzero
  have hfull := hback.symm ▸ ntoaBufferSize_le_sizeMax
  rw [ntoaFormat, handleSign, if_pos ⟨hzero.trans hwidth.symm, hsigned⟩, putSign_of_full hfull,
    padSpaces_of_full hfull, hback]

/-! ### Fractions -/

theorem inside_fracLoop (frac count : Nat) (h : conv.Inside) (hlt : conv.len < ntoaBufferSize) :
    (fracLoop frac count conv).1.Inside := by
  induction frac, count, conv using fracLoop.induct with
  | case1 frac count conv next left hmore ih =>
    rw [fracLoop, if_pos hmore]
    exact ih (h.put hlt _) hmore.1
  | case2 frac count conv next hstop =>
    rw [fracLoop, if_neg hstop]
    exact h.put hlt _

theorem inside_wholeLoop (whole : Int) (h : conv.Inside) : (wholeLoop whole conv).Inside := by
  induction whole, conv using wholeLoop.induct with
  | case1 whole conv hlt hend =>
    rw [wholeLoop, if_pos hlt, if_pos hend]
    exact h.put hlt _
  | case2 whole conv hlt next hmore ih =>
    rw [wholeLoop, if_pos hlt, if_neg hmore]
    exact ih (h.put hlt _)
  | case3 whole conv hfull =>
    rw [wholeLoop, if_neg hfull]
    exact h

/-- `_ftoa` never takes anything back. -/
theorem inside_ftoaFormat (parts : FloatParts) (spec : Spec) :
    (ftoaFormat parts spec).Inside := by
  have hempty := Conv.Inside.empty
  rw [ftoaFormat]
  refine inside_padSpaces (inside_putSign (inside_padZeros (inside_wholeLoop _ ?_) _) _ _) spec
  split
  · exact hempty
  · have hloop := inside_fracLoop parts.frac (ftoaPrec spec) hempty (Nat.zero_lt_succ 31)
    exact (hloop.padTo _ _).putIf _

end Sv6x66.Libc.Ntoa
