import Mathlib.Tactic

/-! Whole numbers of which a word keeps the lower 32 bits. The difference of two words,
taken for a signed number, is the difference of the numbers as long as these are near each
other. -/
namespace Sv6x66.Lib.Serial

theorem ofInt_sub (x y : Int) : UInt32.ofInt (x - y) = UInt32.ofInt x - UInt32.ofInt y := by
  rw [Int.sub_eq_add_neg, UInt32.ofInt_add, UInt32.ofInt_neg, UInt32.sub_eq_add_neg]

theorem toBitVec_ofInt (x : Int) : (UInt32.ofInt x).toBitVec = BitVec.ofInt 32 x := by
  apply BitVec.eq_of_toNat_eq
  rw [BitVec.toNat_ofInt, UInt32.toNat_toBitVec, UInt32.ofInt, UInt32.toNat_ofNat']
  omega

theorem toInt_ofInt {x : Int} (hlow : - 2 ^ 31 ≤ x) (hhigh : x < 2 ^ 31) :
    (UInt32.ofInt x).toBitVec.toInt = x := by
  rw [toBitVec_ofInt, BitVec.toInt_ofInt, Int.bmod_eq_of_le (by omega) (by omega)]

/-- Numbers that are near each other are compared as if they were whole. -/
theorem sub_pos_iff {x y : Int} (hlow : y ≤ x + 2 ^ 31) (hhigh : x < y + 2 ^ 31) :
    0 < (UInt32.ofInt x - UInt32.ofInt y).toBitVec.toInt ↔ y < x := by
  rw [← ofInt_sub, toInt_ofInt (by omega) (by omega)]
  omega

theorem ofInt_natCast (n : Nat) : UInt32.ofInt n = UInt32.ofNat n := by
  rw [← UInt32.toNat_inj, UInt32.ofInt, UInt32.toNat_ofNat', UInt32.toNat_ofNat']
  omega

theorem toUInt32_eq (x : UInt64) : x.toUInt32 = UInt32.ofInt x.toNat := by
  rw [ofInt_natCast, ← UInt32.toNat_inj, UInt64.toNat_toUInt32, UInt32.toNat_ofNat']

theorem toUInt32_sub_eq (x : Int) (y : UInt64) :
    ((UInt32.ofInt x).toUInt64 - y).toUInt32 = UInt32.ofInt (x - y.toNat) := by
  rw [UInt64.toUInt32_sub, UInt32.toUInt32_toUInt64, toUInt32_eq, ofInt_sub]

theorem ofInt_ne_zero {x : Int} (h : ¬ 2 ^ 32 ∣ x) : UInt32.ofInt x ≠ 0 := by
  intro hzero
  apply h
  have hnat := congrArg UInt32.toNat hzero
  rw [UInt32.ofInt, UInt32.toNat_ofNat'] at hnat
  have hrest : (0 : UInt32).toNat = 0 := rfl
  omega

end Sv6x66.Lib.Serial
