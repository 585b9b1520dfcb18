import Mathlib.Tactic

/-! Timeouts on a clock that wraps. A deadline computed as start plus period and compared
with the clock is not the same test as a comparison of the time elapsed. -/
namespace Sv6x66.Lib.Deadline

variable {w : Nat}

/-- The clock has not wrapped since the start, exactly if the deadline does not wrap. -/
def Straight (start period now : BitVec w) : Prop :=
  start.toNat ≤ now.toNat ↔ start.toNat + period.toNat < 2 ^ w

instance (start period now : BitVec w) : Decidable (Straight start period now) :=
  inferInstanceAs (Decidable (_ ↔ _))

theorem toNat_elapsed (start now : BitVec w) : (now - start).toNat =
    if start.toNat ≤ now.toNat then now.toNat - start.toNat else 2 ^ w - start.toNat + now.toNat := by
  have hstart := start.isLt
  have hnow := now.isLt
  rw [BitVec.toNat_sub]
  split
  · rw [show 2 ^ w - start.toNat + now.toNat = now.toNat - start.toNat + 2 ^ w by omega,
      Nat.add_mod_right, Nat.mod_eq_of_lt (by omega)]
  · rw [Nat.mod_eq_of_lt (by omega)]

theorem toNat_deadline (start period : BitVec w) : (start + period).toNat =
    if start.toNat + period.toNat < 2 ^ w then start.toNat + period.toNat
    else start.toNat + period.toNat - 2 ^ w := by
  have hstart := start.isLt
  have hperiod := period.isLt
  rw [BitVec.toNat_add]
  split
  · rw [Nat.mod_eq_of_lt ‹_›]
  · rw [Nat.mod_eq_sub_mod (by omega), Nat.mod_eq_of_lt (by omega)]

/-- A loop that goes on before the deadline. -/
theorem before_iff (start period now : BitVec w) :
    (now < start + period ↔ now - start < period) ↔ Straight start period now := by
  have hstart := start.isLt
  have hnow := now.isLt
  have hperiod := period.isLt
  unfold Straight
  rw [BitVec.lt_def, BitVec.lt_def, toNat_elapsed, toNat_deadline]
  split_ifs <;> omega

/-- A test that the deadline has passed. -/
theorem after_iff (start period now : BitVec w) :
    (start + period < now ↔ period < now - start) ↔ Straight start period now := by
  have hstart := start.isLt
  have hnow := now.isLt
  have hperiod := period.isLt
  unfold Straight
  rw [BitVec.lt_def, BitVec.lt_def, toNat_elapsed, toNat_deadline]
  split_ifs <;> omega

end Sv6x66.Lib.Deadline
