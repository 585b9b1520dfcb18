import Mathlib.Data.Nat.Bitwise
import Mathlib.Algebra.Ring.Parity
import Sv6x66.Lib.Loop

/-! Which numbers were seen, as the bits of a number, and the loop that shifts its
trailing zeros out. -/
namespace Sv6x66.Lib

/-- A bit for each number seen. -/
def mask (seen : List Nat) : Nat := seen.foldl (fun bits j => bits ||| 1 <<< j) 0

theorem mask_singleton (j : Nat) : mask [j] = 1 <<< j := Nat.zero_or _

theorem mask_append (seen : List Nat) (j : Nat) : mask (seen ++ [j]) = mask seen ||| 1 <<< j := by
  unfold mask
  rw [List.foldl_append]
  rfl

theorem testBit_mask (seen : List Nat) (j : Nat) : (mask seen).testBit j = true ↔ j ∈ seen := by
  induction seen using List.reverseRecOn with
  | nil => simp [mask]
  | append_singleton seen i ih =>
    have hbit : (1 <<< i).testBit j = true ↔ j = i := by
      rw [Nat.one_shiftLeft, Nat.testBit_two_pow, decide_eq_true_eq]
      exact eq_comm
    rw [mask_append, Nat.testBit_or, Bool.or_eq_true, ih, hbit, List.mem_append,
      List.mem_singleton]

theorem mask_ne_zero {seen : List Nat} {j : Nat} (h : j ∈ seen) : mask seen ≠ 0 := by
  intro heq
  rw [← testBit_mask, heq, Nat.zero_testBit] at h
  cases h

section Bounded

variable {seen : List Nat} {n : Nat}

theorem mask_lt (hseen : ∀ j ∈ seen, j < n) : mask seen < 2 ^ n := by
  apply Nat.lt_pow_two_of_testBit
  intro j hj
  rw [← Bool.not_eq_true, testBit_mask]
  intro hmem
  exact absurd (hseen j hmem) (by omega)

/-- All the bits are there when all the numbers were seen. -/
theorem mask_eq_full_iff (hseen : ∀ j ∈ seen, j < n) :
    mask seen = 2 ^ n - 1 ↔ ∀ j < n, j ∈ seen := by
  constructor
  · intro heq j hj
    rw [← testBit_mask, heq, Nat.testBit_two_pow_sub_one, decide_eq_true hj]
  · intro hall
    apply Nat.eq_of_testBit_eq
    intro j
    rw [Nat.testBit_two_pow_sub_one, Bool.eq_iff_iff, testBit_mask, decide_eq_true_eq]
    exact ⟨hseen j, hall j⟩

end Bounded

/-! ### Trailing zeros -/

/-- A round of the loop, which counts its rounds. -/
def dropZero (s : Nat × Nat) : Turn (Nat × Nat) (Nat × Nat) :=
  if s.1 % 2 = 0 then .again (s.1 / 2, s.2 + 1) else .stop s

theorem shiftLeft_div_two (n zeros : Nat) : (n <<< (zeros + 1)) % 2 = 0 ∧
    (n <<< (zeros + 1)) / 2 = n <<< zeros := by
  have htwice : n <<< (zeros + 1) = n <<< zeros * 2 := by
    rw [Nat.shiftLeft_eq, Nat.shiftLeft_eq, pow_succ, mul_assoc]
  omega

theorem dropZero_returns {odd : Nat} (hodd : odd % 2 = 1) (zeros count : Nat) :
    Returns dropZero (odd <<< zeros, count) (odd, count + zeros) := by
  induction zeros generalizing count with
  | zero =>
    have hstop : dropZero (odd, count) = .stop (odd, count) := if_neg (by omega)
    exact (Returns.stop_iff hstop).mpr rfl
  | succ zeros ih =>
    obtain ⟨heven, hhalf⟩ := shiftLeft_div_two odd zeros
    have hagain : dropZero (odd <<< (zeros + 1), count) =
        .again (odd <<< zeros, count + 1) := by
      unfold dropZero
      rw [if_pos heven, hhalf]
    rw [Returns.again_iff hagain, show count + (zeros + 1) = count + 1 + zeros by omega]
    exact ih (count + 1)

/-- A number other than zero is an odd one shifted. -/
theorem exists_odd_shiftLeft {n : Nat} (h : n ≠ 0) :
    ∃ odd zeros, odd % 2 = 1 ∧ n = odd <<< zeros := by
  obtain ⟨zeros, odd, hodd, hn⟩ := Nat.exists_eq_two_pow_mul_odd h
  refine ⟨odd, zeros, Nat.odd_iff.mp hodd, ?_⟩
  rw [Nat.shiftLeft_eq, hn, mul_comm]

end Sv6x66.Lib
