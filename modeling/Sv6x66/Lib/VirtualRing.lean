import Mathlib.Tactic

/-! A ring of `n` slots addressed by virtual indices below `2 * n`. The slot of
an index is its residue modulo `n`; the doubled range is what tells a full ring
from an empty one. -/
namespace Sv6x66.Lib.VirtualRing

variable {α : Type*} {n r w : Nat}

def next (n v : Nat) : Nat := (v + 1) % (2 * n)

/-- The number of elements from the read index `r` to the write index `w`. -/
def count (n r w : Nat) : Nat := (w + 2 * n - r) % (2 * n)

theorem next_lt (hv : r < 2 * n) : next n r < 2 * n := Nat.mod_lt _ (by omega)

theorem next_eq (hv : r < 2 * n) : next n r = if r + 1 = 2 * n then 0 else r + 1 := by
  unfold next
  split
  · rename_i hlast
    rw [hlast, Nat.mod_self]
  · exact Nat.mod_eq_of_lt (by omega)

theorem count_eq (hr : r < 2 * n) (hw : w < 2 * n) :
    count n r w = if r ≤ w then w - r else w + 2 * n - r := by
  unfold count
  split
  · rw [show w + 2 * n - r = w - r + 2 * n by omega, Nat.add_mod_right]
    exact Nat.mod_eq_of_lt (by omega)
  · exact Nat.mod_eq_of_lt (by omega)

theorem count_eq_zero_iff (hr : r < 2 * n) (hw : w < 2 * n) : count n r w = 0 ↔ r = w := by
  rw [count_eq hr hw]
  split <;> omega

theorem count_eq_full_iff (hr : r < 2 * n) (hw : w < 2 * n) :
    count n r w = n ↔ w = (r + n) % (2 * n) := by
  have hwrap : (r + n) % (2 * n) = if r + n < 2 * n then r + n else r - n := by
    split
    · exact Nat.mod_eq_of_lt (by assumption)
    · rw [Nat.mod_eq_sub_mod (by omega), show r + n - 2 * n = r - n by omega]
      exact Nat.mod_eq_of_lt (by omega)
  rw [count_eq hr hw, hwrap]
  split <;> split <;> omega

theorem count_write (hr : r < 2 * n) (hw : w < 2 * n) (hroom : count n r w < n) :
    count n r (next n w) = count n r w + 1 := by
  rw [count_eq hr hw] at hroom ⊢
  rw [count_eq hr (next_lt hw), next_eq hw]
  by_cases hle : r ≤ w
  · rw [if_pos hle] at hroom ⊢
    split <;> split <;> omega
  · rw [if_neg hle] at hroom ⊢
    split <;> split <;> omega

theorem count_read (hr : r < 2 * n) (hw : w < 2 * n) (hne : r ≠ w) :
    count n r w = count n (next n r) w + 1 := by
  rw [count_eq hr hw, count_eq (next_lt hr) hw, next_eq hr]
  split <;> split <;> split <;> omega

theorem add_count_mod (hr : r < 2 * n) (hw : w < 2 * n) : (r + count n r w) % n = w % n := by
  rw [count_eq hr hw]
  split
  · rw [show r + (w - r) = w by omega]
  · rw [show r + (w + 2 * n - r) = w + n * 2 by omega, Nat.add_mul_mod_self_left]

variable [NeZero n]

def slot (n : Nat) [NeZero n] (v : Nat) : Fin n := ⟨v % n, Nat.mod_lt _ (NeZero.pos n)⟩

/-- The elements of the ring, oldest first. -/
def contents (data : Vector α n) (r w : Nat) : List α :=
  (List.range (count n r w)).map fun i => data.get (slot n (r + i))

@[simp] theorem contents_length {data : Vector α n} :
    (contents data r w).length = count n r w := by
  simp [contents]

theorem slot_next (hr : r < 2 * n) (i : Nat) : slot n (next n r + i) = slot n (r + (i + 1)) := by
  apply Fin.ext
  change (next n r + i) % n = (r + (i + 1)) % n
  rw [next_eq hr]
  split
  · rw [show r + (i + 1) = 0 + i + n * 2 by omega, Nat.add_mul_mod_self_left]
  · rw [show r + 1 + i = r + (i + 1) by omega]

/-- The slot about to be written holds no element. -/
theorem slot_ne_write (hr : r < 2 * n) (hw : w < 2 * n) (hroom : count n r w < n) {i : Nat}
    (hi : i < count n r w) : slot n (r + i) ≠ slot n w := by
  intro heq
  have hslots : (r + i) % n = (r + count n r w) % n := by
    rw [add_count_mod hr hw]
    exact congrArg Fin.val heq
  have hmod : i ≡ count n r w [MOD n] := Nat.ModEq.add_left_cancel' r hslots
  have := hmod.eq_of_lt_of_lt (by omega) hroom
  omega

theorem contents_write {data : Vector α n} (a : α) (hr : r < 2 * n) (hw : w < 2 * n)
    (hroom : count n r w < n) :
    contents (data.set (slot n w) a) r (next n w) = contents data r w ++ [a] := by
  unfold contents
  rw [count_write hr hw hroom, List.range_succ, List.map_append]
  congr 1
  · apply List.map_congr_left
    intro i hi
    have hne := slot_ne_write hr hw hroom (List.mem_range.mp hi)
    exact Vector.getElem_set_ne _ _ fun h => hne (Fin.ext h.symm)
  · have hslot : slot n (r + count n r w) = slot n w := Fin.ext (add_count_mod hr hw)
    rw [List.map_singleton, hslot]
    exact congrArg (· :: []) (Vector.getElem_set_self _)

theorem contents_read {data : Vector α n} (hr : r < 2 * n) (hw : w < 2 * n) (hne : r ≠ w) :
    contents data r w = data.get (slot n r) :: contents data (next n r) w := by
  unfold contents
  rw [count_read hr hw hne, List.range_succ_eq_map, List.map_cons, List.map_map]
  congr 1
  apply List.map_congr_left
  intro i _
  rw [slot_next hr]
  rfl

theorem contents_empty {data : Vector α n} (hr : r < 2 * n) : contents data r r = [] := by
  have hzero : count n r r = 0 := (count_eq_zero_iff hr hr).mpr rfl
  simp [contents, hzero]

end Sv6x66.Lib.VirtualRing
