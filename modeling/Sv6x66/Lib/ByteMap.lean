import Mathlib.Data.List.GetD

/-! Memory as a function of the address: what a stretch of it holds, and what a copy into it
leaves there. -/
namespace Sv6x66.Lib.ByteMap

variable {α : Type} {mem mem' : Nat → α} {addr addr' : Nat} {cells later : List α}

/-- The cells from `addr` on are those of the list. -/
def Holds (mem : Nat → α) (addr : Nat) (cells : List α) : Prop :=
  ∀ i (h : i < cells.length), mem (addr + i) = cells[i]

/-- The list is copied to `addr`. -/
def store (mem : Nat → α) (addr : Nat) (cells : List α) : Nat → α := fun i =>
  if h : addr ≤ i ∧ i - addr < cells.length then cells[i - addr] else mem i

theorem store_before (mem : Nat → α) (cells : List α) {i : Nat} (h : i < addr) :
    store mem addr cells i = mem i := dif_neg fun hin => by omega

theorem store_behind (mem : Nat → α) {i : Nat} (h : addr + cells.length ≤ i) :
    store mem addr cells i = mem i := dif_neg fun hin => by omega

theorem holds_store (mem : Nat → α) (addr : Nat) (cells : List α) :
    Holds (store mem addr cells) addr cells := by
  intro i h
  rw [store, dif_pos ⟨Nat.le_add_right _ _, by rwa [Nat.add_sub_cancel_left]⟩]
  congr 1
  exact Nat.add_sub_cancel_left addr i

theorem Holds.congr (h : Holds mem addr cells)
    (hsame : ∀ i, addr ≤ i → i < addr + cells.length → mem' i = mem i) :
    Holds mem' addr cells := fun i hi =>
  (hsame _ (Nat.le_add_right _ _) (Nat.add_lt_add_left hi _)).trans (h i hi)

/-- A copy to another place leaves the cells as they are. -/
theorem Holds.store (h : Holds mem addr cells)
    (hapart : addr + cells.length ≤ addr' ∨ addr' + later.length ≤ addr) :
    Holds (store mem addr' later) addr cells := by
  refine h.congr fun i hle hlt => ?_
  obtain hbefore | hbehind := hapart
  · exact store_before mem later (Nat.lt_of_lt_of_le hlt hbefore)
  · exact store_behind mem (Nat.le_trans hbehind hle)

theorem holds_append : Holds mem addr (cells ++ later) ↔
    Holds mem addr cells ∧ Holds mem (addr + cells.length) later := by
  constructor
  · intro h
    constructor
    · intro i hi
      rw [h i (by rw [List.length_append]; omega), List.getElem_append_left hi]
    · intro i hi
      rw [Nat.add_assoc, h (cells.length + i) (by rw [List.length_append]; omega),
        List.getElem_append_right (Nat.le_add_right _ _)]
      congr 1
      exact Nat.add_sub_cancel_left _ i
  · rintro ⟨hcells, hlater⟩ i hi
    by_cases hfirst : i < cells.length
    · rw [hcells i hfirst, List.getElem_append_left hfirst]
    · rw [List.length_append] at hi
      rw [List.getElem_append_right (by omega), ← hlater _ (by omega)]
      congr 1
      omega

end Sv6x66.Lib.ByteMap
