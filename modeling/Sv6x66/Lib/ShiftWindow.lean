import Mathlib.Tactic

/-! A buffer filled from a stream in which something is looked for that begins with
a mark. Where the buffer does not hold it, what it holds is moved to the front from the next
mark on. -/
namespace Sv6x66.Lib.ShiftWindow

variable {α : Type*} [DecidableEq α]

/-- The first mark behind the first item, or the end of the buffer. -/
def nextMark (mark : α) : List α → Nat
  | [] => 0
  | _ :: rest => rest.idxOf mark + 1

/-- The buffer after the move, and the number of its items that count. -/
def resync (mark : α) (buffer : List α) : List α × Nat :=
  let off := nextMark mark buffer
  let kept := buffer.length - off
  (if off < buffer.length then buffer.drop off ++ buffer.drop kept else buffer, kept)

variable {mark : α} {buffer : List α}

theorem nextMark_le : nextMark mark buffer ≤ buffer.length := by
  cases buffer with
  | nil => exact le_refl _
  | cons first rest => exact Nat.succ_le_succ List.idxOf_le_length

theorem nextMark_pos (hne : buffer ≠ []) : 0 < nextMark mark buffer := by
  cases buffer with
  | nil => exact absurd rfl hne
  | cons first rest => exact Nat.succ_pos _

/-- Nothing begins in what the move drops, but at the front. -/
theorem getElem?_ne_mark {i : Nat} (hpos : 0 < i) (hlt : i < nextMark mark buffer) :
    buffer[i]? ≠ some mark := by
  cases buffer with
  | nil => exact absurd hlt (Nat.not_lt_zero _)
  | cons first rest =>
    obtain ⟨j, rfl⟩ := Nat.exists_eq_add_one.mpr hpos
    have hj : j < rest.idxOf mark := Nat.lt_of_succ_lt_succ hlt
    rw [List.getElem?_cons_succ]
    intro h
    obtain ⟨hlength, hget⟩ := List.getElem?_eq_some_iff.mp h
    have hother : (rest[j] == mark) = false := List.not_of_lt_findIdx hj
    simp [hget] at hother

theorem resync_length : (resync mark buffer).1.length = buffer.length := by
  have hle : nextMark mark buffer ≤ buffer.length := nextMark_le
  unfold resync
  dsimp only
  split
  · rw [List.length_append, List.length_drop, List.length_drop]
    omega
  · rfl

/-- What counts behind the move is what stood from the mark on. -/
theorem resync_window :
    (resync mark buffer).1.take (resync mark buffer).2 = buffer.drop (nextMark mark buffer) := by
  unfold resync
  dsimp only
  split
  · rw [List.take_append_of_le_length (by rw [List.length_drop]), ← List.length_drop,
      List.take_length]
  · have hend : nextMark mark buffer = buffer.length := by
      have hle : nextMark mark buffer ≤ buffer.length := nextMark_le
      omega
    rw [hend, Nat.sub_self, List.take_zero, List.drop_length]

theorem resync_lt (hne : buffer ≠ []) : (resync mark buffer).2 < buffer.length := by
  have hpos : 0 < nextMark mark buffer := nextMark_pos hne
  have hlength := List.length_pos_iff.mpr hne
  change buffer.length - nextMark mark buffer < buffer.length
  omega

end Sv6x66.Lib.ShiftWindow
