import Mathlib.Tactic
import Mathlib.Data.List.GetD

/-! A file as a list of its bytes, and a memory buffer that reads overwrite
from its start. -/
namespace Sv6x66.Lib.ByteFile

variable {α : Type*}

/-- Writing `data` at `offset`; a gap before it is filled. -/
def patch (fill : α) (file : List α) (offset : Nat) (data : List α) : List α :=
  file.take offset ++ List.replicate (offset - file.length) fill ++ data ++
    file.drop (offset + data.length)

theorem length_patch (fill : α) (file : List α) (offset : Nat) (data : List α) :
    (patch fill file offset data).length = max file.length (offset + data.length) := by
  unfold patch
  simp only [List.length_append, List.length_take, List.length_replicate, List.length_drop]
  omega

@[simp] theorem patch_length (fill : α) (file data : List α) :
    patch fill file file.length data = file ++ data := by
  simp [patch]

theorem getElem?_patch (fill : α) {file data : List α} {offset : Nat} (h : offset ≤ file.length)
    (i : Nat) : (patch fill file offset data)[i]? =
      if offset ≤ i ∧ i < offset + data.length then data[i - offset]? else file[i]? := by
  unfold patch
  rw [Nat.sub_eq_zero_of_le h, List.replicate_zero, List.append_nil]
  by_cases hbefore : i < offset
  · rw [if_neg (by omega), List.append_assoc, List.getElem?_append_left, List.getElem?_take_of_lt
      hbefore]
    rw [List.length_take]
    omega
  · have hlen : (file.take offset ++ data).length = offset + data.length := by
      rw [List.length_append, List.length_take, min_eq_left h]
    by_cases hinside : i < offset + data.length
    · rw [if_pos (by omega), List.getElem?_append_left (by omega), List.getElem?_append_right,
        List.length_take, min_eq_left h]
      rw [List.length_take]
      omega
    · rw [if_neg (by omega), List.getElem?_append_right (by omega), hlen, List.getElem?_drop]
      congr 1
      omega

theorem patch_zero (fill : α) (buffer data : List α) :
    patch fill buffer 0 data = data ++ buffer.drop data.length := by
  simp [patch]

/-- A buffer filled in two parts. -/
theorem patch_patch (fill : α) {buffer data rest : List α}
    (h : buffer.length = data.length + rest.length) :
    patch fill (patch fill buffer 0 data) data.length rest = data ++ rest := by
  have hgap : data.length - (data ++ buffer.drop data.length).length = 0 := by
    rw [List.length_append]
    omega
  have hend : (data ++ buffer.drop data.length).drop (data.length + rest.length) = [] := by
    rw [List.drop_eq_nil_iff, List.length_append, List.length_drop]
    omega
  rw [patch_zero, patch, hgap, hend, List.take_left, List.replicate_zero, List.append_nil,
    List.append_nil]

theorem patch_replicate (fill value : α) {n offset m : Nat} (h : offset + m ≤ n) :
    patch fill (List.replicate n value) offset (List.replicate m value) =
      List.replicate n value := by
  rw [patch, List.length_replicate, List.length_replicate, List.take_replicate,
    List.drop_replicate, Nat.sub_eq_zero_of_le (by omega), List.replicate_zero, List.append_nil,
    List.replicate_append_replicate, List.replicate_append_replicate]
  congr 1
  omega

/-- The byte at address `a` of a file whose first byte stands at `base`. -/
def byteAt (base : Nat) (file : List α) (a : Nat) : Option α :=
  if base ≤ a then file[a - base]? else none

theorem byteAt_add {base start : Nat} (hbase : base ≤ start) (file : List α) (i : Nat) :
    byteAt base file (start + i) = file[start - base + i]? := by
  rw [byteAt, if_pos (by omega), Nat.sub_add_comm hbase]

theorem byteAt_patch (fill : α) {file data : List α} {base start : Nat} (hbase : base ≤ start)
    (h : start - base ≤ file.length) (a : Nat) :
    byteAt base (patch fill file (start - base) data) a =
      if start ≤ a ∧ a < start + data.length then data[a - start]? else byteAt base file a := by
  unfold byteAt
  by_cases ha : base ≤ a
  · rw [if_pos ha, if_pos ha, getElem?_patch fill h, Nat.sub_sub_sub_cancel_right hbase]
    exact if_congr (by omega) rfl rfl
  · rw [if_neg ha, if_neg ha, if_neg (by omega)]

/-- The buffer after `data` has been read into it: what lies behind is kept. -/
def overlay (buffer data : List α) : List α := data ++ buffer.drop data.length

theorem take_overlay (buffer data : List α) : (overlay buffer data).take data.length = data :=
  List.take_left

theorem overlay_of_length (buffer data : List α) (h : data.length = buffer.length) :
    overlay buffer data = data := by
  rw [overlay, h, List.drop_length, List.append_nil]

@[simp] theorem overlay_nil (buffer : List α) : overlay buffer [] = buffer := rfl

theorem length_overlay {buffer data : List α} (h : data.length ≤ buffer.length) :
    (overlay buffer data).length = buffer.length := by
  rw [overlay, List.length_append, List.length_drop]
  omega

/-- A read of `len` bytes that brings `got` of them leaves the file's bytes in the buffer
exactly if the others stood there before. -/
theorem take_overlay_eq_iff {file buffer : List α} {position len : Nat} (zero : α)
    (hfile : position + len ≤ file.length) (hbuffer : len ≤ buffer.length) (got : Nat) :
    (overlay buffer ((file.drop position).take (min len got))).take len =
        (file.drop position).take len ↔
      ∀ j < len, got ≤ j → file.getD (position + j) zero = buffer.getD j zero := by
  have hgot : ((file.drop position).take (min len got)).length = min len got := by
    rw [List.length_take, List.length_drop]
    omega
  have hbyte (j : Nat) (hj : j < len) :
      ((overlay buffer ((file.drop position).take (min len got))).take len)[j]? =
        if j < got then file[position + j]? else buffer[j]? := by
    rw [List.getElem?_take_of_lt hj, overlay]
    split
    · rw [List.getElem?_append_left (by omega), List.getElem?_take_of_lt (by omega),
        List.getElem?_drop]
    · rw [List.getElem?_append_right (by omega), List.getElem?_drop, hgot]
      congr 1
      omega
  constructor
  · intro h j hj hlate
    have hboth := hbyte j hj
    rw [h, List.getElem?_take_of_lt hj, List.getElem?_drop, if_neg (by omega)] at hboth
    rw [List.getD_eq_getElem?_getD, List.getD_eq_getElem?_getD, hboth]
  · intro h
    apply List.ext_getElem?
    intro j
    by_cases hj : j < len
    · rw [hbyte j hj, List.getElem?_take_of_lt hj, List.getElem?_drop]
      split
      · rfl
      · have hsame := h j hj (by omega)
        rw [List.getD_eq_getElem _ _ (by omega), List.getD_eq_getElem _ _ (by omega)] at hsame
        rw [List.getElem?_eq_getElem (by omega), List.getElem?_eq_getElem (by omega), hsame]
    · rw [List.getElem?_eq_none, List.getElem?_eq_none]
      · rw [List.length_take]
        omega
      · rw [List.length_take]
        omega

end Sv6x66.Lib.ByteFile
