import Mathlib.Tactic

/-! A stream kept in a ring of `m` slots: element number `k` of the stream sits
in slot `k % m` until the writer comes round to it again. -/
namespace Sv6x66.Lib.StreamRing

variable {α : Type*} {buf stream copied : List α} {m r : Nat}

/-- The block `copied` put over the elements from `pos` on. -/
def splice (buf : List α) (pos : Nat) (copied : List α) : List α :=
  buf.take pos ++ copied ++ buf.drop (pos + copied.length)

theorem splice_length {pos : Nat} (hfit : pos + copied.length ≤ buf.length) :
    (splice buf pos copied).length = buf.length := by
  simp only [splice, List.length_append, List.length_take, List.length_drop]
  omega

/-- The buffer up to the end of what was put there. -/
theorem take_splice {pos : Nat} (hpos : pos ≤ buf.length) :
    (splice buf pos copied).take (pos + copied.length) = buf.take pos ++ copied := by
  have hlength : (buf.take pos ++ copied).length = pos + copied.length := by
    rw [List.length_append, List.length_take, Nat.min_eq_left hpos]
  unfold splice
  rw [← hlength, List.take_left]

theorem splice_nil (buf : List α) (pos : Nat) : splice buf pos [] = buf := by
  unfold splice
  rw [List.append_nil]
  exact List.take_append_drop pos buf

/-- One element stored, and the others behind it. -/
theorem splice_set {pos : Nat} (hpos : pos < buf.length) (first : α) (rest : List α) :
    splice (buf.set pos first) (pos + 1) rest = splice buf pos (first :: rest) := by
  have htake : (buf.set pos first).take (pos + 1) = buf.take pos ++ [first] := by
    rw [List.take_set, List.take_succ_eq_append_getElem hpos, List.set_append_right]
    · simp [hpos.le]
    · simp
  unfold splice
  rw [htake, List.length_cons, List.drop_set_of_lt (by omega),
    show pos + 1 + rest.length = pos + (rest.length + 1) by omega]
  simp

theorem getElem?_splice_inside {pos j : Nat} (hfit : pos ≤ buf.length) (hj : j < copied.length) :
    (splice buf pos copied)[pos + j]? = copied[j]? := by
  have hlen : (buf.take pos).length = pos := by
    rw [List.length_take]
    omega
  unfold splice
  rw [List.append_assoc, List.getElem?_append_right (by omega), hlen, Nat.add_sub_cancel_left,
    List.getElem?_append_left hj]

theorem getElem?_splice_outside {pos i : Nat} (hfit : pos ≤ buf.length)
    (hi : i < pos ∨ pos + copied.length ≤ i) : (splice buf pos copied)[i]? = buf[i]? := by
  have hlen : (buf.take pos).length = pos := by
    rw [List.length_take]
    omega
  unfold splice
  rw [List.append_assoc]
  cases hi with
  | inl hbefore =>
    rw [List.getElem?_append_left (by omega), List.getElem?_take_of_lt hbefore]
  | inr hafter =>
    rw [List.getElem?_append_right (by omega), hlen, List.getElem?_append_right (by omega),
      List.getElem?_drop]
    congr 1
    omega

/-- The ring holds the stream from element `r` on. -/
def Holds (buf : List α) (m : Nat) (stream : List α) (r : Nat) : Prop :=
  ∀ k, r ≤ k → k < stream.length → buf[k % m]? = stream[k]?

theorem Holds.nil (buf : List α) (m : Nat) : Holds buf m [] 0 := fun _ _ hk =>
  absurd hk (Nat.not_lt_zero _)

theorem Holds.mono {r' : Nat} (h : Holds buf m stream r) (hle : r ≤ r') : Holds buf m stream r' :=
  fun k hk hlt => h k (hle.trans hk) hlt

/-- Two indices less than one round apart have different slots. -/
theorem slot_ne {k t : Nat} (hlt : k < t) (hround : t - k < m) : k % m ≠ t % m := by
  intro heq
  have hmod : k ≡ k + (t - k) [MOD m] := by
    rw [show k + (t - k) = t by omega]
    exact heq
  have hzero : 0 ≡ t - k [MOD m] := Nat.ModEq.add_left_cancel' k hmod
  have := hzero.eq_of_lt_of_lt (by omega) hround
  omega

/-- A block that does not cross the end of the ring, and leaves the unread
elements alone. -/
theorem Holds.write (h : Holds buf m stream r) (hlen : m ≤ buf.length)
    (hcross : stream.length % m + copied.length ≤ m)
    (hroom : stream.length + copied.length ≤ r + m) :
    Holds (splice buf (stream.length % m) copied) m (stream ++ copied) r := by
  intro k hk hlt
  rw [List.length_append] at hlt
  by_cases hold : k < stream.length
  · rw [List.getElem?_append_left hold, ← h k hk hold]
    refine getElem?_splice_outside (by omega) ?_
    by_contra hinside
    have hpos : 0 < m := by omega
    obtain ⟨j, hj⟩ := Nat.exists_eq_add_of_le (show stream.length % m ≤ k % m by omega)
    have hslot : (stream.length + j) % m = k % m := by
      rw [hj, Nat.add_mod, Nat.mod_eq_of_lt (show j < m by omega)]
      exact Nat.mod_eq_of_lt (by omega)
    exact slot_ne (m := m) (show k < stream.length + j by omega) (by omega) hslot.symm
  · obtain ⟨j, rfl⟩ := Nat.exists_eq_add_of_le (Nat.not_lt.mp hold)
    have hj : j < copied.length := by omega
    have hslot : (stream.length + j) % m = stream.length % m + j := by
      rw [Nat.add_mod, Nat.mod_eq_of_lt (show j < m by omega)]
      exact Nat.mod_eq_of_lt (by omega)
    rw [hslot, getElem?_splice_inside (by omega) hj, List.getElem?_append_right (by omega),
      Nat.add_sub_cancel_left]

/-- The distance of two indices less than one round apart, from their slots. -/
theorem sub_eq_of_slots {k t : Nat} (hle : k ≤ t) (hround : t - k < m) (hslots : k % m ≤ t % m) :
    t % m - k % m = t - k := by
  have hpos : 0 < m := by omega
  have hlt := Nat.mod_lt t hpos
  have hmod : k + (t % m - k % m) ≡ k + (t - k) [MOD m] := by
    rw [show k + (t - k) = t by omega]
    have hk : k % m + (t % m - k % m) ≡ k + (t % m - k % m) [MOD m] :=
      (Nat.mod_modEq k m).add_right _
    rw [show k % m + (t % m - k % m) = t % m by omega] at hk
    exact hk.symm.trans (Nat.mod_modEq t m)
  have hsub : t % m - k % m ≡ t - k [MOD m] := Nat.ModEq.add_left_cancel' k hmod
  exact hsub.eq_of_lt_of_lt (by omega) hround

end Sv6x66.Lib.StreamRing
