import Mathlib.Tactic

/-! A stream cut into frames, and what a beginning of it holds: the frames that
have arrived whole and a beginning of the next one. -/
namespace Sv6x66.Lib.Framing

variable {α : Type*}

/-- The frames that the first `n` items of the stream hold whole. -/
def arrived : List (List α) → Nat → List (List α)
  | [], _ => []
  | frame :: rest, n => if frame.length ≤ n then frame :: arrived rest (n - frame.length) else []

theorem arrived_append {whole : List (List α)} (rest : List (List α)) {n : Nat} (h : whole.flatten.length ≤ n) :
    arrived (whole ++ rest) n = whole ++ arrived rest (n - whole.flatten.length) := by
  induction whole generalizing n with
  | nil => rfl
  | cons frame whole ih =>
    rw [List.flatten_cons, List.length_append] at h ⊢
    rw [List.cons_append, arrived, if_pos (by omega), ih (by omega), Nat.sub_sub]
    rfl

theorem arrived_all (frames : List (List α)) : arrived frames frames.flatten.length = frames := by
  have h := arrived_append [] (le_refl frames.flatten.length)
  rw [List.append_nil] at h
  rw [h, arrived, List.append_nil]

theorem prefix_arrived (frames : List (List α)) (n : Nat) : arrived frames n <+: frames := by
  induction frames generalizing n with
  | nil => exact List.prefix_refl _
  | cons frame rest ih =>
    rw [arrived]
    split
    · exact (List.prefix_cons_inj frame).mpr (ih _)
    · exact List.nil_prefix

/-- What stands behind the whole frames is a beginning of the next one. -/
theorem exists_tail {frames : List (List α)} {items : List α} (h : items <+: frames.flatten) :
    ∃ tail, items = (arrived frames items.length).flatten ++ tail ∧
      (tail = [] ∨ ∃ frame ∈ frames, tail <+: frame ∧ tail.length < frame.length) := by
  induction frames generalizing items with
  | nil =>
    have hnil : items = [] := List.prefix_nil.mp h
    subst hnil
    exact ⟨[], rfl, .inl rfl⟩
  | cons frame rest ih =>
    rw [List.flatten_cons] at h
    rw [arrived]
    split
    · obtain ⟨later, rfl⟩ := List.prefix_of_prefix_length_le (List.prefix_append _ _) h ‹_›
      obtain ⟨tail, hlater, htail⟩ := ih ((List.prefix_append_right_inj frame).mp h)
      refine ⟨tail, ?_, ?_⟩
      · rw [List.length_append, Nat.add_sub_cancel_left, List.flatten_cons, List.append_assoc,
          ← hlater]
      · refine htail.imp_right ?_
        rintro ⟨next, hnext, hpre⟩
        exact ⟨next, List.mem_cons_of_mem _ hnext, hpre⟩
    · have hshort : items.length < frame.length := by omega
      refine ⟨items, rfl, .inr ⟨frame, List.mem_cons_self, ?_, hshort⟩⟩
      exact List.prefix_of_prefix_length_le h (List.prefix_append _ _) (by omega)

end Sv6x66.Lib.Framing
