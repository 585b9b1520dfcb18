import Mathlib.Data.List.Basic

/-! A text split on a separator into a bounded number of fields. What stands behind the
last separator allowed stays together, and an empty field at the end is left out. -/
namespace Sv6x66.Lib.Fields

variable {α : Type}

/-- From the last place on, the parts are joined again. -/
def atMost (sep : α) (limit : Nat) (parts : List (List α)) : List (List α) :=
  if parts.length ≤ limit then parts
  else parts.take (limit - 1) ++ [[sep].intercalate (parts.drop (limit - 1))]

def dropEmptyLast [DecidableEq α] (parts : List (List α)) : List (List α) :=
  if parts.getLast? = some [] then parts.dropLast else parts

def fields [DecidableEq α] (sep : α) (limit : Nat) (text : List α) : List (List α) :=
  dropEmptyLast (atMost sep limit (text.splitOn sep))

theorem atMost_cons (sep : α) (limit : Nat) (field : List α) (parts : List (List α)) :
    atMost sep (limit + 2) (field :: parts) = field :: atMost sep (limit + 1) parts := by
  unfold atMost
  by_cases hshort : parts.length ≤ limit + 1
  · rw [if_pos hshort, if_pos (by simpa using hshort)]
  · rw [if_neg hshort, if_neg (by simpa using hshort)]
    rfl

theorem atMost_ne_nil {sep : α} {limit : Nat} {parts : List (List α)} (h : parts ≠ []) :
    atMost sep limit parts ≠ [] := by
  unfold atMost
  split
  · exact h
  · exact List.append_ne_nil_of_right_ne_nil _ (List.cons_ne_nil _ _)

variable [DecidableEq α]

theorem dropEmptyLast_cons {parts : List (List α)} (h : parts ≠ []) (field : List α) :
    dropEmptyLast (field :: parts) = field :: dropEmptyLast parts := by
  unfold dropEmptyLast
  rw [List.getLast?_cons_of_ne_nil h, List.dropLast_cons_of_ne_nil h]
  split <;> rfl

theorem dropEmptyLast_singleton {field : List α} (h : field ≠ []) :
    dropEmptyLast [field] = [field] := by
  unfold dropEmptyLast
  rw [if_neg]
  simpa using h

/-! ### The fields from left to right -/

@[simp] theorem fields_nil (sep : α) (limit : Nat) : fields sep (limit + 1) [] = [] := rfl

theorem fields_one {sep : α} {text : List α} (h : text ≠ []) : fields sep 1 text = [text] := by
  unfold fields atMost
  split
  · rename_i hshort
    have hparts : text.splitOn sep = [text] := by
      obtain ⟨part, hpart⟩ := List.length_eq_one_iff.mp
        (Nat.le_antisymm hshort (List.length_pos_iff.mpr (List.splitOn_ne_nil _ _)))
      have hjoin : [sep].intercalate (text.splitOn sep) = text := List.intercalate_splitOn sep
      rw [hpart] at hjoin ⊢
      simpa using hjoin
    rw [hparts]
    exact dropEmptyLast_singleton h
  · rw [Nat.sub_self, List.take_zero, List.drop_zero, List.nil_append, List.intercalate_splitOn]
    exact dropEmptyLast_singleton h

theorem fields_of_not_mem {sep : α} {text : List α} (hsep : sep ∉ text) (h : text ≠ [])
    (limit : Nat) : fields sep (limit + 1) text = [text] := by
  unfold fields atMost
  rw [List.splitOn_eq_singleton hsep, if_pos (by simp)]
  exact dropEmptyLast_singleton h

theorem fields_append_cons {sep : α} {field : List α} (hsep : sep ∉ field) (limit : Nat)
    (rest : List α) :
    fields sep (limit + 2) (field ++ sep :: rest) = field :: fields sep (limit + 1) rest := by
  unfold fields
  rw [List.splitOn_append_cons_self_of_not_mem hsep, atMost_cons,
    dropEmptyLast_cons (atMost_ne_nil (List.splitOn_ne_nil _ _))]

theorem fields_ne_nil {sep : α} {limit : Nat} {text : List α} (h : text ≠ []) :
    fields sep (limit + 1) text ≠ [] := by
  cases limit with
  | zero =>
    rw [fields_one h]
    exact List.cons_ne_nil _ _
  | succ limit =>
    by_cases hsep : sep ∈ text
    · obtain ⟨field, rest, rfl, hfield⟩ := List.eq_append_cons_of_mem hsep
      rw [fields_append_cons hfield]
      exact List.cons_ne_nil _ _
    · rw [fields_of_not_mem hsep h]
      exact List.cons_ne_nil _ _

theorem length_fields_le (sep : α) (limit : Nat) (text : List α) :
    (fields sep (limit + 1) text).length ≤ limit + 1 := by
  unfold fields dropEmptyLast
  have hparts : (atMost sep (limit + 1) (text.splitOn sep)).length ≤ limit + 1 := by
    unfold atMost
    split
    · assumption
    · rw [List.length_append, List.length_take, List.length_singleton, Nat.add_sub_cancel]
      exact Nat.add_le_add_right (Nat.min_le_left _ _) 1
  split
  · rw [List.length_dropLast]
    omega
  · exact hparts

/-- Nothing of the text is lost but a separator at its end. -/
theorem intercalate_fields (sep : α) (limit : Nat) (text : List α) :
    [sep].intercalate (fields sep (limit + 1) text) = text ∨
      [sep].intercalate (fields sep (limit + 1) text) ++ [sep] = text := by
  induction limit generalizing text with
  | zero =>
    by_cases h : text = []
    · exact .inl (by simp [h])
    · exact .inl (by simp [fields_one h])
  | succ limit ih =>
    by_cases hsep : sep ∈ text
    · obtain ⟨field, rest, rfl, hfield⟩ := List.eq_append_cons_of_mem hsep
      rw [fields_append_cons hfield]
      by_cases hrest : rest = []
      · exact .inr (by simp [hrest])
      · rw [List.intercalate_cons_of_ne_nil (fields_ne_nil hrest)]
        rcases ih rest with hjoin | hjoin
        · exact .inl (by simp [hjoin])
        · exact .inr (by rw [List.append_assoc, hjoin]; simp)
    · by_cases h : text = []
      · exact .inl (by simp [h])
      · exact .inl (by simp [fields_of_not_mem hsep h])

end Sv6x66.Lib.Fields
