import Mathlib.Data.List.TakeWhile

/-! The words of a text: what is left between runs of separators. -/
namespace Sv6x66.Lib.Words

variable {α : Type*} (sep : α → Bool)

def words (text : List α) : List (List α) := (text.splitOnP sep).filter fun word => !word.isEmpty

@[simp] theorem words_nil : words sep [] = [] := by simp [words, List.splitOnP_nil]

variable {sep}

/-- A text falls apart at every separator. -/
theorem words_append_cons {s : α} (hs : sep s = true) (before after : List α) :
    words sep (before ++ s :: after) = words sep before ++ words sep after := by
  unfold words
  rw [List.splitOnP_append_cons before after hs, List.filter_append]

@[simp] theorem words_cons_sep {s : α} (hs : sep s = true) (text : List α) :
    words sep (s :: text) = words sep text := by
  simpa using words_append_cons hs [] text

theorem words_of_word {word : List α} (hne : word ≠ []) (hword : ∀ a ∈ word, sep a = false) :
    words sep word = [word] := by
  rw [words, List.splitOnP_eq_singleton hword]
  simp [hne]

theorem words_word_cons {word : List α} {s : α} (hne : word ≠ [])
    (hword : ∀ a ∈ word, sep a = false) (hs : sep s = true) (text : List α) :
    words sep (word ++ s :: text) = word :: words sep text := by
  rw [words_append_cons hs, words_of_word hne hword, List.singleton_append]

/-- Words with single separators between them. -/
theorem words_intercalate {s : α} (hs : sep s = true) {parts : List (List α)}
    (hparts : ∀ part ∈ parts, part ≠ [] ∧ ∀ a ∈ part, sep a = false) :
    words sep ([s].intercalate parts) = parts := by
  induction parts with
  | nil => rfl
  | cons part parts ih =>
    obtain ⟨hne, hpart⟩ := hparts part List.mem_cons_self
    have hrest := ih fun later hlater => hparts later (List.mem_cons_of_mem _ hlater)
    by_cases hlast : parts = []
    · rw [hlast, List.intercalate_singleton, words_of_word hne hpart]
    · rw [List.intercalate_cons_of_ne_nil hlast, List.append_assoc, List.singleton_append,
        words_word_cons hne hpart hs, hrest]

/-- Separators in front do not matter. -/
theorem words_dropWhile (text : List α) : words sep (text.dropWhile sep) = words sep text := by
  induction text with
  | nil => rfl
  | cons a text ih =>
    by_cases ha : sep a = true
    · rw [List.dropWhile_cons_of_pos ha, ih, words_cons_sep ha]
    · rw [List.dropWhile_cons_of_neg ha]

/-- The first word, and the text behind the separator that ends it. -/
def first (sep : α → Bool) (text : List α) : Option (List α × List α) :=
  match text.dropWhile sep with
  | [] => none
  | a :: rest =>
    some ((a :: rest).takeWhile fun b => !sep b, ((a :: rest).dropWhile fun b => !sep b).tail)

theorem words_of_first_none {text : List α} (h : first sep text = none) : words sep text = [] := by
  unfold first at h
  split at h
  · rename_i hdrop
    rw [← words_dropWhile, hdrop, words_nil]
  · cases h

/-- Where dropping stopped. -/
theorem head_of_dropWhile {p : α → Bool} {text rest : List α} {a : α}
    (h : text.dropWhile p = a :: rest) : p a = false := by
  have hne : text.dropWhile p ≠ [] := by
    rw [h]
    exact List.cons_ne_nil _ _
  have hhead := List.head_dropWhile_not p hne
  simpa only [h, List.head_cons] using hhead

/-- A text that begins with a word. -/
theorem words_of_head {a : α} {tail : List α} (ha : sep a = false) :
    words sep (a :: tail) = (a :: tail).takeWhile (fun b => !sep b) ::
      words sep ((a :: tail).dropWhile fun b => !sep b).tail := by
  have hne : (a :: tail).takeWhile (fun b => !sep b) ≠ [] := by
    rw [List.takeWhile_cons_of_pos (by rw [ha]; rfl)]
    exact List.cons_ne_nil _ _
  have hword : ∀ b ∈ (a :: tail).takeWhile (fun b => !sep b), sep b = false := by
    intro b hb
    simpa using List.mem_takeWhile_imp hb
  have hsplit : (a :: tail).takeWhile (fun b => !sep b) ++
      (a :: tail).dropWhile (fun b => !sep b) = a :: tail := List.takeWhile_append_dropWhile
  cases hrest : (a :: tail).dropWhile fun b => !sep b with
  | nil =>
    rw [hrest, List.append_nil] at hsplit
    calc words sep (a :: tail) = words sep ((a :: tail).takeWhile fun b => !sep b) := by
          rw [hsplit]
      _ = [(a :: tail).takeWhile fun b => !sep b] := words_of_word hne hword
  | cons s rest =>
    have hs : sep s = true := by simpa using head_of_dropWhile hrest
    rw [hrest] at hsplit
    calc words sep (a :: tail) =
          words sep ((a :: tail).takeWhile (fun b => !sep b) ++ s :: rest) := by rw [hsplit]
      _ = _ := words_word_cons hne hword hs rest

theorem words_of_first_some {text word rest : List α} (h : first sep text = some (word, rest)) :
    words sep text = word :: words sep rest := by
  unfold first at h
  split at h
  · cases h
  rename_i a tail hdrop
  cases h
  rw [← words_dropWhile, hdrop]
  exact words_of_head (head_of_dropWhile hdrop)

/-- Only separators make no word. -/
theorem sep_of_words_eq_nil {text : List α} (h : words sep text = []) : ∀ a ∈ text, sep a = true := by
  induction text with
  | nil => exact fun _ ha => absurd ha List.not_mem_nil
  | cons a text ih =>
    by_cases ha : sep a = true
    · rw [words_cons_sep ha] at h
      exact List.forall_mem_cons.mpr ⟨ha, ih h⟩
    · rw [words_of_head (Bool.not_eq_true _ ▸ ha)] at h
      cases h

end Sv6x66.Lib.Words
