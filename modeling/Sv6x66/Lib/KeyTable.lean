import Mathlib.Tactic

/-! Tables whose entries carry a key, with one blank key that any number of
entries may have. -/
namespace Sv6x66.Lib

variable {α κ : Type*} {key : α → κ} {blank : κ} {table table' : List α} {a b : α}

/-- No two entries of the table have the same key, but for the blank one. -/
def UniqueKey (key : α → κ) (blank : κ) (table : List α) : Prop :=
  ∀ (i j : Nat) (a b : α), table[i]? = some a → table[j]? = some b → key a = key b →
    key a ≠ blank → i = j

namespace UniqueKey

theorem eq_of_mem (h : UniqueKey key blank table) (ha : a ∈ table) (hb : b ∈ table)
    (hkey : key a = key b) (hblank : key a ≠ blank) : a = b := by
  obtain ⟨i, hi⟩ := List.mem_iff_getElem?.mp ha
  obtain ⟨j, hj⟩ := List.mem_iff_getElem?.mp hb
  have hij := h i j a b hi hj hkey hblank
  subst hij
  exact Option.some.inj (hi.symm.trans hj)

theorem replicate (n : Nat) (hblank : key a = blank) :
    UniqueKey key blank (List.replicate n a) := by
  intro i j b c hb _ _ hne
  cases List.eq_of_mem_replicate (List.mem_of_getElem? hb)
  exact absurd hblank hne

/-- Entries may be blanked and changed in other respects. -/
theorem of_pointwise (h : UniqueKey key blank table)
    (hkeys : ∀ (i : Nat) (b : α), table'[i]? = some b → ∃ a, table[i]? = some a ∧
      (key b = key a ∨ key b = blank)) : UniqueKey key blank table' := by
  intro i j b c hb hc hkey hne
  obtain ⟨a, ha, hba⟩ := hkeys i b hb
  obtain ⟨d, hd, hcd⟩ := hkeys j c hc
  have hba := hba.resolve_right hne
  have hcd := hcd.resolve_right (hkey ▸ hne)
  exact h i j a d ha hd (hba.symm.trans (hkey.trans hcd)) (hba ▸ hne)

theorem map (h : UniqueKey key blank table) {f : α → α}
    (hf : ∀ a, key (f a) = key a ∨ key (f a) = blank) : UniqueKey key blank (table.map f) := by
  refine h.of_pointwise fun i b hb => ?_
  rw [List.getElem?_map] at hb
  obtain ⟨a, ha, rfl⟩ := Option.map_eq_some_iff.mp hb
  exact ⟨a, ha, hf a⟩

theorem modify (h : UniqueKey key blank table) (i : Nat) {f : α → α}
    (hf : ∀ a, key (f a) = key a ∨ key (f a) = blank) : UniqueKey key blank (table.modify i f) := by
  refine h.of_pointwise fun j b hb => ?_
  rw [List.getElem?_modify] at hb
  obtain ⟨a, ha, rfl⟩ := Option.map_eq_some_iff.mp hb
  refine ⟨a, ha, ?_⟩
  split
  · exact hf a
  · exact .inl rfl

/-- A key the table does not have is put in. -/
theorem set (h : UniqueKey key blank table) (i : Nat)
    (hnew : key a ≠ blank → ∀ b ∈ table, key b ≠ key a) :
    UniqueKey key blank (table.set i a) := by
  intro j k b c hb hc hkey hne
  rw [List.getElem?_set] at hb hc
  split at hb <;> split at hc
  · exact ‹i = j›.symm.trans ‹i = k›
  · split at hb
    · cases hb
      exact absurd hkey.symm (hnew hne c (List.mem_of_getElem? hc))
    · cases hb
  · split at hc
    · cases hc
      exact absurd hkey (hnew (hkey ▸ hne) b (List.mem_of_getElem? hb))
    · cases hc
  · exact h j k b c hb hc hkey hne

/-- The entries with a key are at most as many as there are keys. -/
theorem countP_le_card [DecidableEq κ] (h : UniqueKey key blank table) (keys : Finset κ)
    (hkeys : ∀ a ∈ table, key a ≠ blank → key a ∈ keys) :
    table.countP (fun a => key a ≠ blank) ≤ keys.card := by
  have hpairs : table.Pairwise fun a b => key a ≠ blank → key a ≠ key b := by
    rw [List.pairwise_iff_getElem]
    intro i j hi hj hij hne hkey
    exact hij.ne (h i j _ _ (List.getElem?_eq_getElem hi) (List.getElem?_eq_getElem hj) hkey hne)
  have hnodup : ((table.filter fun a => key a ≠ blank).map key).Nodup := by
    rw [List.Nodup, List.pairwise_map, List.pairwise_filter]
    refine hpairs.imp fun hab hne _ => hab ?_
    exact of_decide_eq_true hne
  have hsubset : ((table.filter fun a => key a ≠ blank).map key).toFinset ⊆ keys := by
    intro k hk
    obtain ⟨a, ha, rfl⟩ := List.mem_map.mp (List.mem_toFinset.mp hk)
    obtain ⟨hmem, hne⟩ := List.mem_filter.mp ha
    exact hkeys a hmem (of_decide_eq_true hne)
  rw [List.countP_eq_length_filter, ← List.length_map key, ← List.toFinset_card_of_nodup hnodup]
  exact Finset.card_le_card hsubset

end UniqueKey

/-! ### Counting the entries -/

variable {p q r : α → Bool}

theorem countP_le_add (h : ∀ a, p a → q a ∨ r a) (table : List α) :
    table.countP p ≤ table.countP q + table.countP r := by
  induction table with
  | nil => exact Nat.le_refl 0
  | cons a rest ih =>
    have ha := h a
    simp only [List.countP_cons]
    split
    · rcases ha ‹_› with hq | hr
      · rw [if_pos hq]
        omega
      · rw [if_pos hr]
        omega
    · omega

theorem countP_set_le (p : α → Bool) (table : List α) (i : Nat) (a : α) :
    (table.set i a).countP p ≤ table.countP p + if p a then 1 else 0 := by
  by_cases hi : i < table.length
  · rw [List.countP_set hi]
    omega
  · rw [List.set_eq_of_length_le (Nat.le_of_not_lt hi)]
    omega

theorem modify_eq_set (f : α → α) {i : Nat} (h : table[i]? = some a) :
    table.modify i f = table.set i (f a) := by
  obtain ⟨hi, rfl⟩ := List.getElem?_eq_some_iff.mp h
  exact List.modify_eq_set_get f hi

end Sv6x66.Lib
