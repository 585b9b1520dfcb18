import Mathlib.Tactic

/-! A running minimum with a payload: a candidate replaces the best one only
when its key is strictly smaller, so the first of several least candidates
wins. -/
namespace Sv6x66.Lib.RunningMin

variable {α β : Type*} [LinearOrder α]

def offer (best candidate : α × β) : α × β :=
  if best.1 > candidate.1 then candidate else best

theorem offer_le_best (best candidate : α × β) : (offer best candidate).1 ≤ best.1 := by
  unfold offer
  split
  · exact le_of_lt ‹_›
  · exact le_refl _

theorem offer_le_candidate (best candidate : α × β) :
    (offer best candidate).1 ≤ candidate.1 := by
  unfold offer
  split
  · exact le_refl _
  · exact le_of_not_gt ‹_›

theorem offer_eq (best candidate : α × β) :
    offer best candidate = best ∨ offer best candidate = candidate := by
  unfold offer
  split
  · exact Or.inr rfl
  · exact Or.inl rfl

theorem foldl_offer_le_init (candidates : List (α × β)) (init : α × β) :
    (candidates.foldl offer init).1 ≤ init.1 := by
  induction candidates generalizing init with
  | nil => exact le_refl _
  | cons c rest ih => exact (ih (offer init c)).trans (offer_le_best init c)

theorem foldl_offer_le {candidates : List (α × β)} {c : α × β} (hc : c ∈ candidates)
    (init : α × β) : (candidates.foldl offer init).1 ≤ c.1 := by
  induction candidates generalizing init with
  | nil => cases hc
  | cons d rest ih =>
    cases hc with
    | head => exact (foldl_offer_le_init rest _).trans (offer_le_candidate init c)
    | tail _ hrest => exact ih hrest (offer init d)

theorem foldl_offer_mem (candidates : List (α × β)) (init : α × β) :
    candidates.foldl offer init = init ∨ candidates.foldl offer init ∈ candidates := by
  induction candidates generalizing init with
  | nil => exact Or.inl rfl
  | cons c rest ih =>
    cases ih (offer init c) with
    | inl heq =>
      rw [List.foldl_cons, heq]
      cases offer_eq init c with
      | inl h => exact Or.inl h
      | inr h =>
        rw [h]
        exact Or.inr List.mem_cons_self
    | inr hmem => exact Or.inr (List.mem_cons_of_mem c hmem)

/-- The first of the least ones. -/
structure FirstLeast (candidates : List (α × β)) (c : α × β) : Prop where
  least : ∀ b ∈ candidates, c.1 ≤ b.1
  first : candidates.find? (fun b => b.1 ≤ c.1) = some c

namespace FirstLeast

variable {candidates : List (α × β)} {init c d : α × β}

theorem mem (h : FirstLeast candidates c) : c ∈ candidates :=
  List.mem_of_find?_eq_some h.first

theorem unique (hc : FirstLeast candidates c) (hd : FirstLeast candidates d) : c = d := by
  have hkey : c.1 = d.1 := le_antisymm (hc.least d hd.mem) (hd.least c hc.mem)
  have hfirst := hc.first
  rw [hkey, hd.first] at hfirst
  exact (Option.some.inj hfirst).symm

/-- A first candidate that is not the least one makes no difference. -/
theorem cons_iff (hlt : c.1 < init.1) :
    FirstLeast (init :: candidates) c ↔ FirstLeast candidates c := by
  have hskip : (init :: candidates).find? (fun b => b.1 ≤ c.1) =
      candidates.find? fun b => b.1 ≤ c.1 :=
    List.find?_cons_of_neg (by simpa using hlt)
  constructor
  · intro h
    exact ⟨fun b hb => h.least b (List.mem_cons_of_mem _ hb), hskip ▸ h.first⟩
  · intro h
    exact ⟨List.forall_mem_cons.mpr ⟨hlt.le, h.least⟩, hskip.trans h.first⟩

end FirstLeast

theorem foldl_offer_firstLeast (candidates : List (α × β)) (init : α × β) :
    FirstLeast (init :: candidates) (candidates.foldl offer init) := by
  induction candidates generalizing init with
  | nil => exact ⟨by simp, by simp⟩
  | cons c rest ih =>
    rw [List.foldl_cons]
    by_cases hless : init.1 > c.1
    · have hoffer : offer init c = c := if_pos hless
      rw [hoffer]
      have hle := foldl_offer_le_init rest c
      exact (FirstLeast.cons_iff (lt_of_le_of_lt hle hless)).mpr (ih c)
    · have hoffer : offer init c = init := if_neg hless
      rw [hoffer]
      have hinit := ih init
      refine ⟨?_, ?_⟩
      · intro b hb
        rcases List.mem_cons.mp hb with rfl | hb
        · exact hinit.least _ List.mem_cons_self
        rcases List.mem_cons.mp hb with rfl | hb
        · exact (hinit.least _ List.mem_cons_self).trans (le_of_not_gt hless)
        · exact hinit.least b (List.mem_cons_of_mem _ hb)
      · have hfirst := hinit.first
        by_cases hstays : init.1 ≤ (rest.foldl offer init).1
        · rw [List.find?_cons_of_pos (by simpa using hstays)] at hfirst ⊢
          exact hfirst
        · rw [List.find?_cons_of_neg (by simpa using hstays)] at hfirst ⊢
          have hskip : ¬ c.1 ≤ (rest.foldl offer init).1 := fun hc =>
            hstays ((le_of_not_gt hless).trans hc)
          rwa [List.find?_cons_of_neg (by simpa using hskip)]

theorem foldl_offer_eq_iff {candidates : List (α × β)} {init c : α × β} :
    candidates.foldl offer init = c ↔ FirstLeast (init :: candidates) c := by
  constructor
  · rintro rfl
    exact foldl_offer_firstLeast candidates init
  · exact (foldl_offer_firstLeast candidates init).unique

/-- Dropping candidates changes nothing if and only if each dropped one that is the
first of the least leaves an equal one first. -/
theorem foldl_offer_filter_iff {ι : Type*} (p : ι → Bool) (f : ι → α × β) (l : List ι)
    (init : α × β) :
    ((l.filter p).map f).foldl offer init = (l.map f).foldl offer init ↔
      ∀ x ∈ l, p x = false → (f x).1 < init.1 → FirstLeast (l.map f) (f x) →
        ((l.filter p).map f).find? (fun b => b.1 ≤ (f x).1) = some (f x) := by
  constructor
  · intro heq x _ _ hlt hx
    rw [foldl_offer_eq_iff.mpr ((FirstLeast.cons_iff hlt).mpr hx), foldl_offer_eq_iff,
      FirstLeast.cons_iff hlt] at heq
    exact heq.first
  · intro h
    have hall := foldl_offer_firstLeast (l.map f) init
    rw [foldl_offer_eq_iff]
    generalize (l.map f).foldl offer init = c at hall
    have hleast : ∀ b ∈ init :: (l.filter p).map f, c.1 ≤ b.1 := by
      intro b hb
      refine hall.least b (List.cons_subset_cons _ (List.map_subset _ ?_) hb)
      exact List.filter_subset_self l
    refine ⟨hleast, ?_⟩
    by_cases hinit : init.1 ≤ c.1
    · have hfirst := hall.first
      rw [List.find?_cons_of_pos (by simpa using hinit)] at hfirst ⊢
      exact hfirst
    have hlt := lt_of_not_ge hinit
    rw [FirstLeast.cons_iff hlt] at hall
    rw [List.find?_cons_of_neg (by simpa using hinit)]
    have hfirst := hall.first
    rw [List.find?_map, Option.map_eq_some_iff] at hfirst
    obtain ⟨x, hx, rfl⟩ := hfirst
    cases hp : p x with
    | false => exact h x (List.mem_of_find?_eq_some hx) hp hlt hall
    | true =>
      obtain ⟨hle, before, after, hl, hbefore⟩ := List.find?_eq_some_iff_append.mp hx
      rw [List.find?_map, Option.map_eq_some_iff]
      refine ⟨x, ?_, rfl⟩
      rw [List.find?_filter, List.find?_eq_some_iff_append]
      refine ⟨decide_eq_true ⟨hp, hle⟩, before, after, hl, ?_⟩
      intro y hy
      have hnot := hbefore y hy
      rw [Bool.not_eq_true'] at hnot ⊢
      refine decide_eq_false fun hboth => ?_
      rw [hboth.2] at hnot
      cases hnot

end Sv6x66.Lib.RunningMin
