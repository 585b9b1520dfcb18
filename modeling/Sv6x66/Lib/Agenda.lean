import Mathlib.Data.List.TakeWhile
import Mathlib.Tactic

/-! What a set of alarms is for: each is armed for a time or not armed, and the next one is
the earliest, of those for the same time the one that was armed first. A list in this order
is a representation of it. -/
namespace Sv6x66.Lib
open Function

variable {α : Type*}

/-- `order` counts the alarms armed before this one. -/
structure Alarm where
  due : Int
  order : Nat

def Alarm.Before (a b : Alarm) : Prop := a.due < b.due ∨ a.due = b.due ∧ a.order < b.order

theorem Alarm.Before.due_le {a b : Alarm} (h : a.Before b) : a.due ≤ b.due := by
  rcases h with hlt | ⟨heq, -⟩
  · exact hlt.le
  · exact heq.le

theorem Alarm.not_before_self (a : Alarm) : ¬ a.Before a := by
  rintro (h | ⟨-, h⟩)
  · exact lt_irrefl _ h
  · exact lt_irrefl _ h

structure Agenda (α : Type*) where
  armed : α → Option Alarm
  calls : Nat

namespace Agenda

def empty : Agenda α := ⟨fun _ => none, 0⟩

/-- Everything else comes after `x`. -/
structure IsNext (g : Agenda α) (x : α) (alarm : Alarm) : Prop where
  armed : g.armed x = some alarm
  first : ∀ y other, y ≠ x → g.armed y = some other → alarm.Before other

theorem IsNext.due_le {g : Agenda α} {x y : α} {alarm other : Alarm} (h : g.IsNext x alarm)
    (hy : g.armed y = some other) : alarm.due ≤ other.due := by
  by_cases hxy : y = x
  · subst hxy
    cases h.armed.symm.trans hy
    exact le_refl _
  · exact (h.first y other hxy hy).due_le

variable [DecidableEq α]

def set (g : Agenda α) (x : α) (due : Int) : Agenda α :=
  { armed := update g.armed x (some ⟨due, g.calls⟩), calls := g.calls + 1 }

def cancel (g : Agenda α) (x : α) : Agenda α := { g with armed := update g.armed x none }

variable {g : Agenda α} {x y : α}

@[simp] theorem set_self (g : Agenda α) (x : α) (due : Int) :
    (g.set x due).armed x = some ⟨due, g.calls⟩ := update_self ..

theorem set_of_ne (h : y ≠ x) (g : Agenda α) (due : Int) :
    (g.set x due).armed y = g.armed y := update_of_ne h ..

@[simp] theorem cancel_self (g : Agenda α) (x : α) : (g.cancel x).armed x = none :=
  update_self ..

theorem cancel_of_ne (h : y ≠ x) (g : Agenda α) : (g.cancel x).armed y = g.armed y :=
  update_of_ne h ..

theorem cancel_of_not_armed (h : g.armed x = none) : g.cancel x = g := by
  rw [cancel, ← h, update_eq_self]

theorem set_cancel (g : Agenda α) (x : α) (due : Int) : (g.cancel x).set x due = g.set x due := by
  simp [set, cancel]

theorem armed_of_cancel {alarm : Alarm} (h : (g.cancel x).armed y = some alarm) :
    y ≠ x ∧ g.armed y = some alarm := by
  by_cases hy : y = x
  · subst hy
    rw [cancel_self] at h
    cases h
  · exact ⟨hy, (cancel_of_ne hy g).symm.trans h⟩

/-- The armed alarms in their order. -/
structure Lists (g : Agenda α) (nodes : List α) : Prop where
  mem_iff : ∀ x, x ∈ nodes ↔ (g.armed x).isSome
  sorted : nodes.Pairwise fun x y => ∀ a ∈ g.armed x, ∀ b ∈ g.armed y, a.Before b
  order : ∀ x, ∀ a ∈ g.armed x, a.order < g.calls

namespace Lists

variable {nodes front back : List α}

omit [DecidableEq α] in
theorem empty : (empty : Agenda α).Lists [] where
  mem_iff := fun _ => iff_of_false List.not_mem_nil Bool.false_ne_true
  sorted := .nil
  order := by
    intro x a ha
    cases ha

omit [DecidableEq α] in
theorem armed_of_mem (h : g.Lists nodes) (hx : x ∈ nodes) : ∃ a, g.armed x = some a :=
  Option.isSome_iff_exists.mp ((h.mem_iff x).mp hx)

omit [DecidableEq α] in
theorem nodup (h : g.Lists nodes) : nodes.Nodup := by
  refine List.Pairwise.imp_of_mem ?_ h.sorted
  rintro x y hx - hbefore rfl
  obtain ⟨a, ha⟩ := h.armed_of_mem hx
  exact a.not_before_self (hbefore a ha a ha)

omit [DecidableEq α] in
theorem none_armed (h : g.Lists []) (x : α) : g.armed x = none := by
  have hx : ¬ (g.armed x).isSome := fun hsome => List.not_mem_nil ((h.mem_iff x).mpr hsome)
  simpa using hx

omit [DecidableEq α] in
/-- The head of the list is the next alarm. -/
theorem isNext (h : g.Lists (x :: nodes)) : ∃ alarm, g.IsNext x alarm := by
  obtain ⟨alarm, halarm⟩ := h.armed_of_mem List.mem_cons_self
  refine ⟨alarm, halarm, fun y other hne hy => ?_⟩
  have hmem : y ∈ x :: nodes := (h.mem_iff y).mpr (hy ▸ rfl)
  have hlater : y ∈ nodes := (List.mem_cons.mp hmem).resolve_left hne
  exact (List.pairwise_cons.mp h.sorted).1 y hlater alarm halarm other hy

theorem cancel (h : g.Lists (front ++ x :: back)) : (g.cancel x).Lists (front ++ back) where
  mem_iff := by
    have hnodup := List.nodup_cons.mp (List.perm_middle.nodup_iff.mp h.nodup)
    intro y
    by_cases hy : y = x
    · subst hy
      rw [cancel_self]
      exact iff_of_false hnodup.1 Bool.false_ne_true
    · rw [cancel_of_ne hy, ← h.mem_iff, List.mem_append, List.mem_append, List.mem_cons]
      simp [hy]
  sorted := by
    have hsub : (front ++ back).Sublist (front ++ x :: back) :=
      (List.Sublist.refl front).append (List.sublist_cons_self x back)
    refine (h.sorted.sublist hsub).imp fun hbefore a ha b hb => ?_
    exact hbefore a (armed_of_cancel ha).2 b (armed_of_cancel hb).2
  order := fun y a ha => h.order y a (armed_of_cancel ha).2

/-- An alarm goes behind those that are not due later. -/
theorem insert {due : Int} (h : g.Lists (front ++ back)) (hx : g.armed x = none)
    (hfront : ∀ y ∈ front, ∀ a ∈ g.armed y, a.due ≤ due)
    (hback : ∀ y ∈ back, ∀ a ∈ g.armed y, due < a.due) :
    (g.set x due).Lists (front ++ x :: back) where
  mem_iff := by
    intro y
    by_cases hy : y = x
    · subst hy
      rw [set_self]
      exact iff_of_true (by simp) rfl
    · rw [set_of_ne hy, ← h.mem_iff, List.mem_append, List.mem_append, List.mem_cons]
      simp [hy]
  sorted := by
    have hne : ∀ y ∈ front ++ back, y ≠ x := by
      rintro y hy rfl
      obtain ⟨a, ha⟩ := h.armed_of_mem hy
      rw [hx] at ha
      cases ha
    have hold : (front ++ back).Pairwise fun y z =>
        ∀ a ∈ (g.set x due).armed y, ∀ b ∈ (g.set x due).armed z, a.Before b := by
      refine h.sorted.imp_of_mem fun hy hz hbefore => ?_
      rwa [set_of_ne (hne _ hy), set_of_ne (hne _ hz)]
    obtain ⟨hfronts, hbacks, hcross⟩ := List.pairwise_append.mp hold
    refine List.pairwise_append.mpr ⟨hfronts, List.pairwise_cons.mpr ⟨?_, hbacks⟩, ?_⟩
    · intro y hy a ha b hb
      rw [set_self] at ha
      cases ha
      rw [set_of_ne (hne y (List.mem_append_right _ hy))] at hb
      exact .inl (hback y hy b hb)
    · intro y hy z hz a ha b hb
      obtain rfl | hz := List.mem_cons.mp hz
      · rw [set_of_ne (hne y (List.mem_append_left _ hy))] at ha
        rw [set_self] at hb
        cases hb
        rcases (hfront y hy a ha).lt_or_eq with hlt | heq
        · exact .inl hlt
        · exact .inr ⟨heq, h.order y a ha⟩
      · exact hcross y hy z hz a ha b hb
  order := by
    intro y a ha
    by_cases hy : y = x
    · subst hy
      rw [set_self] at ha
      cases ha
      exact Nat.lt_succ_self _
    · rw [set_of_ne hy] at ha
      exact Nat.lt_succ_of_lt (h.order y a ha)

omit [DecidableEq α] in
/-- The list falls apart where the alarms get later than `due`. -/
theorem split (h : g.Lists nodes) (due : Int) : ∃ front back, nodes = front ++ back ∧
    (∀ y ∈ front, ∀ a ∈ g.armed y, a.due ≤ due) ∧
      ∀ y ∈ back, ∀ a ∈ g.armed y, due < a.due := by
  let early := fun y => (g.armed y).all fun a => decide (a.due ≤ due)
  refine ⟨nodes.takeWhile early, nodes.dropWhile early, List.takeWhile_append_dropWhile.symm,
    ?_, ?_⟩
  · intro y hy a ha
    have hearly : early y = true := List.mem_takeWhile_imp hy
    simpa [early, show g.armed y = some a from ha] using hearly
  · have hhead := List.head?_dropWhile_not early nodes
    have hsorted := h.sorted.sublist (List.dropWhile_sublist early)
    have hmem : ∀ y ∈ nodes.dropWhile early, y ∈ nodes := fun y hy =>
      (List.dropWhile_sublist early).subset hy
    cases hback : nodes.dropWhile early with
    | nil => simp
    | cons z back =>
      rw [hback] at hhead hsorted hmem
      obtain ⟨first, hfirst⟩ := h.armed_of_mem (hmem z List.mem_cons_self)
      have hlate : due < first.due := by
        simpa [early, hfirst] using hhead
      intro y hy a ha
      obtain rfl | hy := List.mem_cons.mp hy
      · cases hfirst.symm.trans ha
        exact hlate
      · have hbefore := (List.pairwise_cons.mp hsorted).1 y hy first hfirst a ha
        exact hlate.trans_le hbefore.due_le

end Lists

end Agenda

end Sv6x66.Lib
