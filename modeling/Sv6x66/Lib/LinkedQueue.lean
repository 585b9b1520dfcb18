import Mathlib.Tactic

/-! Singly linked queues: a pointer to the first node, one to the last, and a field
`next` in every node. -/
namespace Sv6x66.Lib

variable {α : Type*}

/-- From `a` on, `next` leads through `nodes` to `NULL`. -/
def Linked (next : α → Option α) : Option α → List α → Prop
  | a, [] => a = none
  | a, x :: nodes => a = some x ∧ Linked next (next x) nodes

theorem Linked.congr {next next' : α → Option α} {a : Option α} {nodes : List α}
    (h : Linked next a nodes) (hagree : ∀ x ∈ nodes, next' x = next x) : Linked next' a nodes := by
  induction nodes generalizing a with
  | nil => exact h
  | cons x nodes ih =>
    refine ⟨h.1, ?_⟩
    rw [hagree x List.mem_cons_self]
    exact ih h.2 fun y hy => hagree y (List.mem_cons_of_mem x hy)

theorem Linked.head_eq {next : α → Option α} {a : Option α} {nodes : List α}
    (h : Linked next a nodes) : a = nodes.head? := by
  cases nodes with
  | nil => exact h
  | cons x nodes => exact h.1

theorem Linked.unique {next : α → Option α} {a : Option α} {nodes nodes' : List α}
    (h : Linked next a nodes) (h' : Linked next a nodes') : nodes = nodes' := by
  induction nodes generalizing a nodes' with
  | nil =>
    cases nodes' with
    | nil => rfl
    | cons x nodes' => cases h.symm.trans h'.1
  | cons x nodes ih =>
    cases nodes' with
    | nil => cases h'.symm.trans h.1
    | cons y nodes' =>
      cases Option.some.inj (h.1.symm.trans h'.1)
      rw [ih h.2 h'.2]

/-- The last link of a chain is redirected to a new node. -/
theorem Linked.snoc {next next' : α → Option α} {a : Option α} {nodes : List α} {last x : α}
    (h : Linked next a (nodes ++ [last])) (hlast : next' last = some x) (hx : next' x = none)
    (hagree : ∀ y ∈ nodes, next' y = next y) : Linked next' a (nodes ++ [last] ++ [x]) := by
  induction nodes generalizing a with
  | nil => exact ⟨h.1, hlast, hx⟩
  | cons y nodes ih =>
    refine ⟨h.1, ?_⟩
    rw [hagree y List.mem_cons_self]
    exact ih h.2 fun z hz => hagree z (List.mem_cons_of_mem y hz)

/-- The queue holds `nodes`, each of them once. -/
structure IsQueue (next : α → Option α) (head tail : Option α) (nodes : List α) : Prop where
  nodup : nodes.Nodup
  linked : Linked next head nodes
  tail : tail = nodes.getLast?

namespace IsQueue

variable {next next' : α → Option α} {head tail : Option α} {nodes : List α} {x : α}

theorem nil (next : α → Option α) : IsQueue next none none [] := ⟨List.nodup_nil, rfl, rfl⟩

theorem congr (h : IsQueue next head tail nodes) (hagree : ∀ x ∈ nodes, next' x = next x) :
    IsQueue next' head tail nodes := ⟨h.nodup, h.linked.congr hagree, h.tail⟩

theorem head_eq (h : IsQueue next head tail nodes) : head = nodes.head? := h.linked.head_eq

theorem eq_nil_iff_head (h : IsQueue next head tail nodes) : head = none ↔ nodes = [] := by
  rw [h.head_eq, List.head?_eq_none_iff]

theorem eq_nil_iff_tail (h : IsQueue next head tail nodes) : tail = none ↔ nodes = [] := by
  rw [h.tail, List.getLast?_eq_none_iff]

theorem tail_mem (h : IsQueue next head tail nodes) {last : α} (hlast : tail = some last) :
    last ∈ nodes := List.mem_of_getLast? (h.tail.symm.trans hlast)

/-- Linking a node to an empty queue. -/
theorem first (hx : next' x = none) : IsQueue next' (some x) (some x) [x] :=
  ⟨List.nodup_singleton x, ⟨rfl, hx⟩, rfl⟩

/-- Linking a node behind the last one. -/
theorem snoc {last : α} (h : IsQueue next head tail nodes) (htail : tail = some last)
    (hfresh : x ∉ nodes) (hlast : next' last = some x) (hx : next' x = none)
    (hagree : ∀ y ∈ nodes, y ≠ last → next' y = next y) :
    IsQueue next' head (some x) (nodes ++ [x]) := by
  obtain ⟨front, rfl⟩ := List.getLast?_eq_some_iff.mp (h.tail.symm.trans htail)
  refine ⟨?_, h.linked.snoc hlast hx ?_, List.getLast?_concat.symm⟩
  · exact List.nodup_append.mpr ⟨h.nodup, List.nodup_singleton x, fun y hy z hz => by
      rw [List.mem_singleton.mp hz]
      rintro rfl
      exact hfresh hy⟩
  · intro y hy
    refine hagree y (List.mem_append_left _ hy) ?_
    rintro rfl
    exact (List.nodup_append.mp h.nodup).2.2 y hy y (List.mem_singleton_self y) rfl

/-- Unlinking the first node. -/
theorem unlink (h : IsQueue next head tail (x :: nodes)) :
    IsQueue next (next x) (if next x = none then none else tail) nodes := by
  refine ⟨(List.nodup_cons.mp h.nodup).2, h.linked.2, ?_⟩
  rw [h.linked.2.head_eq, h.tail]
  cases nodes with
  | nil => rfl
  | cons y nodes => exact List.getLast?_cons_cons

theorem last_unlinked (h : IsQueue next head tail (x :: nodes)) : next x = none ↔ tail = some x := by
  rw [h.linked.2.head_eq, h.tail]
  cases nodes with
  | nil => simp
  | cons y nodes =>
    refine iff_of_false (by simp) ?_
    intro hlast
    rw [List.getLast?_cons_cons] at hlast
    exact (List.nodup_cons.mp h.nodup).1 (List.mem_of_getLast? hlast)

end IsQueue

end Sv6x66.Lib
