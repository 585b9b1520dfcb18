import Mathlib.Tactic

/-! First-in first-out queues that hold at most `capacity` elements. -/
namespace Sv6x66.Lib

structure BoundedQueue (α : Type*) (capacity : Nat) where
  items : List α
  length_le : items.length ≤ capacity

namespace BoundedQueue

variable {α : Type*} {capacity : Nat}

def empty : BoundedQueue α capacity := ⟨[], Nat.zero_le _⟩

/-- A full queue takes nothing. -/
def enqueue (q : BoundedQueue α capacity) (a : α) : Option (BoundedQueue α capacity) :=
  if h : q.items.length < capacity then
    some ⟨q.items ++ [a], by rw [List.length_append, List.length_singleton]; omega⟩
  else none

/-- The oldest `n` elements, or all of them when there are fewer. -/
def dequeue (q : BoundedQueue α capacity) (n : Nat) : List α × BoundedQueue α capacity :=
  (q.items.take n, ⟨q.items.drop n, by rw [List.length_drop]; have := q.length_le; omega⟩)

theorem enqueue_of_lt {q : BoundedQueue α capacity} (h : q.items.length < capacity) (a : α) :
    ∃ q', q.enqueue a = some q' ∧ q'.items = q.items ++ [a] := by
  unfold enqueue
  rw [dif_pos h]
  exact ⟨_, rfl, rfl⟩

theorem enqueue_of_full {q : BoundedQueue α capacity} (h : q.items.length = capacity) (a : α) :
    q.enqueue a = none := by
  unfold enqueue
  rw [dif_neg (by omega)]

theorem enqueue_items {q q' : BoundedQueue α capacity} {a : α} (h : q.enqueue a = some q') :
    q'.items = q.items ++ [a] := by
  unfold enqueue at h
  split at h
  · cases h
    rfl
  · cases h

theorem enqueue_eq_none {q : BoundedQueue α capacity} {a : α} (h : q.enqueue a = none) :
    q.items.length = capacity := by
  unfold enqueue at h
  split at h
  · cases h
  · have := q.length_le
    omega

theorem dequeue_append (q : BoundedQueue α capacity) (n : Nat) :
    (q.dequeue n).1 ++ (q.dequeue n).2.items = q.items :=
  List.take_append_drop n q.items

end BoundedQueue

end Sv6x66.Lib
