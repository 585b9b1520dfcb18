import Sv6x66.Lib.LinkedQueue

/-! Singly linked lists that are changed through a pointer to a link: the one to the
first node, or the field `next` of a node. -/
namespace Sv6x66.Lib.PointerList
open Function

variable {α : Type*}

structure Links (α : Type*) where
  first : Option α
  next : α → Option α

/-- A link is `none` for the pointer to the first node, and `some x` for the one in `x`. -/
def Links.get (l : Links α) : Option α → Option α
  | none => l.first
  | some x => l.next x

/-- The loop from a link on, to the first one whose node is `stop`ped at, or the last one;
`none` when it does not end within the given number of turns. -/
def seek (l : Links α) (stop : α → Bool) : Nat → Option α → Option (Option α)
  | 0, _ => none
  | turns + 1, prev =>
    match l.get prev with
    | none => some prev
    | some node => if stop node then some prev else seek l stop turns (some node)

/-- The list of `l` is `nodes`, each of them once. -/
structure IsList (l : Links α) (nodes : List α) : Prop where
  nodup : nodes.Nodup
  linked : Linked l.next l.first nodes

variable {l : Links α} {nodes front back : List α} {x : α}

theorem IsList.empty (next : α → Option α) : IsList ⟨none, next⟩ [] := ⟨List.nodup_nil, rfl⟩

theorem IsList.first_eq (h : IsList l nodes) : l.first = nodes.head? := h.linked.head_eq

theorem linked_after {next : α → Option α} {a : Option α} (h : Linked next a (front ++ back)) :
    Linked next back.head? back := by
  induction front generalizing a with
  | nil =>
    have hhead : a = back.head? := h.head_eq
    rwa [← hhead]
  | cons y front ih => exact ih h.2

/-- The link behind the first part of a list points to the second part. -/
theorem IsList.get_getLast? (h : IsList l (front ++ back)) :
    l.get front.getLast? = back.head? := by
  obtain rfl | ⟨front, last, rfl⟩ := List.eq_nil_or_concat front
  · exact h.first_eq
  · rw [List.concat_eq_append, List.append_assoc] at h
    rw [List.concat_eq_append, List.getLast?_concat]
    exact (linked_after h.linked).2.head_eq

theorem seek_from {stop : α → Bool} (done : List α) (h : IsList l (done ++ front ++ back))
    (hfront : ∀ y ∈ front, stop y = false) (hback : ∀ y ∈ back.head?, stop y = true)
    {turns : Nat} (hturns : front.length < turns) :
    seek l stop turns done.getLast? = some (done ++ front).getLast? := by
  induction front generalizing done turns with
  | nil =>
    obtain ⟨turns, rfl⟩ := Nat.exists_eq_add_one.mpr hturns
    rw [List.append_nil] at h ⊢
    rw [seek, h.get_getLast?]
    cases hhead : back.head? with
    | none => rfl
    | some y => exact if_pos (hback y hhead)
  | cons y front ih =>
    obtain ⟨turns, rfl⟩ := Nat.exists_eq_add_one.mpr (Nat.zero_lt_of_lt hturns)
    have hlink := h
    rw [List.append_assoc] at hlink
    rw [seek, hlink.get_getLast?, List.cons_append, List.head?_cons]
    dsimp only
    rw [if_neg (by simp [hfront y List.mem_cons_self])]
    have hnext := ih (done ++ [y]) (by simpa using h)
      (fun z hz => hfront z (List.mem_cons_of_mem y hz)) (Nat.lt_of_succ_lt_succ hturns)
    rwa [List.getLast?_concat, List.append_assoc] at hnext

/-- The loop ends behind the first part of the list if only the second one begins with a
node it stops at. -/
theorem IsList.seek_eq {stop : α → Bool} (h : IsList l (front ++ back))
    (hfront : ∀ y ∈ front, stop y = false) (hback : ∀ y ∈ back.head?, stop y = true)
    {turns : Nat} (hturns : front.length < turns) :
    seek l stop turns none = some front.getLast? :=
  seek_from [] h hfront hback hturns

theorem IsList.congr {l' : Links α} (h : IsList l nodes) (hfirst : l'.first = l.first)
    (hnext : ∀ y ∈ nodes, l'.next y = l.next y) : IsList l' nodes :=
  ⟨h.nodup, hfirst ▸ h.linked.congr hnext⟩

variable [DecidableEq α]

def Links.set (l : Links α) (prev node : Option α) : Links α :=
  match prev with
  | none => { l with first := node }
  | some x => { l with next := update l.next x node }

theorem linked_redirect {next : α → Option α} {a : Option α} {last : α} {later : List α}
    (h : Linked next a (front ++ last :: back)) (hnodup : (front ++ last :: back).Nodup)
    {node : Option α} (hlater : Linked (update next last node) node later) :
    Linked (update next last node) a (front ++ last :: later) := by
  induction front generalizing a with
  | nil =>
    refine ⟨h.1, ?_⟩
    rwa [update_self]
  | cons y front ih =>
    obtain ⟨hfresh, hrest⟩ := List.nodup_cons.mp hnodup
    have hne : y ≠ last := by
      rintro rfl
      exact hfresh (by simp)
    refine ⟨h.1, ?_⟩
    rw [update_of_ne hne]
    exact ih h.2 hrest

/-- The link behind the first part of a list is set to another second part. -/
theorem IsList.redirect (h : IsList l (front ++ back)) {node : Option α} {later : List α}
    (hnodup : (front ++ later).Nodup) (hlater : Linked l.next node later) :
    IsList (l.set front.getLast? node) (front ++ later) := by
  refine ⟨hnodup, ?_⟩
  obtain rfl | ⟨front, last, rfl⟩ := List.eq_nil_or_concat front
  · exact hlater
  · rw [List.concat_eq_append, List.append_assoc] at h hnodup
    rw [List.concat_eq_append, List.getLast?_concat, List.append_assoc]
    refine linked_redirect h.linked h.nodup (hlater.congr fun y hy => ?_)
    apply update_of_ne
    rintro rfl
    have hdisjoint := (List.nodup_append.mp hnodup).2.1
    exact (List.nodup_cons.mp hdisjoint).1 hy

/-- Linking a node between the two parts of a list: the link to it first, its own then. -/
theorem IsList.insert (h : IsList l (front ++ back)) (hfresh : x ∉ front ++ back) :
    IsList ((l.set front.getLast? (some x)).set (some x) back.head?) (front ++ x :: back) := by
  have hnodup : (front ++ x :: back).Nodup :=
    List.perm_middle.nodup_iff.mpr (List.nodup_cons.mpr ⟨hfresh, h.nodup⟩)
  have hx : ∀ y ∈ front ++ back, y ≠ x := by
    rintro y hy rfl
    exact hfresh hy
  -- with the link of `x` set first, the other one is a redirection of the old list
  have hmoved : IsList (l.set (some x) back.head?) (front ++ back) :=
    h.congr rfl fun y hy => update_of_ne (hx y hy) ..
  have hlater : Linked (l.set (some x) back.head?).next (some x) (x :: back) := by
    refine ⟨rfl, ?_⟩
    rw [show (l.set (some x) back.head?).next x = back.head? from update_self ..]
    refine (linked_after h.linked).congr fun y hy => ?_
    exact update_of_ne (hx y (List.mem_append_right _ hy)) ..
  have hlist := hmoved.redirect hnodup hlater
  obtain rfl | ⟨front, last, rfl⟩ := List.eq_nil_or_concat front
  · exact hlist
  · rw [List.concat_eq_append, List.getLast?_concat] at hlist ⊢
    have hne : x ≠ last := (hx last (by simp)).symm
    refine hlist.congr rfl fun y _ => ?_
    exact congrFun (update_comm hne back.head? (some x) l.next).symm y

/-- Unlinking a node. -/
theorem IsList.remove (h : IsList l (front ++ x :: back)) :
    IsList (l.set front.getLast? (l.next x)) (front ++ back) := by
  have hnodup := List.perm_middle.nodup_iff.mp h.nodup
  exact h.redirect (List.nodup_cons.mp hnodup).2 (linked_after h.linked).2

end Sv6x66.Lib.PointerList
