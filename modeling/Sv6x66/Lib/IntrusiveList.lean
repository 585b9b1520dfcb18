import Mathlib.Tactic

/-! Circular doubly linked lists whose links live in two maps from addresses to
addresses, with a head that is no node. Insertion and removal are proved once
for one direction: the other one is the same statement on the reversed list. -/
namespace Sv6x66.Lib.IntrusiveList
open Function

variable {α : Type*}

/-- Following `f` from `a` visits `nodes` and arrives at `b`. -/
def Path (f : α → α) : α → List α → α → Prop
  | a, [], b => f a = b
  | a, x :: nodes, b => f a = x ∧ Path f x nodes b

namespace Path

variable {f g : α → α} {a b x : α} {nodes xs ys : List α}

theorem append_iff : Path f a (xs ++ x :: ys) b ↔ Path f a xs x ∧ Path f x ys b := by
  induction xs generalizing a with
  | nil => rfl
  | cons y xs ih =>
    simp only [List.cons_append, Path, ih]
    exact and_assoc.symm

theorem congr (h : Path f a nodes b) (hagree : ∀ y ∈ a :: nodes, g y = f y) :
    Path g a nodes b := by
  induction nodes generalizing a with
  | nil => exact (hagree a (List.mem_cons_self ..)).trans h
  | cons y nodes ih =>
    exact ⟨(hagree a (List.mem_cons_self ..)).trans h.1,
      ih h.2 fun z hz => hagree z (List.mem_cons_of_mem _ hz)⟩

/-- A path only depends on its start through the first step. -/
theorem of_start (h : Path f a nodes b) (hstart : g x = f a) (hagree : ∀ y ∈ nodes, g y = f y) :
    Path g x nodes b := by
  cases nodes with
  | nil => exact hstart.trans h
  | cons y nodes => exact ⟨hstart.trans h.1, h.2.congr hagree⟩

theorem next_eq (h : Path f a nodes b) : f a = nodes.headD b := by
  cases nodes with
  | nil => exact h
  | cons y nodes => exact h.1

/-- The part of a path after its first `xs`. -/
theorem tail (h : Path f a (xs ++ ys) b) : Path f (xs.getLastD a) ys b := by
  induction xs generalizing a with
  | nil => exact h
  | cons y xs ih =>
    rw [List.getLastD_cons]
    exact ih h.2

theorem getLastD_mem (a : α) (xs : List α) : xs.getLastD a ∈ a :: xs := by
  induction xs generalizing a with
  | nil => exact List.mem_singleton_self a
  | cons y xs ih =>
    rw [List.getLastD_cons]
    exact List.mem_cons_of_mem _ (ih y)

variable [DecidableEq α]

/-- Redirecting the last step of the first part of a path. -/
theorem redirect (h : Path f a (xs ++ ys) b) (hnodup : (a :: xs).Nodup) :
    Path (update f (xs.getLastD a) x) a xs x := by
  induction xs generalizing a with
  | nil => exact update_self a x f
  | cons y xs ih =>
    have hlast := getLastD_mem y xs
    have hne : a ≠ xs.getLastD y := by
      intro heq
      rw [← heq] at hlast
      exact (List.nodup_cons.mp hnodup).1 hlast
    rw [List.getLastD_cons]
    exact ⟨(update_of_ne hne x f).trans h.1, ih h.2 (List.nodup_cons.mp hnodup).2⟩

theorem insert {head : α} (h : Path f head (xs ++ ys) head) (hnodup : (head :: (xs ++ ys)).Nodup)
    (hfresh : x ∉ head :: (xs ++ ys)) :
    Path (update (update f x (ys.headD head)) (xs.getLastD head) x) head (xs ++ x :: ys) head := by
  rw [← List.cons_append] at hnodup hfresh
  obtain ⟨hxs, -, hdisjoint⟩ := List.nodup_append.mp hnodup
  have hlast := getLastD_mem head xs
  have hlastne : x ≠ xs.getLastD head := by
    intro heq
    exact hfresh (List.mem_append_left _ (heq ▸ hlast))
  have hright := h.tail
  have hmoved : Path (update f x (ys.headD head)) head (xs ++ ys) head := by
    apply h.congr
    intro y hy
    apply update_of_ne
    rintro rfl
    exact hfresh hy
  rw [append_iff]
  constructor
  · exact redirect hmoved hxs
  · apply hright.of_start
    · rw [update_of_ne hlastne, update_self, hright.next_eq]
    · intro y hy
      rw [update_of_ne (hdisjoint _ hlast y hy).symm]
      apply update_of_ne
      rintro rfl
      exact hfresh (List.mem_append_right _ hy)

theorem remove {head : α} (h : Path f head (xs ++ x :: ys) head)
    (hnodup : (head :: (xs ++ x :: ys)).Nodup) :
    Path (update f (xs.getLastD head) (f x)) head (xs ++ ys) head := by
  rw [← List.cons_append] at hnodup
  obtain ⟨hxs, hys, hdisjoint⟩ := List.nodup_append.mp hnodup
  have hlast := getLastD_mem head xs
  have hright := (append_iff.mp h).2
  have hkeep : ∀ y ∈ ys, update f (xs.getLastD head) (f x) y = f y := by
    intro y hy
    exact update_of_ne (hdisjoint _ hlast y (List.mem_cons_of_mem _ hy)).symm _ _
  cases ys with
  | nil =>
    rw [List.append_nil]
    rw [show f x = head from hright]
    exact redirect h hxs
  | cons y ys =>
    rw [append_iff]
    constructor
    · rw [show f x = y from hright.1]
      exact redirect h hxs
    · apply hright.2.congr
      exact hkeep

end Path

/-- The first `count` addresses after `a`. -/
def follow (f : α → α) : Nat → α → List α
  | 0, _ => []
  | count + 1, a => f a :: follow f count (f a)

theorem Path.follow_eq {f : α → α} {a b : α} {nodes : List α} (h : Path f a nodes b) :
    follow f nodes.length a = nodes := by
  induction nodes generalizing a with
  | nil => rfl
  | cons x nodes ih =>
    rw [List.length_cons, follow, h.1, ih h.2]

/-! ### Rings -/

theorem getLastD_reverse (l : List α) (a : α) : l.reverse.getLastD a = l.headD a := by
  simp only [List.getLastD_eq_getLast?, List.getLast?_reverse, List.headD_eq_head?_getD]

theorem headD_reverse (l : List α) (a : α) : l.reverse.headD a = l.getLastD a := by
  simp only [List.getLastD_eq_getLast?, List.head?_reverse, List.headD_eq_head?_getD]

structure Links (α : Type*) where
  next : α → α
  prev : α → α

/-- The ring of `head` holds `nodes`, in both directions. -/
structure IsRing (links : Links α) (head : α) (nodes : List α) : Prop where
  nodup : (head :: nodes).Nodup
  next : Path links.next head nodes head
  prev : Path links.prev head nodes.reverse head

namespace IsRing

variable {links links' : Links α} {head x : α} {nodes xs ys : List α}

/-- Only the links of the head and the nodes count. -/
theorem congr (h : IsRing links head nodes)
    (hnext : ∀ y ∈ head :: nodes, links'.next y = links.next y)
    (hprev : ∀ y ∈ head :: nodes, links'.prev y = links.prev y) : IsRing links' head nodes where
  nodup := h.nodup
  next := h.next.congr hnext
  prev := by
    apply h.prev.congr
    intro y hy
    apply hprev
    simpa using hy

/-- The node before the cut is the `prev` of the one after it. -/
theorem next_before (h : IsRing links head (xs ++ ys)) :
    links.next (xs.getLastD head) = ys.headD head :=
  h.next.tail.next_eq

theorem prev_after (h : IsRing links head (xs ++ ys)) :
    links.prev (ys.headD head) = xs.getLastD head := by
  have hprev := h.prev
  rw [List.reverse_append] at hprev
  have hcut := hprev.tail.next_eq
  rwa [getLastD_reverse, headD_reverse] at hcut

/-- Neighbours in a ring belong to it. -/
theorem next_mem (h : IsRing links head (xs ++ ys)) :
    xs.getLastD head ∈ head :: (xs ++ ys) ∧
      links.next (xs.getLastD head) ∈ head :: (xs ++ ys) := by
  constructor
  · exact List.mem_append_left ys (Path.getLastD_mem head xs)
  · rw [h.next_before]
    cases ys with
    | nil => exact List.mem_cons_self ..
    | cons y ys => simp

end IsRing

variable [DecidableEq α]

def init (links : Links α) (head : α) : Links α where
  next := update links.next head head
  prev := update links.prev head head

def insert (links : Links α) (before x : α) : Links α where
  next := update (update links.next x (links.next before)) before x
  prev := update (update links.prev x before) (links.next before) x

def remove (links : Links α) (x : α) : Links α where
  next := update links.next (links.prev x) (links.next x)
  prev := update links.prev (links.next x) (links.prev x)

namespace IsRing

variable {links : Links α} {head x : α} {nodes xs ys : List α}

theorem init (links : Links α) (head : α) : IsRing (init links head) head [] where
  nodup := List.nodup_singleton head
  next := by simp [Path, IntrusiveList.init]
  prev := by simp [Path, IntrusiveList.init]

theorem insert (h : IsRing links head (xs ++ ys)) (hfresh : x ∉ head :: (xs ++ ys)) :
    IsRing (insert links (xs.getLastD head) x) head (xs ++ x :: ys) where
  nodup := by
    have hperm : (head :: (xs ++ x :: ys)).Perm (x :: head :: (xs ++ ys)) :=
      (List.perm_middle.cons head).trans (List.Perm.swap ..)
    exact hperm.nodup_iff.mpr (List.nodup_cons.mpr ⟨hfresh, h.nodup⟩)
  next := by
    have hpath := h.next.insert h.nodup hfresh
    rwa [← h.next_before] at hpath
  prev := by
    have hprev := h.prev
    have hnodup : (head :: (ys.reverse ++ xs.reverse)).Nodup := by
      rw [← List.reverse_append]
      exact ((List.reverse_perm _).cons head).nodup_iff.mpr h.nodup
    have hfresh' : x ∉ head :: (ys.reverse ++ xs.reverse) := by
      rw [← List.reverse_append]
      simpa only [List.mem_cons, List.mem_reverse] using hfresh
    rw [List.reverse_append] at hprev
    have hpath := hprev.insert hnodup hfresh'
    rw [headD_reverse, getLastD_reverse, ← h.next_before] at hpath
    rw [show (xs ++ x :: ys).reverse = ys.reverse ++ x :: xs.reverse by simp]
    exact hpath

theorem remove (h : IsRing links head (xs ++ x :: ys)) :
    IsRing (remove links x) head (xs ++ ys) where
  nodup := by
    have hperm : (head :: (xs ++ x :: ys)).Perm (x :: head :: (xs ++ ys)) :=
      (List.perm_middle.cons head).trans (List.Perm.swap ..)
    exact (List.nodup_cons.mp (hperm.nodup_iff.mp h.nodup)).2
  next := by
    have hpath := h.next.remove h.nodup
    rwa [← show links.prev x = xs.getLastD head from h.prev_after] at hpath
  prev := by
    have hprev := h.prev
    have hnodup : (head :: (ys.reverse ++ x :: xs.reverse)).Nodup := by
      have hreverse : ys.reverse ++ x :: xs.reverse = (xs ++ x :: ys).reverse := by simp
      rw [hreverse]
      exact ((List.reverse_perm _).cons head).nodup_iff.mpr h.nodup
    rw [show (xs ++ x :: ys).reverse = ys.reverse ++ x :: xs.reverse by simp] at hprev
    have hpath := hprev.remove hnodup
    have hnext : links.next x = ys.headD head := by
      have hring := h
      rw [List.append_cons] at hring
      simpa using hring.next_before
    rw [getLastD_reverse, ← hnext] at hpath
    rw [List.reverse_append]
    exact hpath

theorem insert_other {head' : α} (h : IsRing links head (xs ++ ys))
    (hother : IsRing links head' nodes) (hfresh : x ∉ head' :: nodes)
    (hdisjoint : ∀ y ∈ head' :: nodes, y ∉ head :: (xs ++ ys)) :
    IsRing (IntrusiveList.insert links (xs.getLastD head) x) head' nodes := by
  obtain ⟨hbefore, hafter⟩ := h.next_mem
  have hne : ∀ y ∈ head' :: nodes, ∀ z ∈ head :: (xs ++ ys), y ≠ z := by
    rintro y hy z hz rfl
    exact hdisjoint y hy hz
  have hnex : ∀ y ∈ head' :: nodes, y ≠ x := by
    rintro y hy rfl
    exact hfresh hy
  apply hother.congr
  · intro y hy
    exact (update_of_ne (hne y hy _ hbefore) ..).trans (update_of_ne (hnex y hy) ..)
  · intro y hy
    exact (update_of_ne (hne y hy _ hafter) ..).trans (update_of_ne (hnex y hy) ..)

theorem remove_other {head' : α} (h : IsRing links head (xs ++ x :: ys))
    (hother : IsRing links head' nodes)
    (hdisjoint : ∀ y ∈ head' :: nodes, y ∉ head :: (xs ++ x :: ys)) :
    IsRing (IntrusiveList.remove links x) head' nodes := by
  have hne : ∀ y ∈ head' :: nodes, ∀ z ∈ head :: (xs ++ x :: ys), y ≠ z := by
    rintro y hy z hz rfl
    exact hdisjoint y hy hz
  have hprev : links.prev x = xs.getLastD head := h.prev_after
  have hnext := h
  rw [List.append_cons] at hnext
  obtain ⟨-, hafter⟩ := hnext.next_mem
  rw [List.getLastD_concat, ← List.append_cons] at hafter
  apply hother.congr
  · intro y hy
    exact update_of_ne (hne y hy _ (hprev ▸ h.next_mem.1)) ..
  · intro y hy
    exact update_of_ne (hne y hy _ hafter) ..

end IsRing

/-! ### Walks -/

/-- A loop that follows `f` until `stop` holds, `none` when it does not end
within the given number of turns. -/
def walkWhile (f : α → α) (stop : α → Bool) : Nat → α → Option α
  | 0, _ => none
  | turns + 1, a => if stop a then some a else walkWhile f stop turns (f a)

omit [DecidableEq α] in
theorem walkWhile_eq {f : α → α} {stop : α → Bool} {a b : α} {xs ys : List α} {turns : Nat}
    (h : Path f a (xs ++ ys) b) (hxs : ∀ x ∈ xs, stop x = false) (hys : stop (ys.headD b) = true)
    (hturns : xs.length < turns) : walkWhile f stop turns (f a) = some (ys.headD b) := by
  induction xs generalizing a turns with
  | nil =>
    obtain ⟨turns, rfl⟩ := Nat.exists_eq_add_one.mpr hturns
    rw [h.next_eq]
    exact if_pos hys
  | cons x xs ih =>
    obtain ⟨turns, rfl⟩ := Nat.exists_eq_add_one.mpr (Nat.zero_lt_of_lt hturns)
    have hx : stop x = false := hxs x (List.mem_cons_self ..)
    rw [h.1, walkWhile, if_neg (by simp [hx])]
    exact ih h.2 (fun y hy => hxs y (List.mem_cons_of_mem _ hy)) (Nat.lt_of_succ_lt_succ hturns)

end Sv6x66.Lib.IntrusiveList
