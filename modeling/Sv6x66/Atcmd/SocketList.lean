import Sv6x66.Lib.IntrusiveList
import Sv6x66.Lib.Run

/-! The two socket lists of `atcmd_tcpip.c`: intrusive circular lists, kept in
the order of the socket numbers so that `update_max_sd` can read the greatest
from the last node. -/
namespace Sv6x66.Atcmd.SocketList
open Sv6x66.Lib IntrusiveList Function

/-- `g_listen_socket` and `g_normal_socket`. -/
inductive Kind where
  | listen
  | normal
deriving DecidableEq, Repr

/-- The addresses of the two list heads, and of the blocks `malloc` returns. -/
inductive Addr where
  | head (k : Kind)
  | block (n : Nat)
deriving DecidableEq, Repr

/-- The memory, one map for each field. A head has no field `socket`: there the
map holds whatever lies behind the head. -/
structure Memory where
  links : Links Addr
  qlen : Addr → Nat
  socket : Addr → Int
  port : Addr → UInt16
  parentSd : Addr → Int
  /-- The blocks `malloc` has handed out and `free` has not taken back. -/
  live : List Nat
  maxSd : Int

def listQInit (m : Memory) (qhd : Addr) : Memory :=
  { m with links := init m.links qhd, qlen := update m.qlen qhd 0 }

def listQQtail (m : Memory) (qhd newq : Addr) : Memory :=
  let prev := m.links.prev qhd
  { m with
    links.next := update (update m.links.next newq qhd) prev newq
    links.prev := update (update m.links.prev newq prev) qhd newq
    qlen := update m.qlen qhd (m.qlen qhd + 1) }

def listQInsert (m : Memory) (qhd prev newq : Addr) : Memory :=
  { m with links := insert m.links prev newq, qlen := update m.qlen qhd (m.qlen qhd + 1) }

def listQRemove (m : Memory) (qhd curt : Addr) : Memory :=
  { m with links := remove m.links curt, qlen := update m.qlen qhd (m.qlen qhd - 1) }

def free (m : Memory) : Addr → Memory
  | .head _ => m
  | .block n => { m with live := m.live.erase n }

/-- The insertion of `update_new_sd` and `update_new_listen_sd`, once the fields
of `newitem` are written. The search may reach the head, and its `socket` is read
like that of a node. -/
def insertOrdered (m : Memory) (k : Kind) (newitem : Addr) (socket : Int) : Option Memory :=
  let qhd := Addr.head k
  if m.qlen qhd = 0 then some (listQQtail m qhd newitem)
  else
    (walkWhile m.links.next (fun item => item = qhd || !(m.socket item < socket))
      (m.qlen qhd + 1) (m.links.next qhd)).map fun item =>
        let item := if m.socket item > socket then m.links.prev item else item
        listQInsert m qhd item newitem

def newNode (m : Memory) (n : Nat) (socket : Int) : Memory :=
  { m with live := n :: m.live, socket := update m.socket (.block n) socket }

def updateNewListenSd (m : Memory) (socket : Int) (port : UInt16) (malloc : Option Nat) :
    Option (Int × Memory) :=
  match malloc with
  | none => some (-1, m)
  | some n =>
    let m := { newNode m n socket with port := update m.port (.block n) port }
    (insertOrdered m .listen (.block n) socket).map fun m => (0, m)

def updateNewSd (m : Memory) (socket parentSd : Int) (malloc : Option Nat) :
    Option (Int × Memory) :=
  match malloc with
  | none => some (-1, m)
  | some n =>
    let m := { newNode m n socket with parentSd := update m.parentSd (.block n) parentSd }
    (insertOrdered m .normal (.block n) socket).map fun m => (0, m)

/-- `_rm_sd` and `_rm_listen_sd`. -/
def rmFrom (m : Memory) (k : Kind) (sd : Int) : Option (Int × Memory) :=
  let qhd := Addr.head k
  if m.qlen qhd = 0 then some (-1, m)
  else
    (walkWhile m.links.next (fun item => item = qhd || m.socket item = sd)
      (m.qlen qhd + 1) (m.links.next qhd)).map fun item =>
        if item = qhd then (-1, m) else (sd, free (listQRemove m qhd item) item)

def rmSd (m : Memory) (sd : Int) : Option (Int × Memory) := rmFrom m .normal sd

def rmListenSd (m : Memory) (sd : Int) : Option (Int × Memory) := rmFrom m .listen sd

/-- What `update_max_sd` does for one list. -/
def raiseMaxSd (m : Memory) (k : Kind) : Memory :=
  let item := m.links.prev (.head k)
  if m.qlen (.head k) ≠ 0 ∧ m.maxSd < m.socket item then { m with maxSd := m.socket item } else m

def updateMaxSd (m : Memory) : Memory := raiseMaxSd (raiseMaxSd m .normal) .listen

/-- The nodes met from the head on, `qlen` of them. -/
def nodesOf (m : Memory) (k : Kind) : List Addr :=
  follow m.links.next (m.qlen (.head k)) (.head k)

/-- The registered sockets, in the order of the list. -/
def sds (m : Memory) (k : Kind) : List Int := (nodesOf m k).map m.socket

/-- The node `recv_task` stands on after `i` steps from the first one is unlinked
and freed. -/
def recvRemove (m : Memory) (k : Kind) (i : Nat) : Option Memory :=
  (nodesOf m k)[i]?.map fun item => free (listQRemove m (.head k) item) item

inductive Event where
  /-- Other code writes the words behind the heads. -/
  | write (behind : Kind → Int)
  | updateNewListenSd (socket : Int) (port : UInt16) (malloc : Option Nat)
  | updateNewSd (socket parentSd : Int) (malloc : Option Nat)
  | rmListenSd (sd : Int)
  | rmSd (sd : Int)
  | recvRemove (k : Kind) (i : Nat)
  | updateMaxSd

/-- `malloc` returns no block that is in use. -/
def Fresh (m : Memory) (malloc : Option Nat) : Prop := ∀ n ∈ malloc, n ∉ m.live

instance (m : Memory) (malloc : Option Nat) : Decidable (Fresh m malloc) :=
  inferInstanceAs (Decidable (∀ n ∈ malloc, n ∉ m.live))

def writeBehind (m : Memory) (behind : Kind → Int) : Memory :=
  { m with socket := fun
    | .head k => behind k
    | .block n => m.socket (.block n) }

def step (m : Memory) : Event → Option Memory
  | .write behind => some (writeBehind m behind)
  | .updateNewListenSd socket port malloc =>
    if Fresh m malloc then (updateNewListenSd m socket port malloc).map Prod.snd else none
  | .updateNewSd socket parentSd malloc =>
    if Fresh m malloc then (updateNewSd m socket parentSd malloc).map Prod.snd else none
  | .rmListenSd sd => (rmListenSd m sd).map Prod.snd
  | .rmSd sd => (rmSd m sd).map Prod.snd
  | .recvRemove k i => recvRemove m k i
  | .updateMaxSd => some (updateMaxSd m)

/-- Both lists as the first command leaves them; the rest of the memory is
arbitrary. -/
def initial (links : Links Addr) (qlen : Addr → Nat) (socket : Addr → Int) : Memory :=
  listQInit (listQInit ⟨links, qlen, socket, fun _ => 0, fun _ => 0, [], -1⟩ (.head .listen))
    (.head .normal)

/-! ### Two separate rings -/

/-- Both lists are rings of `qlen` nodes each, and share none. -/
structure Rings (m : Memory) (nodes : Kind → List Addr) : Prop where
  ring : ∀ k, IsRing m.links (.head k) (nodes k)
  qlen : ∀ k, m.qlen (.head k) = (nodes k).length
  live : ∀ k, ∀ item ∈ nodes k, ∃ n ∈ m.live, item = .block n
  nodup : m.live.Nodup
  apart : ∀ k l, ∀ item ∈ nodes k, item ∈ nodes l → k = l

namespace Rings

variable {m : Memory} {nodes : Kind → List Addr}

theorem nodesOf_eq (h : Rings m nodes) (k : Kind) : nodesOf m k = nodes k := by
  unfold nodesOf
  rw [h.qlen k]
  exact (h.ring k).next.follow_eq

/-- A change of other fields than the links and the lengths. -/
theorem congr {m' : Memory} (h : Rings m nodes) (hlinks : m'.links = m.links)
    (hqlen : m'.qlen = m.qlen) (hlive : m'.live = m.live) : Rings m' nodes := by
  constructor
  · rw [hlinks]
    exact h.ring
  · rw [hqlen]
    exact h.qlen
  · rw [hlive]
    exact h.live
  · rw [hlive]
    exact h.nodup
  · exact h.apart

theorem head_notMem (h : Rings m nodes) (k l : Kind) : Addr.head l ∉ nodes k := by
  intro hmem
  obtain ⟨n, -, hn⟩ := h.live k _ hmem
  cases hn

/-- No address of one ring, its head included, belongs to the other. -/
theorem apart_cons (h : Rings m nodes) {k l : Kind} (hne : l ≠ k) :
    ∀ item ∈ Addr.head l :: nodes l, item ∉ Addr.head k :: nodes k := by
  intro item hl hk
  rcases List.mem_cons.mp hl with rfl | hl
  · rcases List.mem_cons.mp hk with heq | hk
    · cases heq
      exact hne rfl
    · exact h.head_notMem k l hk
  · rcases List.mem_cons.mp hk with rfl | hk
    · exact h.head_notMem l k hl
    · exact hne (h.apart l k item hl hk)

theorem block_notMem (h : Rings m nodes) {n : Nat} (hfresh : n ∉ m.live) (k : Kind) :
    Addr.block n ∉ nodes k := by
  intro hmem
  obtain ⟨n', hlive, heq⟩ := h.live k _ hmem
  cases heq
  exact hfresh hlive

theorem mem_insert_nodes {k l : Kind} {xs ys : List Addr} {item new : Addr}
    (hnodes : nodes k = xs ++ ys) (hitem : item ∈ update nodes k (xs ++ new :: ys) l) :
    item ∈ nodes l ∨ (item = new ∧ l = k) := by
  by_cases hl : l = k
  · subst hl
    rw [update_self] at hitem
    rcases List.mem_cons.mp (List.perm_middle.mem_iff.mp hitem) with rfl | hold
    · exact Or.inr ⟨rfl, rfl⟩
    · exact Or.inl (hnodes ▸ hold)
  · rw [update_of_ne hl] at hitem
    exact Or.inl hitem

theorem insert (h : Rings m nodes) {k : Kind} {xs ys : List Addr} {n : Nat}
    (hnodes : nodes k = xs ++ ys) (hfresh : n ∉ m.live) :
    Rings { listQInsert m (.head k) (xs.getLastD (.head k)) (.block n) with live := n :: m.live }
      (update nodes k (xs ++ .block n :: ys)) := by
  have hring := h.ring k
  have hnew : ∀ l, Addr.block n ∉ nodes l := h.block_notMem hfresh
  have hnewk := hnew k
  rw [hnodes] at hring hnewk
  constructor
  · intro l
    by_cases hl : l = k
    · subst hl
      rw [update_self]
      exact hring.insert (by simpa using hnewk)
    · rw [update_of_ne hl]
      apply hring.insert_other (h.ring l)
      · simpa using hnew l
      · rw [← hnodes]
        exact h.apart_cons hl
  · intro l
    by_cases hl : l = k
    · subst hl
      have hqlen := h.qlen l
      rw [hnodes] at hqlen
      simp only [listQInsert, update_self, hqlen, List.length_append, List.length_cons]
      omega
    · rw [update_of_ne hl]
      exact (update_of_ne (by simpa using hl) ..).trans (h.qlen l)
  · intro l item hitem
    rcases mem_insert_nodes hnodes hitem with hold | ⟨rfl, -⟩
    · obtain ⟨n', hlive, rfl⟩ := h.live l item hold
      exact ⟨n', List.mem_cons_of_mem _ hlive, rfl⟩
    · exact ⟨n, List.mem_cons_self .., rfl⟩
  · exact List.nodup_cons.mpr ⟨hfresh, h.nodup⟩
  · intro l l' item hitem hitem'
    rcases mem_insert_nodes hnodes hitem with hold | ⟨rfl, rfl⟩
    · rcases mem_insert_nodes hnodes hitem' with hold' | ⟨rfl, rfl⟩
      · exact h.apart l l' item hold hold'
      · exact absurd hold (hnew l)
    · rcases mem_insert_nodes hnodes hitem' with hold' | ⟨-, rfl⟩
      · exact absurd hold' (hnew l')
      · rfl

theorem remove (h : Rings m nodes) {k : Kind} {xs ys : List Addr} {item : Addr}
    (hnodes : nodes k = xs ++ item :: ys) :
    Rings (free (listQRemove m (.head k) item) item) (update nodes k (xs ++ ys)) := by
  have hring := h.ring k
  rw [hnodes] at hring
  have hitem : item ∈ nodes k := hnodes ▸ List.mem_append_right _ (List.mem_cons_self ..)
  obtain ⟨n, hn, rfl⟩ := h.live k item hitem
  have hmem : ∀ l, ∀ other ∈ update nodes k (xs ++ ys) l, other ∈ nodes l ∧ other ≠ .block n := by
    intro l other hother
    by_cases hl : l = k
    · subst hl
      rw [update_self] at hother
      have hold := List.mem_cons_of_mem (Addr.block n) hother
      rw [← List.perm_middle.mem_iff, ← hnodes] at hold
      refine ⟨hold, ?_⟩
      rintro rfl
      have hnodup := List.perm_middle.nodup_iff.mp (List.nodup_cons.mp hring.nodup).2
      exact (List.nodup_cons.mp hnodup).1 hother
    · rw [update_of_ne hl] at hother
      refine ⟨hother, ?_⟩
      rintro rfl
      exact hl (h.apart l k _ hother hitem)
  constructor
  · intro l
    by_cases hl : l = k
    · subst hl
      rw [update_self]
      exact hring.remove
    · rw [update_of_ne hl]
      apply hring.remove_other (h.ring l)
      rw [← hnodes]
      exact h.apart_cons hl
  · intro l
    by_cases hl : l = k
    · subst hl
      have hqlen := h.qlen l
      rw [hnodes] at hqlen
      simp only [free, listQRemove, update_self, hqlen, List.length_append, List.length_cons]
      omega
    · rw [update_of_ne hl]
      exact (update_of_ne (by simpa using hl) ..).trans (h.qlen l)
  · intro l other hother
    obtain ⟨hold, hne⟩ := hmem l other hother
    obtain ⟨n', hlive, rfl⟩ := h.live l other hold
    have hn' : n' ≠ n := fun heq => hne (congrArg Addr.block heq)
    exact ⟨n', (List.mem_erase_of_ne hn').mpr hlive, rfl⟩
  · exact h.nodup.erase n
  · intro l l' other hother hother'
    exact h.apart l l' other (hmem l other hother).1 (hmem l' other hother').1

/-! ### Where the searches of the code end -/

theorem mem_ne_head (h : Rings m nodes) {k : Kind} {item : Addr} (hitem : item ∈ nodes k) (l : Kind) :
    item ≠ .head l := by
  rintro rfl
  exact h.head_notMem k l hitem

/-- A search that stops at the head and at every node with `found`. -/
theorem search_eq (h : Rings m nodes) (k : Kind) (found : Addr → Bool) {xs ys : List Addr}
    (hnodes : nodes k = xs ++ ys) (hxs : ∀ item ∈ xs, found item = false)
    (hys : ∀ item ∈ ys.head?, found item = true) :
    walkWhile m.links.next (fun item => item = .head k || found item) (m.qlen (.head k) + 1)
      (m.links.next (.head k)) = some (ys.headD (.head k)) := by
  have hring := h.ring k
  have hqlen := h.qlen k
  rw [hnodes] at hring hqlen
  apply walkWhile_eq hring.next
  · intro item hitem
    have hne := h.mem_ne_head (hnodes ▸ List.mem_append_left ys hitem) k
    simp [hne, hxs item hitem]
  · cases ys with
    | nil => simp
    | cons y ys =>
      have hy := hys y rfl
      simp [hy]
  · rw [hqlen, List.length_append]
    omega

end Rings

end Sv6x66.Atcmd.SocketList
