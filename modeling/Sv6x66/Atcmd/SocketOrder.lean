import Sv6x66.Atcmd.SocketList
import Mathlib.Data.List.TakeWhile

/-! What the operations on the socket lists do to the sequences of registered
sockets, and when these stay in ascending order. -/
namespace Sv6x66.Atcmd.SocketOrder
open Sv6x66.Lib IntrusiveList Function SocketList

/-- Where `insertOrdered` cuts a list: before the first socket that is not less,
but a search that ran to the head cuts in front when the word behind the head is
not greater. -/
def place {α : Type} (behind socket : Int) (f : α → Int) (l : List α) : List α × List α :=
  let ys := l.dropWhile (f · < socket)
  if l ≠ [] ∧ ys.isEmpty ∧ behind ≤ socket then ([], l) else (l.takeWhile (f · < socket), ys)

def insertSd (behind socket : Int) (sds : List Int) : List Int :=
  let cut := place behind socket id sds
  cut.1 ++ socket :: cut.2

theorem place_append {α : Type} (behind socket : Int) (f : α → Int) (l : List α) :
    (place behind socket f l).1 ++ (place behind socket f l).2 = l := by
  unfold place
  dsimp only
  split
  · rfl
  · exact List.takeWhile_append_dropWhile

theorem map_place {α : Type} (behind socket : Int) (f : α → Int) (l : List α) :
    (place behind socket f l).1.map f ++ socket :: (place behind socket f l).2.map f =
      insertSd behind socket (l.map f) := by
  have hys : (l.map f).dropWhile (id · < socket) = (l.dropWhile (f · < socket)).map f :=
    List.dropWhile_map
  have hxs : (l.map f).takeWhile (id · < socket) = (l.takeWhile (f · < socket)).map f :=
    List.takeWhile_map
  unfold insertSd place
  simp only [hys, hxs, List.isEmpty_map, ne_eq, List.map_eq_nil_iff]
  split <;> rfl

section Nodes

variable {m : Memory} {nodes : Kind → List Addr}

/-- In an empty ring the tail insertion is an insertion behind the head. -/
theorem listQQtail_eq {k : Kind} {newq : Addr} (hring : IsRing m.links (.head k) []) :
    listQQtail m (.head k) newq = listQInsert m (.head k) (.head k) newq := by
  have hnext : m.links.next (.head k) = .head k := hring.next
  have hprev : m.links.prev (.head k) = .head k := hring.prev
  unfold listQQtail listQInsert IntrusiveList.insert
  rw [hnext, hprev]

theorem not_lt_of_mem_head? {α : Type} {f : α → Int} {socket : Int} {l : List α} {item : α}
    (h : item ∈ (l.dropWhile (f · < socket)).head?) : ¬ f item < socket := by
  have hhead := List.head?_dropWhile_not (fun item => decide (f item < socket)) l
  rw [h] at hhead
  simpa using hhead

/-- The search of an insertion ends at the first node whose socket is not less,
or at the head. -/
theorem walkWhile_insert {m' : Memory} {k : Kind} {socket : Int} (h : Rings m nodes)
    (hlinks : m'.links = m.links) (hqlen : m'.qlen = m.qlen)
    (hread : ∀ item ∈ nodes k, m'.socket item = m.socket item) :
    walkWhile m'.links.next (fun item => item = .head k || !(m'.socket item < socket))
      (m'.qlen (.head k) + 1) (m'.links.next (.head k)) =
        some (((nodes k).dropWhile (m.socket · < socket)).headD (.head k)) := by
  have hcut : nodes k = (nodes k).takeWhile (m.socket · < socket) ++
      (nodes k).dropWhile (m.socket · < socket) := List.takeWhile_append_dropWhile.symm
  rw [hlinks, hqlen]
  apply h.search_eq k (fun item => !(m'.socket item < socket)) hcut
  · intro item hitem
    have hmem : item ∈ nodes k := (List.takeWhile_prefix _).subset hitem
    have hless := List.mem_takeWhile_imp hitem
    rw [hread item hmem]
    simpa using hless
  · intro item hitem
    have hmem : item ∈ nodes k :=
      (List.dropWhile_suffix _).subset (List.mem_of_mem_head? hitem)
    have hge := not_lt_of_mem_head? hitem
    rw [hread item hmem]
    simpa using hge

theorem insertOrdered_eq {m' : Memory} {k : Kind} {n : Nat} {socket : Int} (h : Rings m nodes)
    (hlinks : m'.links = m.links) (hqlen : m'.qlen = m.qlen)
    (hsocket : m'.socket = update m.socket (.block n) socket) (hfresh : n ∉ m.live)
    (hdistinct : ∀ item ∈ nodes k, m.socket item ≠ socket) :
    insertOrdered m' k (.block n) socket =
      some (listQInsert m' (.head k)
        ((place (m.socket (.head k)) socket m.socket (nodes k)).1.getLastD (.head k))
        (.block n)) := by
  have hread : ∀ item ∈ nodes k, m'.socket item = m.socket item := by
    intro item hitem
    have hne : item ≠ .block n := by
      rintro rfl
      exact h.block_notMem hfresh k hitem
    rw [hsocket, update_of_ne hne]
  have hring := h.ring k
  rw [← hlinks] at hring
  have hzero : m'.qlen (.head k) = 0 ↔ nodes k = [] := by
    rw [hqlen, h.qlen k, List.length_eq_zero_iff]
  unfold insertOrdered
  by_cases hempty : nodes k = []
  · rw [if_pos (hzero.mpr hempty), hempty]
    rw [hempty] at hring
    rw [listQQtail_eq hring]
    rfl
  · rw [if_neg fun hlen => hempty (hzero.mp hlen)]
    simp only
    rw [walkWhile_insert h hlinks hqlen hread, Option.map_some]
    have hcut : nodes k = (nodes k).takeWhile (m.socket · < socket) ++
        (nodes k).dropWhile (m.socket · < socket) := List.takeWhile_append_dropWhile.symm
    rw [hcut] at hring
    have hprev := hring.prev_after
    unfold place
    cases hys : (nodes k).dropWhile (m.socket · < socket) with
    | nil =>
      -- the search ran to the head, whose `socket` is the word behind it
      have hhead : m'.socket (.head k) = m.socket (.head k) := by
        rw [hsocket, update_of_ne (by simp)]
      rw [hys, List.headD_nil] at hprev
      simp only [List.headD_nil, hhead]
      by_cases hbehind : m.socket (.head k) > socket
      · rw [if_pos hbehind, hprev, if_neg (by simp; omega)]
      · rw [if_neg hbehind, if_pos ⟨hempty, rfl, not_lt.mp hbehind⟩]
        rfl
    | cons y ys =>
      have hhead : y ∈ ((nodes k).dropWhile (m.socket · < socket)).head? := by
        rw [hys]
        rfl
      have hy : y ∈ nodes k := (List.dropWhile_suffix _).subset (List.mem_of_mem_head? hhead)
      have hgreater : m'.socket y > socket := by
        have hge := not_lt_of_mem_head? hhead
        have hne := hdistinct y hy
        rw [hread y hy]
        omega
      rw [hys, List.headD_cons] at hprev
      rw [List.headD_cons, if_pos hgreater, hprev, if_neg (by simp)]

theorem rmFrom_of_mem {k : Kind} {sd : Int} (h : Rings m nodes)
    (hmem : sd ∈ (nodes k).map m.socket) :
    ∃ xs item ys, nodes k = xs ++ item :: ys ∧ m.socket item = sd ∧ sd ∉ xs.map m.socket ∧
      rmFrom m k sd = some (sd, free (listQRemove m (.head k) item) item) := by
  obtain ⟨before, after, hmap, hfirst⟩ := List.eq_append_cons_of_mem hmem
  obtain ⟨xs, rest, hnodes, hxs, hrest⟩ := List.map_eq_append_iff.mp hmap
  obtain ⟨item, ys, rfl, hitem, hys⟩ := List.map_eq_cons_iff.mp hrest
  rw [← hxs] at hfirst
  have hhead : item ≠ .head k := h.mem_ne_head (hnodes ▸ List.mem_append_right _ (List.mem_cons_self ..)) k
  have hqlen : m.qlen (.head k) ≠ 0 := by
    rw [h.qlen k, hnodes, List.length_append, List.length_cons]
    omega
  have hsearch := h.search_eq k (fun item => m.socket item = sd) hnodes ?_ ?_
  · refine ⟨xs, item, ys, hnodes, hitem, hfirst, ?_⟩
    unfold rmFrom
    rw [if_neg hqlen, hsearch, Option.map_some, List.headD_cons, if_neg hhead]
  · intro x hx
    rw [decide_eq_false_iff_not]
    intro heq
    exact hfirst (heq ▸ List.mem_map_of_mem hx)
  · intro x hx
    cases hx
    exact decide_eq_true hitem

theorem rmFrom_of_notMem {k : Kind} {sd : Int} (h : Rings m nodes)
    (hmem : sd ∉ (nodes k).map m.socket) : rmFrom m k sd = some (-1, m) := by
  unfold rmFrom
  by_cases hqlen : m.qlen (.head k) = 0
  · rw [if_pos hqlen]
  · have hsearch := h.search_eq k (fun item => m.socket item = sd)
      (List.append_nil _).symm ?_ ?_
    · rw [if_neg hqlen, hsearch, Option.map_some, List.headD_nil, if_pos rfl]
    · intro x hx
      rw [decide_eq_false_iff_not]
      intro heq
      exact hmem (heq ▸ List.mem_map_of_mem hx)
    · intro x hx
      cases hx

end Nodes

/-! ### The effect on the registered sockets -/

/-- The memory is well linked: its nodes, as met from the heads, form the two
rings. -/
abbrev WellLinked (m : Memory) : Prop := Rings m (nodesOf m)

/-- The socket about to be registered is in neither list. -/
def Distinct (m : Memory) : Event → Prop
  | .updateNewListenSd socket _ _ => ∀ k, socket ∉ sds m k
  | .updateNewSd socket _ _ => ∀ k, socket ∉ sds m k
  | _ => True

def effect (m : Memory) : Event → Kind → List Int
  | .updateNewListenSd socket _ (some _) =>
    update (sds m) .listen (insertSd (m.socket (.head .listen)) socket (sds m .listen))
  | .updateNewSd socket _ (some _) =>
    update (sds m) .normal (insertSd (m.socket (.head .normal)) socket (sds m .normal))
  | .rmListenSd sd => update (sds m) .listen ((sds m .listen).erase sd)
  | .rmSd sd => update (sds m) .normal ((sds m .normal).erase sd)
  | .recvRemove k i => update (sds m) k ((sds m k).eraseIdx i)
  | _ => sds m

section Effect

variable {m m' : Memory}

theorem wellLinked_of_rings {nodes : Kind → List Addr} (h : Rings m nodes) :
    WellLinked m ∧ ∀ k, sds m k = (nodes k).map m.socket := by
  have hnodes : nodesOf m = nodes := funext h.nodesOf_eq
  subst hnodes
  exact ⟨h, fun k => rfl⟩

theorem insertOrdered_effect {m₁ : Memory} {k : Kind} {n : Nat} {socket : Int} (h : WellLinked m)
    (hstep : insertOrdered m₁ k (.block n) socket = some m')
    (hlinks : m₁.links = m.links) (hqlen : m₁.qlen = m.qlen) (hlive : m₁.live = n :: m.live)
    (hsocket : m₁.socket = update m.socket (.block n) socket) (hfresh : n ∉ m.live)
    (hdistinct : socket ∉ sds m k) :
    WellLinked m' ∧
      sds m' = update (sds m) k (insertSd (m.socket (.head k)) socket (sds m k)) := by
  have hsds : ∀ item ∈ nodesOf m k, m.socket item ≠ socket := by
    intro item hitem heq
    exact hdistinct (heq ▸ List.mem_map_of_mem hitem)
  rw [insertOrdered_eq h hlinks hqlen hsocket hfresh hsds] at hstep
  have hcut := place_append (m.socket (.head k)) socket m.socket (nodesOf m k)
  have hmap := map_place (m.socket (.head k)) socket m.socket (nodesOf m k)
  revert hstep hcut hmap
  generalize place (m.socket (.head k)) socket m.socket (nodesOf m k) = cut
  intro hstep hcut hmap
  cases hstep
  have hrings : Rings (listQInsert m₁ (.head k) (cut.1.getLastD (.head k)) (.block n))
      (update (nodesOf m) k (cut.1 ++ .block n :: cut.2)) := by
    apply (h.insert hcut.symm hfresh).congr
    · exact congrArg (fun links => IntrusiveList.insert links _ _) hlinks
    · simp only [listQInsert, hqlen]
    · exact hlive
  have hread : ∀ l, ∀ item ∈ nodesOf m l, m₁.socket item = m.socket item := by
    intro l item hitem
    rw [hsocket]
    apply update_of_ne
    rintro rfl
    exact h.block_notMem hfresh l hitem
  obtain ⟨hwell, hsds'⟩ := wellLinked_of_rings hrings
  refine ⟨hwell, funext fun l => ?_⟩
  rw [hsds' l]
  change (update (nodesOf m) k (cut.1 ++ .block n :: cut.2) l).map m₁.socket = _
  by_cases hl : l = k
  · subst hl
    have hleft : cut.1.map m₁.socket = cut.1.map m.socket :=
      List.map_congr_left fun item hitem =>
        hread l item (hcut ▸ List.mem_append_left _ hitem)
    have hright : cut.2.map m₁.socket = cut.2.map m.socket :=
      List.map_congr_left fun item hitem =>
        hread l item (hcut ▸ List.mem_append_right _ hitem)
    have hnew : m₁.socket (.block n) = socket := by rw [hsocket, update_self]
    rw [update_self, update_self, List.map_append, List.map_cons, hleft, hright, hnew]
    exact hmap
  · rw [update_of_ne hl, update_of_ne hl]
    exact List.map_congr_left (hread l)

@[simp] theorem free_socket (item : Addr) : (free m item).socket = m.socket := by
  cases item <;> rfl

theorem remove_effect {k : Kind} {xs ys : List Addr} {item : Addr} (h : WellLinked m)
    (hnodes : nodesOf m k = xs ++ item :: ys) :
    WellLinked (free (listQRemove m (.head k) item) item) ∧
      sds (free (listQRemove m (.head k) item) item) =
        update (sds m) k ((xs ++ ys).map m.socket) := by
  obtain ⟨hwell, hsds⟩ := wellLinked_of_rings (h.remove hnodes)
  refine ⟨hwell, funext fun l => ?_⟩
  rw [hsds l, free_socket]
  by_cases hl : l = k
  · subst hl
    rw [update_self, update_self]
    rfl
  · rw [update_of_ne hl, update_of_ne hl]
    rfl

theorem rmFrom_effect {k : Kind} {sd retval : Int} (h : WellLinked m)
    (hstep : rmFrom m k sd = some (retval, m')) :
    WellLinked m' ∧ sds m' = update (sds m) k ((sds m k).erase sd) ∧
      retval = if sd ∈ sds m k then sd else -1 := by
  by_cases hmem : sd ∈ sds m k
  · obtain ⟨xs, item, ys, hnodes, hitem, hxs, heq⟩ := rmFrom_of_mem h hmem
    rw [heq] at hstep
    cases hstep
    obtain ⟨hwell, hsds⟩ := remove_effect h hnodes
    refine ⟨hwell, ?_, (if_pos hmem).symm⟩
    rw [hsds]
    congr 1
    change _ = ((nodesOf m k).map m.socket).erase _
    rw [hnodes, List.map_append, List.map_append, List.map_cons,
      List.erase_append_right _ hxs, hitem, List.erase_cons_head]
  · rw [rmFrom_of_notMem h hmem] at hstep
    cases hstep
    exact ⟨h, by rw [List.erase_of_not_mem hmem, update_eq_self], (if_neg hmem).symm⟩

theorem recvRemove_effect {k : Kind} {i : Nat} (h : WellLinked m)
    (hstep : recvRemove m k i = some m') :
    WellLinked m' ∧ sds m' = update (sds m) k ((sds m k).eraseIdx i) := by
  obtain ⟨item, hitem, rfl⟩ := Option.map_eq_some_iff.mp hstep
  obtain ⟨hi, hget⟩ := List.getElem?_eq_some_iff.mp hitem
  have hnodes : nodesOf m k = (nodesOf m k).take i ++ item :: (nodesOf m k).drop (i + 1) := by
    rw [← hget, List.cons_getElem_drop_succ, List.take_append_drop]
  obtain ⟨hwell, hsds⟩ := remove_effect h hnodes
  refine ⟨hwell, ?_⟩
  rw [hsds, ← List.eraseIdx_eq_take_drop_succ]
  congr 1
  exact (List.eraseIdx_map ..).symm

@[simp] theorem raiseMaxSd_links (m : Memory) (k : Kind) :
    (raiseMaxSd m k).links = m.links ∧ (raiseMaxSd m k).qlen = m.qlen ∧
      (raiseMaxSd m k).live = m.live ∧ (raiseMaxSd m k).socket = m.socket := by
  unfold raiseMaxSd
  dsimp only
  split <;> exact ⟨rfl, rfl, rfl, rfl⟩

theorem raiseMaxSd_effect (k : Kind) (h : WellLinked m) :
    WellLinked (raiseMaxSd m k) ∧ sds (raiseMaxSd m k) = sds m := by
  obtain ⟨hlinks, hqlen, hlive, hsocket⟩ := raiseMaxSd_links m k
  obtain ⟨hwell, hsds⟩ := wellLinked_of_rings (h.congr hlinks hqlen hlive)
  refine ⟨hwell, funext fun l => ?_⟩
  rw [hsds l, hsocket]
  rfl

/-- What one step does to the registered sockets; the rings stay rings. -/
theorem step_effect {event : Event} (h : WellLinked m) (hdistinct : Distinct m event)
    (hstep : step m event = some m') : WellLinked m' ∧ sds m' = effect m event := by
  cases event with
  | write behind =>
    cases hstep
    have hrings : Rings (writeBehind m behind) (nodesOf m) := h.congr rfl rfl rfl
    obtain ⟨hwell, hsds⟩ := wellLinked_of_rings hrings
    refine ⟨hwell, funext fun k => ?_⟩
    rw [hsds k]
    apply List.map_congr_left
    intro item hitem
    obtain ⟨n, -, rfl⟩ := h.live k item hitem
    rfl
  | updateNewListenSd socket port malloc =>
    simp only [step, updateNewListenSd] at hstep
    split at hstep
    · rename_i hfresh
      cases malloc with
      | none =>
        cases hstep
        exact ⟨h, rfl⟩
      | some n =>
        simp only [Option.map_map, Option.map_eq_some_iff] at hstep
        obtain ⟨m'', hinsert, rfl⟩ := hstep
        exact insertOrdered_effect h hinsert rfl rfl rfl rfl (hfresh n rfl) (hdistinct .listen)
    · cases hstep
  | updateNewSd socket parentSd malloc =>
    simp only [step, updateNewSd] at hstep
    split at hstep
    · rename_i hfresh
      cases malloc with
      | none =>
        cases hstep
        exact ⟨h, rfl⟩
      | some n =>
        simp only [Option.map_map, Option.map_eq_some_iff] at hstep
        obtain ⟨m'', hinsert, rfl⟩ := hstep
        exact insertOrdered_effect h hinsert rfl rfl rfl rfl (hfresh n rfl) (hdistinct .normal)
    · cases hstep
  | rmListenSd sd =>
    obtain ⟨⟨retval, m''⟩, hrm, rfl⟩ := Option.map_eq_some_iff.mp hstep
    have heffect := rmFrom_effect h hrm
    exact ⟨heffect.1, heffect.2.1⟩
  | rmSd sd =>
    obtain ⟨⟨retval, m''⟩, hrm, rfl⟩ := Option.map_eq_some_iff.mp hstep
    have heffect := rmFrom_effect h hrm
    exact ⟨heffect.1, heffect.2.1⟩
  | recvRemove k i => exact recvRemove_effect h hstep
  | updateMaxSd =>
    cases hstep
    obtain ⟨hwell, hsds⟩ := raiseMaxSd_effect .normal h
    obtain ⟨hwell', hsds'⟩ := raiseMaxSd_effect .listen hwell
    exact ⟨hwell', hsds'.trans hsds⟩

theorem insertOrdered_isSome {m₁ : Memory} {k : Kind} {n : Nat} {socket : Int} (h : WellLinked m)
    (hlinks : m₁.links = m.links) (hqlen : m₁.qlen = m.qlen)
    (hsocket : m₁.socket = update m.socket (.block n) socket) (hfresh : n ∉ m.live)
    (hdistinct : socket ∉ sds m k) : (insertOrdered m₁ k (.block n) socket).isSome := by
  have hne : ∀ item ∈ nodesOf m k, m.socket item ≠ socket := by
    intro item hitem heq
    exact hdistinct (heq ▸ List.mem_map_of_mem hitem)
  rw [insertOrdered_eq h hlinks hqlen hsocket hfresh hne]
  rfl

/-- The searches of the code end: a step is refused only for a block that is in
use or a node that is not there. -/
theorem step_isSome (h : WellLinked m) {event : Event} (hdistinct : Distinct m event)
    (hmalloc : ∀ malloc, (∃ socket port, event = .updateNewListenSd socket port malloc) ∨
      (∃ socket parentSd, event = .updateNewSd socket parentSd malloc) → Fresh m malloc)
    (hindex : ∀ k i, event = .recvRemove k i → i < (sds m k).length) :
    (step m event).isSome := by
  have hrm : ∀ k sd, (rmFrom m k sd).isSome := by
    intro k sd
    by_cases hmem : sd ∈ sds m k
    · obtain ⟨xs, item, ys, -, -, -, heq⟩ := rmFrom_of_mem h hmem
      rw [heq]
      rfl
    · rw [rmFrom_of_notMem h hmem]
      rfl
  cases event with
  | write behind => rfl
  | updateNewListenSd socket port malloc =>
    have hfresh := hmalloc malloc (Or.inl ⟨socket, port, rfl⟩)
    cases malloc with
    | none => simp [step, hfresh, updateNewListenSd]
    | some n =>
      simp only [step, if_pos hfresh, updateNewListenSd, Option.isSome_map]
      exact insertOrdered_isSome h rfl rfl rfl (hfresh n rfl) (hdistinct .listen)
  | updateNewSd socket parentSd malloc =>
    have hfresh := hmalloc malloc (Or.inr ⟨socket, parentSd, rfl⟩)
    cases malloc with
    | none => simp [step, hfresh, updateNewSd]
    | some n =>
      simp only [step, if_pos hfresh, updateNewSd, Option.isSome_map]
      exact insertOrdered_isSome h rfl rfl rfl (hfresh n rfl) (hdistinct .normal)
  | rmListenSd sd => simpa [step, rmListenSd] using hrm .listen sd
  | rmSd sd => simpa [step, rmSd] using hrm .normal sd
  | recvRemove k i =>
    have hi := hindex k i rfl
    rw [sds, List.length_map] at hi
    simp [step, recvRemove, hi]
  | updateMaxSd => rfl

end Effect

/-! ### The order of the sockets -/

/-- A tail insertion finds the word behind the head greater than its socket. -/
def TailRead (behind socket : Int) (sds : List Int) : Prop :=
  sds = [] ∨ (∃ sd ∈ sds, socket < sd) ∨ socket < behind

/-- On an ascending list the insertion keeps the order exactly under `TailRead`. -/
theorem insertSd_ascending_iff {behind socket : Int} {sds : List Int}
    (hsds : sds.Pairwise (· < ·)) (hnew : socket ∉ sds) :
    (insertSd behind socket sds).Pairwise (· < ·) ↔ TailRead behind socket sds := by
  have hcut : sds.takeWhile (id · < socket) ++ sds.dropWhile (id · < socket) = sds :=
    List.takeWhile_append_dropWhile
  have hless : ∀ sd ∈ sds.takeWhile (id · < socket), sd < socket := by
    intro sd hsd
    simpa using List.mem_takeWhile_imp hsd
  have hhead := List.head?_dropWhile_not (fun sd => decide (id sd < socket)) sds
  unfold insertSd place TailRead
  dsimp only
  generalize sds.takeWhile (id · < socket) = xs at *
  generalize sds.dropWhile (id · < socket) = ys at *
  subst hcut
  cases ys with
  | nil =>
    rw [List.append_nil] at hsds ⊢
    by_cases hfront : xs ≠ [] ∧ behind ≤ socket
    · rw [if_pos ⟨hfront.1, rfl, hfront.2⟩]
      obtain ⟨x, hx⟩ := List.exists_mem_of_ne_nil xs hfront.1
      constructor
      · intro hascending
        have := (List.pairwise_cons.mp hascending).1 x hx
        have := hless x hx
        omega
      · rintro (hnil | ⟨sd, hsd, hgreater⟩ | hbehind)
        · exact absurd hnil hfront.1
        · have := hless sd hsd
          omega
        · omega
    · rw [if_neg fun h => hfront ⟨h.1, h.2.2⟩]
      constructor
      · intro _
        by_cases hnil : xs = []
        · exact Or.inl hnil
        · exact Or.inr (Or.inr (not_le.mp fun hle => hfront ⟨hnil, hle⟩))
      · intro _
        rw [List.pairwise_append]
        exact ⟨hsds, List.pairwise_singleton .., by simpa using hless⟩
  | cons y ys =>
    rw [if_neg (by simp)]
    obtain ⟨hxs, hys, hcross⟩ := List.pairwise_append.mp hsds
    have hy : socket < y := by
      have hne : y ≠ socket := by
        rintro rfl
        exact hnew (by simp)
      have hge : ¬ y < socket := by simpa using hhead
      omega
    have hrest : ∀ sd ∈ y :: ys, socket < sd := by
      intro sd hsd
      rcases List.mem_cons.mp hsd with rfl | hsd
      · exact hy
      · have := (List.pairwise_cons.mp hys).1 sd hsd
        omega
    constructor
    · intro _
      exact Or.inr (Or.inl ⟨y, by simp, hy⟩)
    · intro _
      rw [List.pairwise_append]
      refine ⟨hxs, List.pairwise_cons.mpr ⟨hrest, hys⟩, ?_⟩
      intro x hx sd hsd
      rcases List.mem_cons.mp hsd with rfl | hsd
      · exact hless x hx
      · exact hcross x hx sd hsd

def Ascending (m : Memory) : Prop := ∀ k, (sds m k).Pairwise (· < ·)

/-- The socket is not registered yet, and its insertion reads no misleading word
behind the head. -/
def Allowed (m : Memory) (event : Event) : Prop :=
  Distinct m event ∧ match event with
    | .updateNewListenSd socket _ (some _) =>
      TailRead (m.socket (.head .listen)) socket (sds m .listen)
    | .updateNewSd socket _ (some _) =>
      TailRead (m.socket (.head .normal)) socket (sds m .normal)
    | _ => True

theorem ascending_update {m : Memory} {k : Kind} {l : List Int} (h : Ascending m)
    (hl : l.Pairwise (· < ·)) : ∀ k', (update (sds m) k l k').Pairwise (· < ·) := by
  intro k'
  by_cases hk : k' = k
  · subst hk
    rw [update_self]
    exact hl
  · rw [update_of_ne hk]
    exact h k'

theorem effect_ascending {m : Memory} {event : Event} (h : Ascending m)
    (hallowed : Allowed m event) : ∀ k, (effect m event k).Pairwise (· < ·) := by
  cases event with
  | write behind => exact h
  | updateNewListenSd socket port malloc =>
    cases malloc with
    | none => exact h
    | some n =>
      exact ascending_update h ((insertSd_ascending_iff (h _) (hallowed.1 _)).mpr hallowed.2)
  | updateNewSd socket parentSd malloc =>
    cases malloc with
    | none => exact h
    | some n =>
      exact ascending_update h ((insertSd_ascending_iff (h _) (hallowed.1 _)).mpr hallowed.2)
  | rmListenSd sd => exact ascending_update h ((h _).sublist (List.erase_sublist ..))
  | rmSd sd => exact ascending_update h ((h _).sublist (List.erase_sublist ..))
  | recvRemove k i => exact ascending_update h ((h _).sublist (List.eraseIdx_sublist ..))
  | updateMaxSd => exact h

theorem initial_wellLinked (links : Links Addr) (qlen : Addr → Nat) (socket : Addr → Int) :
    WellLinked (initial links qlen socket) ∧ ∀ k, sds (initial links qlen socket) k = [] := by
  have hrings : Rings (initial links qlen socket) fun _ => [] := by
    constructor
    · intro k
      cases k with
      | listen =>
        have hne : Addr.head .listen ≠ .head .normal := by simp
        apply (IsRing.init links (Addr.head .listen)).congr
        · intro item hitem
          cases List.mem_singleton.mp hitem
          exact update_of_ne hne (.head .normal) (init links (.head .listen)).next
        · intro item hitem
          cases List.mem_singleton.mp hitem
          exact update_of_ne hne (.head .normal) (init links (.head .listen)).prev
      | normal => exact IsRing.init _ _
    · intro k
      cases k <;> rfl
    · intro k item hitem
      cases hitem
    · exact List.nodup_nil
    · intro k l item hitem
      cases hitem
  exact wellLinked_of_rings hrings

/-- `update_max_sd` never lowers `max_sd`, and after it no socket of the list is
greater. -/
theorem raiseMaxSd_bound {m : Memory} (h : WellLinked m) (hascending : Ascending m) (k : Kind) :
    m.maxSd ≤ (raiseMaxSd m k).maxSd ∧ ∀ sd ∈ sds m k, sd ≤ (raiseMaxSd m k).maxSd := by
  have hlast := (h.ring k)
  rw [← List.append_nil (nodesOf m k)] at hlast
  have hprev := hlast.prev_after
  rw [List.headD_nil] at hprev
  have hqlen := h.qlen k
  have hsorted := hascending k
  unfold sds at hsorted ⊢
  unfold raiseMaxSd
  dsimp only
  rw [hqlen, hprev]
  rcases List.eq_nil_or_concat (nodesOf m k) with hnil | ⟨xs, last, hconcat⟩
  · rw [hnil]
    simp
  · rw [hconcat] at hsorted ⊢
    rw [List.concat_eq_append] at hsorted ⊢
    rw [List.map_append, List.pairwise_append] at hsorted
    have hbound : ∀ sd ∈ (xs ++ [last]).map m.socket, sd ≤ m.socket last := by
      intro sd hsd
      rw [List.map_append] at hsd
      rcases List.mem_append.mp hsd with hsd | hsd
      · exact le_of_lt (hsorted.2.2 sd hsd _ (by simp))
      · exact le_of_eq (by simpa using hsd)
    have hlen : (xs ++ [last]).length ≠ 0 := by simp
    rw [List.getLastD_concat]
    split
    · rename_i hraise
      exact ⟨le_of_lt hraise.2, hbound⟩
    · rename_i hkeep
      have hle : m.socket last ≤ m.maxSd := not_lt.mp fun hlt => hkeep ⟨hlen, hlt⟩
      exact ⟨le_refl _, fun sd hsd => (hbound sd hsd).trans hle⟩

theorem updateMaxSd_bound {m : Memory} (h : WellLinked m) (hascending : Ascending m) (k : Kind) :
    ∀ sd ∈ sds m k, sd ≤ (updateMaxSd m).maxSd := by
  obtain ⟨hwell, hsds⟩ := raiseMaxSd_effect .normal h
  have hascending' : Ascending (raiseMaxSd m .normal) := fun l => hsds ▸ hascending l
  obtain ⟨-, hnormal⟩ := raiseMaxSd_bound h hascending .normal
  obtain ⟨hle, hlisten⟩ := raiseMaxSd_bound hwell hascending' .listen
  intro sd hsd
  cases k with
  | listen => exact hlisten sd (hsds ▸ hsd)
  | normal => exact (hnormal sd hsd).trans hle

/-- The lists as the searches and `update_max_sd` rely on them. -/
structure Registry (m : Memory) : Prop where
  ring : ∀ k, IsRing m.links (.head k) (nodesOf m k)
  qlen : ∀ k, m.qlen (.head k) = (nodesOf m k).length
  ascending : ∀ k, (sds m k).Pairwise (· < ·)
  watched : ∀ k, ∀ sd ∈ sds m k, sd ≤ (updateMaxSd m).maxSd

theorem registry_of_run (links : Links Addr) (qlen : Addr → Nat) (socket : Addr → Int)
    (events : List Event) (m : Memory)
    (hrun : Run step Allowed (initial links qlen socket) events m) : Registry m := by
  obtain ⟨hwell, hempty⟩ := initial_wellLinked links qlen socket
  have hstart : Ascending (initial links qlen socket) := fun k => by simp [hempty k]
  have hinv : WellLinked m ∧ Ascending m := by
    refine hrun.invariant (I := fun m => WellLinked m ∧ Ascending m) ⟨hwell, hstart⟩ ?_
    intro m event m' ⟨hm, hascending⟩ hallowed hstep
    obtain ⟨hwell', heffect⟩ := step_effect hm hallowed.1 hstep
    refine ⟨hwell', fun k => ?_⟩
    rw [heffect]
    exact effect_ascending hascending hallowed k
  exact ⟨hinv.1.ring, hinv.1.qlen, hinv.2, updateMaxSd_bound hinv.1 hinv.2⟩

/-- A word behind the heads that is greater than every socket. -/
def tall : Memory :=
  initial ⟨fun _ => .head .listen, fun _ => .head .listen⟩ (fun _ => 0) (fun _ => 0x20000000)

/-- An insertion into the empty list, one in front, one at the end, and the removal from the
middle. -/
theorem registry_of_run_removed :
    ∃ m, Run step Allowed tall [.updateNewSd 4 (-1) (some 0), .updateNewSd 3 (-1) (some 1),
        .updateNewSd 7 (-1) (some 2), .rmSd 4] m ∧ sds m .normal = [3, 7] ∧ Registry m := by
  have hrun : ∃ m, Run step Allowed tall [.updateNewSd 4 (-1) (some 0),
      .updateNewSd 3 (-1) (some 1), .updateNewSd 7 (-1) (some 2), .rmSd 4] m ∧
      sds m .normal = [3, 7] := by
    refine ⟨_, (((Run.nil.snoc ?_ rfl).snoc ?_ rfl).snoc ?_ rfl).snoc ⟨trivial, trivial⟩ rfl, ?_⟩
    · exact ⟨fun k => by cases k <;> decide, .inl rfl⟩
    · exact ⟨fun k => by cases k <;> decide, .inr (.inl (by decide))⟩
    · exact ⟨fun k => by cases k <;> decide, .inr (.inr (by decide))⟩
    · decide
  obtain ⟨m, hrun, hsds⟩ := hrun
  exact ⟨m, hrun, hsds, registry_of_run _ _ _ _ m hrun⟩

/-- Zeros everywhere, also behind the heads. -/
def zeroed : Memory :=
  initial ⟨fun _ => .head .listen, fun _ => .head .listen⟩ (fun _ => 0) (fun _ => 0)

/-- The second socket, the greater one, goes in front of the first, and
`select` is told to stop before it. -/
theorem registry_front :
    ∃ m, Run step Distinct zeroed
        [.updateNewSd 3 (-1) (some 0), .updateNewSd 4 (-1) (some 1)] m ∧
      sds m .normal = [4, 3] ∧ (updateMaxSd m).maxSd = 3 ∧ ¬ Registry m := by
  refine ⟨_, (Run.nil.snoc ?_ rfl).snoc ?_ rfl, ?_, ?_, ?_⟩
  · exact fun k => by cases k <;> decide
  · exact fun k => by cases k <;> decide
  · decide
  · decide
  · intro h
    have := h.watched .normal 4 (by decide)
    revert this
    decide

/-- Without a look at the words behind the heads the rings and the lengths still
hold. -/
theorem wellLinked_of_run (links : Links Addr) (qlen : Addr → Nat) (socket : Addr → Int)
    (events : List Event) (m : Memory)
    (hrun : Run step Distinct (initial links qlen socket) events m) : WellLinked m := by
  apply hrun.invariant (initial_wellLinked links qlen socket).1
  intro m event m' hm hdistinct hstep
  exact (step_effect hm hdistinct hstep).1

end Sv6x66.Atcmd.SocketOrder
