import Sv6x66.Atcmd.RecvTask

/-! `mark_rm_listen_sd_by_port` on the memory. A search that ends at the list head
inspects the word behind the head as if it were the port of a listener. -/
namespace Sv6x66.Atcmd.ListenLookup
open Sv6x66.Lib IntrusiveList Function
open Sv6x66.Atcmd.SocketList
open Sv6x66.Atcmd.SocketOrder (WellLinked wellLinked_of_run)

/-- `FD_SETSIZE`, the number of sockets there are. -/
def fdSetsize (wacEn : Bool) : Nat := if wacEn then 12 else 8

/-- `FD_SET` without a check: the bit `n & 7` of the byte `n / 8`, if `fd_bits` has this
byte. -/
def fdSet (wacEn : Bool) (set : Finset Nat) (n : Int) : Option (Finset Nat) :=
  let byte := n.tdiv 8
  if 0 ≤ byte ∧ byte < (fdSetsize wacEn + 7) / 8 then some (insert (8 * byte + n % 8).toNat set)
  else none

/-- The result and `g_clr_set`. Nothing else is written. -/
def markRmListenSdByPort (wacEn : Bool) (m : Memory) (clrSet : Finset Nat) (port : UInt16) :
    Option (Int × Finset Nat) :=
  let qhd := Addr.head .listen
  if m.qlen qhd = 0 then some (-1, clrSet)
  else
    (walkWhile m.links.next (fun item => item = qhd || m.port item = port) (m.qlen qhd + 1)
      (m.links.next qhd)).bind fun item =>
        if m.port item = port then
          (fdSet wacEn clrSet (m.socket item)).map fun clrSet => (m.socket item, clrSet)
        else some (-1, clrSet)

/-- The first listener of a port. -/
def listener (m : Memory) (port : UInt16) : Option Addr :=
  (nodesOf m .listen).find? fun item => m.port item = port

/-- The listener's socket and its mark, or neither. -/
def LooksUp (wacEn : Bool) (m : Memory) (clrSet : Finset Nat) (port : UInt16) : Prop :=
  markRmListenSdByPort wacEn m clrSet port = some (match listener m port with
    | some item => (m.socket item, insert (m.socket item).toNat clrSet)
    | none => (-1, clrSet))

instance (wacEn : Bool) (m : Memory) (clrSet : Finset Nat) (port : UInt16) :
    Decidable (LooksUp wacEn m clrSet port) := by
  unfold LooksUp
  infer_instance

variable {wacEn : Bool} {m : Memory} {clrSet : Finset Nat} {port : UInt16}

/-- The search ends at the first listener of the port or at the head. -/
theorem search_listener (h : WellLinked m) :
    walkWhile m.links.next (fun item => item = .head .listen || m.port item = port)
        (m.qlen (.head .listen) + 1) (m.links.next (.head .listen)) =
      some ((listener m port).getD (.head .listen)) := by
  have hsplit := List.takeWhile_append_dropWhile (p := fun item => !decide (m.port item = port))
    (l := nodesOf m .listen)
  have hhead : ((nodesOf m .listen).dropWhile fun item => !decide (m.port item = port)).head? =
      listener m port :=
    (List.find?_eq_head?_dropWhile_not (p := fun item => decide (m.port item = port))
      (nodesOf m .listen)).symm
  rw [← hhead, ← List.headD_eq_head?_getD]
  refine h.search_eq .listen (fun item => m.port item = port) hsplit.symm ?_ ?_
  · intro item hitem
    simpa using List.mem_takeWhile_imp hitem
  · intro item hitem
    have hfound : listener m port = some item := hhead ▸ hitem
    simpa using List.find?_some hfound

/-- What the function does, whatever stands behind the head. -/
theorem markRmListenSdByPort_eq (h : WellLinked m) :
    markRmListenSdByPort wacEn m clrSet port =
      if nodesOf m .listen = [] then some (-1, clrSet)
      else match listener m port with
        | some item => (fdSet wacEn clrSet (m.socket item)).map fun set => (m.socket item, set)
        | none =>
          if m.port (.head .listen) = port then
            (fdSet wacEn clrSet (m.socket (.head .listen))).map fun set =>
              (m.socket (.head .listen), set)
          else some (-1, clrSet) := by
  unfold markRmListenSdByPort
  dsimp only
  rw [search_listener h, Option.bind_some]
  simp only [h.qlen, List.length_eq_zero_iff]
  cases hlistener : listener m port with
  | none => rfl
  | some item =>
    have hport : m.port item = port := by simpa using List.find?_some hlistener
    rw [Option.getD_some, if_pos hport]

/-- The task's view of the lists gives the same socket. -/
theorem markRmListenSdByPort_eq_listenSdByPort (h : WellLinked m) {s : RecvTask.Sys}
    (hlists : s.lists .listen = sds m .listen)
    (hport : ∀ item ∈ nodesOf m .listen, s.port (m.socket item) = m.port item) :
    markRmListenSdByPort wacEn m clrSet port =
      match RecvTask.listenSdByPort s port ⟨m.socket (.head .listen), m.port (.head .listen)⟩ with
      | some socket => (fdSet wacEn clrSet socket).map fun set => (socket, set)
      | none => some (-1, clrSet) := by
  have hfind : (sds m .listen).find? (fun sd => s.port sd = port) =
      (listener m port).map m.socket := by
    unfold sds listener
    rw [List.find?_map]
    congr 1
    apply List.find?_congr
    intro item hitem
    simp [hport item hitem]
  rw [markRmListenSdByPort_eq h]
  unfold RecvTask.listenSdByPort
  rw [hlists, hfind]
  have hempty : sds m .listen = [] ↔ nodesOf m .listen = [] := List.map_eq_nil_iff
  simp only [hempty]
  by_cases hnil : nodesOf m .listen = []
  · rw [if_pos hnil, if_pos hnil]
  · rw [if_neg hnil, if_neg hnil]
    cases listener m port with
    | some item => rfl
    | none =>
      dsimp only [Option.map_none]
      by_cases hbehind : m.port (.head .listen) = port
      · rw [if_pos hbehind, if_pos hbehind]
      · rw [if_neg hbehind, if_neg hbehind]

/-! ### When the lookup is right -/

/-- The mark of a socket there is. -/
theorem fdSet_of_lt {n : Int} (hn : 0 ≤ n ∧ n < fdSetsize wacEn) :
    fdSet wacEn clrSet n = some (insert n.toNat clrSet) := by
  have htdiv : n.tdiv 8 = n / 8 := Int.tdiv_eq_ediv_of_nonneg hn.1
  have hsize : fdSetsize wacEn = 8 ∨ fdSetsize wacEn = 12 := by cases wacEn <;> decide
  have hsplit := Int.mul_ediv_add_emod n 8
  unfold fdSet
  dsimp only
  rw [htdiv, if_pos (by omega), hsplit]

/-- `FD_SET(-1)` marks socket 7. -/
theorem fdSet_minusOne : fdSet wacEn clrSet (-1) = some (insert 7 clrSet) := by
  cases wacEn <;> rfl

/-- What stands behind the head does no harm: the search does not get there, the word there
is not the port, or it is followed up in vain, with the socket -1 and its mark set already. -/
def HeadHarmless (m : Memory) (clrSet : Finset Nat) (port : UInt16) : Prop :=
  (∃ item ∈ nodesOf m .listen, m.port item = port) ∨ nodesOf m .listen = [] ∨
    m.port (.head .listen) ≠ port ∨ (m.socket (.head .listen) = -1 ∧ 7 ∈ clrSet)

theorem looksUp_none_iff (h : WellLinked m) (hlistener : listener m port = none)
    (hne : nodesOf m .listen ≠ []) (hport : m.port (.head .listen) = port) :
    LooksUp wacEn m clrSet port ↔ m.socket (.head .listen) = -1 ∧ 7 ∈ clrSet := by
  unfold LooksUp
  rw [markRmListenSdByPort_eq h, if_neg hne, hlistener]
  dsimp only
  rw [if_pos hport]
  constructor
  · intro heq
    obtain ⟨set, hset, hpair⟩ := Option.map_eq_some_iff.mp heq
    obtain ⟨hsocket, rfl⟩ := Prod.mk.injEq .. ▸ hpair
    refine ⟨hsocket, ?_⟩
    rw [hsocket, fdSet_minusOne] at hset
    exact Finset.insert_eq_self.mp (Option.some.inj hset)
  · rintro ⟨hsocket, hmem⟩
    rw [hsocket, fdSet_minusOne, Finset.insert_eq_self.mpr hmem]
    rfl

theorem listenLookup_iff (wacEn : Bool) (m : Memory) (clrSet : Finset Nat) (port : UInt16)
    (h : WellLinked m) (hsockets : ∀ sd ∈ sds m .listen, 0 ≤ sd ∧ sd < fdSetsize wacEn) :
    LooksUp wacEn m clrSet port ↔ HeadHarmless m clrSet port := by
  cases hlistener : listener m port with
  | some item =>
    have hmem : item ∈ nodesOf m .listen := List.mem_of_find?_eq_some hlistener
    have hport : m.port item = port := by simpa using List.find?_some hlistener
    refine iff_of_true ?_ (.inl ⟨item, hmem, hport⟩)
    unfold LooksUp
    rw [markRmListenSdByPort_eq h, if_neg (List.ne_nil_of_mem hmem), hlistener]
    dsimp only
    rw [fdSet_of_lt (hsockets _ (List.mem_map_of_mem hmem))]
    rfl
  | none =>
    have hnone : ¬ ∃ item ∈ nodesOf m .listen, m.port item = port := by
      rintro ⟨item, hmem, hport⟩
      exact absurd (List.find?_eq_none.mp hlistener item hmem) (by simpa using hport)
    by_cases hne : nodesOf m .listen = []
    · refine iff_of_true ?_ (.inr (.inl hne))
      unfold LooksUp
      rw [markRmListenSdByPort_eq h, if_pos hne, hlistener]
    · by_cases hport : m.port (.head .listen) = port
      · rw [looksUp_none_iff h hlistener hne hport]
        unfold HeadHarmless
        simp [hnone, hne, hport]
      · refine iff_of_true ?_ (.inr (.inr (.inl hport)))
        unfold LooksUp
        rw [markRmListenSdByPort_eq h, if_neg hne, hlistener]
        dsimp only
        rw [if_neg hport]

/-- Listeners of the ports 443, 80 and 23 at the sockets 1, 2 and 5, put in as 2, 5 and 1, and
behind the head what looks like socket 3 with port 5000. -/
def listeners : List Event :=
  [.updateNewListenSd 2 80 (some 0), .updateNewListenSd 5 23 (some 1),
    .updateNewListenSd 1 443 (some 2)]

def zeroed : Memory :=
  initial ⟨fun _ => .head .listen, fun _ => .head .listen⟩ (fun _ => 0) (fun _ => 0x20000000)

def threeListeners : Memory :=
  let m := (exec step zeroed listeners).getD zeroed
  { m with
    socket := update m.socket (.head .listen) 3
    port := update m.port (.head .listen) 5000 }

theorem threeListeners_wellLinked : WellLinked threeListeners := by
  obtain ⟨m, hrun, hexec⟩ : ∃ m, Run step SocketOrder.Distinct zeroed listeners m ∧
      exec step zeroed listeners = some m := by
    refine ⟨_, ((Run.nil.snoc ?_ rfl).snoc ?_ rfl).snoc ?_ rfl, rfl⟩
    · exact fun k => by cases k <;> decide
    · exact fun k => by cases k <;> decide
    · exact fun k => by cases k <;> decide
  have hwell := wellLinked_of_run _ _ _ listeners m hrun
  unfold threeListeners
  rw [hexec]
  exact hwell.congr rfl rfl rfl

/-- The task's view of them. -/
def threeViewed : RecvTask.Sys :=
  { RecvTask.initial with
    lists := update RecvTask.initial.lists .listen [1, 2, 5]
    port := fun sd => if sd = 1 then 443 else if sd = 2 then 80 else 23 }

/-- Each port finds its listener, in front, in the middle and at the end, a port that nobody
listens on finds none, and the port behind the head is taken for one. -/
theorem listenLookup_iff_three :
    (∀ port ∈ [443, 80, 23, 8080], LooksUp false threeListeners ∅ port) ∧
      ¬ LooksUp false threeListeners ∅ 5000 ∧
      ∀ port, markRmListenSdByPort false threeListeners ∅ port =
        match RecvTask.listenSdByPort threeViewed port ⟨3, 5000⟩ with
        | some socket => (fdSet false ∅ socket).map fun set => (socket, set)
        | none => some (-1, ∅) := by
  have hsockets : ∀ sd ∈ sds threeListeners .listen, 0 ≤ sd ∧ sd < fdSetsize false := by decide
  have hlookup (port : UInt16) :
      LooksUp false threeListeners ∅ port ↔ HeadHarmless threeListeners ∅ port :=
    listenLookup_iff false threeListeners ∅ port threeListeners_wellLinked hsockets
  refine ⟨fun port hport => (hlookup port).mpr ?_, fun h => ?_, fun port => ?_⟩
  · rw [List.mem_cons, List.mem_cons, List.mem_cons, List.mem_singleton] at hport
    rcases hport with rfl | rfl | rfl | rfl
    · exact .inl (by decide)
    · exact .inl (by decide)
    · exact .inl (by decide)
    · exact .inr (.inr (.inl (by decide)))
  · exact absurd ((hlookup 5000).mp h) (by unfold HeadHarmless; decide)
  · exact markRmListenSdByPort_eq_listenSdByPort threeListeners_wellLinked (by decide) (by decide)

/-- One listener, of port 80 at socket 1, and behind the head what looks like socket 3
with port 5000. -/
def oneListener : Memory :=
  let m := initial ⟨fun _ => .head .listen, fun _ => .head .listen⟩ (fun _ => 0) (fun _ => 3)
  let m := (step m (.updateNewListenSd 1 80 (some 0))).getD m
  { m with port := update m.port (.head .listen) 5000 }

theorem oneListener_wellLinked : WellLinked oneListener := by
  have hrings : WellLinked { oneListener with port := update (fun _ => 0) (.block 0) 80 } := by
    apply wellLinked_of_run _ _ _ [.updateNewListenSd 1 80 (some 0)] _ (Run.nil.snoc ?_ rfl)
    exact fun k => by cases k <;> decide
  exact hrings.congr rfl rfl rfl

theorem oneListener_found :
    ¬ ∀ wacEn m clrSet port, WellLinked m →
      (∀ sd ∈ sds m .listen, 0 ≤ sd ∧ sd < fdSetsize wacEn) → LooksUp wacEn m clrSet port := by
  intro hall
  have hlookup := hall false oneListener ∅ 5000 oneListener_wellLinked (by decide)
  revert hlookup
  decide

end Sv6x66.Atcmd.ListenLookup
