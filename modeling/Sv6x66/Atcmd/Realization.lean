import Sv6x66.Atcmd.Cursor

/-! The lists of the system are those of the pointer structure: every step of
the commands and of `recv_task` is a short run of list operations in memory. -/
namespace Sv6x66.Atcmd.Realization
open Sv6x66.Lib Function RecvTask
open SocketList (Kind Memory Addr)
open SocketOrder (WellLinked Distinct insertSd step_effect step_isSome)

/-- The memory holds these lists. -/
structure Holds (m : Memory) (lists : Kind → List Int) : Prop where
  wellLinked : WellLinked m
  sds : SocketList.sds m = lists

/-- The memory can come to hold `target`. -/
def Reaches (m : Memory) (target : Kind → List Int) : Prop :=
  ∃ events m', Run SocketList.step Distinct m events m' ∧ Holds m' target

variable {m : Memory} {lists : Kind → List Int}

theorem Reaches.refl (h : Holds m lists) : Reaches m lists := ⟨[], m, .nil, h⟩

theorem Reaches.trans {target : Kind → List Int} (h : Reaches m lists)
    (hnext : ∀ m', Holds m' lists → Reaches m' target) : Reaches m target := by
  obtain ⟨events, m', hrun, hholds⟩ := h
  obtain ⟨later, m'', hlater, hholds'⟩ := hnext m' hholds
  exact ⟨events ++ later, m'', hrun.trans hlater, hholds'⟩

/-- One list operation that is not refused. -/
theorem reaches_event (hwell : WellLinked m) (event : SocketList.Event) (hdistinct : Distinct m event)
    (hmalloc : ∀ malloc, (∃ socket port, event = .updateNewListenSd socket port malloc) ∨
      (∃ socket parentSd, event = .updateNewSd socket parentSd malloc) → SocketList.Fresh m malloc)
    (hindex : ∀ k i, event = .recvRemove k i → i < (SocketList.sds m k).length) :
    ∃ m', Run SocketList.step Distinct m [event] m' ∧ Holds m' (SocketOrder.effect m event) := by
  obtain ⟨m', hm'⟩ := Option.isSome_iff_exists.mp (step_isSome hwell hdistinct hmalloc hindex)
  obtain ⟨hwell', hsds'⟩ := step_effect hwell hdistinct hm'
  exact ⟨m', Run.nil.snoc hdistinct hm', hwell', hsds'⟩

/-- The word behind a head is not part of a list. -/
theorem reaches_write (h : Holds m lists) (behind : Int) :
    ∃ m', Run SocketList.step Distinct m [.write fun _ => behind] m' ∧ Holds m' lists ∧
      ∀ k, m'.socket (.head k) = behind := by
  have hdistinct : Distinct m (.write fun _ => behind) := trivial
  obtain ⟨hwell', hsds'⟩ := step_effect h.wellLinked hdistinct rfl
  exact ⟨_, Run.nil.snoc hdistinct rfl, ⟨hwell', hsds'.trans h.sds⟩, fun _ => rfl⟩

/-- The registration of a new socket: the word behind the head first gets the
value the insertion is going to read. -/
theorem reaches_insert (h : Holds m lists) {k : Kind} {fd : Int}
    (hfresh : ∀ l, fd ∉ lists l) (behind : Int) :
    Reaches m (update lists k (insertSd behind fd (lists k))) := by
  obtain ⟨m₁, hwrite, hholds, hbehind⟩ := reaches_write h behind
  obtain ⟨n, hn⟩ := Infinite.exists_notMem_finset m₁.live.toFinset
  rw [List.mem_toFinset] at hn
  have hdistinct : ∀ l, fd ∉ SocketList.sds m₁ l := by
    rw [hholds.sds]
    exact hfresh
  have hmalloc : SocketList.Fresh m₁ (some n) := by
    intro n' hn'
    cases hn'
    exact hn
  cases k with
  | listen =>
    obtain ⟨m', hrun, hholds'⟩ := reaches_event hholds.wellLinked
      (.updateNewListenSd fd 0 (some n)) hdistinct
      (by rintro malloc (⟨_, _, heq⟩ | ⟨_, _, heq⟩) <;> cases heq; exact hmalloc)
      (by intro k i heq; cases heq)
    rw [SocketOrder.effect, hbehind, hholds.sds] at hholds'
    exact ⟨_, m', hwrite.trans hrun, hholds'⟩
  | normal =>
    obtain ⟨m', hrun, hholds'⟩ := reaches_event hholds.wellLinked
      (.updateNewSd fd 0 (some n)) hdistinct
      (by rintro malloc (⟨_, _, heq⟩ | ⟨_, _, heq⟩) <;> cases heq; exact hmalloc)
      (by intro k i heq; cases heq)
    rw [SocketOrder.effect, hbehind, hholds.sds] at hholds'
    exact ⟨_, m', hwrite.trans hrun, hholds'⟩

theorem reaches_erase (h : Holds m lists) {k : Kind} {sd : Int} (hsd : sd ∈ lists k) :
    Reaches m (update lists k ((lists k).erase sd)) := by
  obtain ⟨hwell, rfl⟩ := h
  obtain ⟨m', hrun, hholds⟩ := reaches_event hwell
    (.recvRemove k ((SocketList.sds m k).idxOf sd)) trivial
    (by rintro malloc (⟨_, _, heq⟩ | ⟨_, _, heq⟩) <;> cases heq)
    (by intro k i heq; cases heq; exact List.idxOf_lt_length_of_mem hsd)
  rw [SocketOrder.effect, List.eraseIdx_idxOf_eq_erase] at hholds
  exact ⟨_, m', hrun, hholds⟩

theorem reaches_apply {s : Sys} {effect : Effect} (h : Holds m s.lists)
    (happlicable : Applicable s effect) : Reaches m (apply s effect).lists := by
  cases effect with
  | unlink k sd => exact reaches_erase h happlicable
  | register forksocket behind => exact reaches_insert h happlicable.2 behind
  | _ => exact Reaches.refl h

theorem reaches_command {s t : Sys} {event : Event} (hbase : Base s) (h : Holds m s.lists)
    (hcommand : Command s event t) : Reaches m t.lists := by
  cases hcommand with
  | failed ret hfailed =>
    rw [hfailed.frame]
    exact Reaches.refl h
  | opened k fd ret hopened =>
    obtain ⟨behind, port, rfl⟩ := hopened.frame
    exact reaches_insert h (fun l hl => hopened.fresh (hbase.opened l fd hl)) behind
  | mark sd cmd hmarked heq =>
    rw [heq]
    exact Reaches.refl h
  | other rSet cmd st hst heq =>
    rw [heq]
    exact Reaches.refl h

theorem reaches_step {s t : Sys} {event : Event} (hbase : Base s) (h : Holds m s.lists)
    (hstep : step s event = some t) : Reaches m t.lists := by
  cases event with
  | task answer =>
    obtain ⟨pc, effect, pc', hpc, hnext, rfl⟩ := stepTask_spec hstep
    exact reaches_apply h (hnext.applicable (hbase.cursor pc hpc))
  | _ => exact reaches_command hbase h (command_spec hbase.toLists hstep (by simp))

/-- Whatever the system does, a run of list operations from the initialised
heads leads to memory that holds its lists. -/
theorem lists_realized {events : List Event} {s : Sys}
    (hrun : Run step anyStep initial events s) (links : IntrusiveList.Links Addr) (qlen : Addr → Nat)
    (socket : Addr → Int) :
    ∃ operations m, Run SocketList.step Distinct (SocketList.initial links qlen socket)
      operations m ∧ Holds m s.lists := by
  have hboth : Base s ∧ Reaches (SocketList.initial links qlen socket) s.lists := by
    apply hrun.invariant (I := fun s => Base s ∧ Reaches (SocketList.initial links qlen socket) s.lists)
    · obtain ⟨hwell, hsds⟩ := SocketOrder.initial_wellLinked links qlen socket
      exact ⟨Base.initial, Reaches.refl ⟨hwell, funext hsds⟩⟩
    · rintro s event t ⟨hbase, hreaches⟩ - hstep
      exact ⟨hbase.step hstep, hreaches.trans fun m hholds => reaches_step hbase hholds hstep⟩
  exact hboth.2

end Sv6x66.Atcmd.Realization
