import Sv6x66.Atcmd.Cursor

/-! Who owns the socket descriptors: the runs of the opening commands and of the
accept and receive loop of `recv_task`. -/
namespace Sv6x66.Atcmd.Ownership
open Sv6x66.Lib Function RecvTask
open SocketList (Kind)
open SocketOrder (insertSd)

/-- The node about to be removed. -/
def closeitem : Option Pc → Option Int
  | some (.aItem _ _ _ closeitem) => closeitem
  | some (.aFormer _ _ _ closeitem) => closeitem
  | some (.aNext _ _ _ closeitem) => closeitem
  | some (.aTail _ _ closeitem) => closeitem
  | _ => none

/-- The descriptor of an accept that is not finished. -/
def inHand : Option Pc → Option Int
  | some (.aNew _ _ forksocket) => some forksocket
  | some (.aSetBit _ _ forksocket) => some forksocket
  | _ => none

/-- Registered in exactly one list, with its bit set or marked for removal. -/
def Owned (s : Sys) (fd : Int) : Prop :=
  (∃! k, fd ∈ s.lists k) ∧
    (fd ∈ s.rSet ∨ fd ∈ s.clrSet ∨ closeitem s.recvTask = some fd)

/-- The opening commands, with what they return. -/
def opening (s : Sys) : Event → Option (Ret × Calls × Sys)
  | .tcpConnect argc port calls => some (let r := atTcpConnect s argc port calls; (r.1, calls, r.2))
  | .tcpListen argc port calls => some (let r := atTcpListen s argc port calls; (r.1, calls, r.2))
  | .udpCreate argc port calls => some (let r := atUdpCreate s argc port calls; (r.1, calls, r.2))
  | _ => none

/-- The opening commands and the loop of the task, but for a failing `select` and
an accepted descriptor that meets a failing `malloc`. -/
def Allowed (s : Sys) : Event → Prop
  | .task .selectError => False
  | .task (.malloc ok _) => ok = true
  | .task _ => True
  | event => (opening s event).isSome

/-- The program counters of a loop that finds no mark. -/
def InLoop : Option Pc → Prop
  | none => True
  | some .start => True
  | some .loopTest => True
  | some .zero => True
  | some .max => True
  | some .copy => True
  | some (.select _) => True
  | some .timeout => True
  | some .stopTest => True
  | some (.aItem ..) => True
  | some (.aFormer ..) => True
  | some (.aCheck ..) => True
  | some (.aReady ..) => True
  | some (.aNew ..) => True
  | some (.aSetBit ..) => True
  | some (.aNext ..) => True
  | some (.aTail ..) => True
  | _ => False

structure Inv (s : Sys) : Prop extends Base s where
  clr : s.clrSet = ∅
  loop : InLoop s.recvTask
  running : s.recvTask = none ∨ s.recvTask = some .start ∨ s.recvTaskSt = .running
  bits : s.rSet ⊆ s.opened
  closing : ∀ c, closeitem s.recvTask = some c → c ∉ s.rSet
  owned : ∀ fd ∈ s.opened, inHand s.recvTask = some fd ∨
    (Registered s fd ∧ (fd ∈ s.rSet ∨ closeitem s.recvTask = some fd))

theorem closeitem_registered {s : Sys} {c : Int} (h : Base s)
    (hc : closeitem s.recvTask = some c) : Registered s c := by
  cases hpc : s.recvTask with
  | none =>
    rw [hpc] at hc
    cases hc
  | some pc =>
    have hcursor := h.cursor pc hpc
    rw [hpc] at hc
    cases pc with
    | aItem ready k item closeitem => exact ⟨k, (hcursor.2 c hc).1⟩
    | aFormer ready k item closeitem => exact ⟨k, (hcursor.2 c hc).1⟩
    | aNext ready k item closeitem => exact ⟨k, hcursor.2 c hc ▸ hcursor.1⟩
    | aTail ready k closeitem => exact ⟨k, hcursor c hc⟩
    | _ => cases hc

namespace Inv

variable {s t : Sys}

/-- A step that moves no descriptor. -/
theorem same (h : Inv s) (hbase : Base t) (hlists : t.lists = s.lists)
    (hopened : t.opened = s.opened) (hrSet : t.rSet = s.rSet) (hclr : t.clrSet = ∅)
    (hclose : closeitem t.recvTask = closeitem s.recvTask)
    (hhand : inHand t.recvTask = inHand s.recvTask) (hloop : InLoop t.recvTask)
    (hrunning : t.recvTask = none ∨ t.recvTask = some .start ∨ t.recvTaskSt = .running) :
    Inv t where
  toBase := hbase
  clr := hclr
  loop := hloop
  running := hrunning
  bits := by
    rw [hrSet, hopened]
    exact h.bits
  closing := by
    rw [hclose, hrSet]
    exact h.closing
  owned := by
    unfold Registered
    rw [hopened, hhand, hclose, hrSet, hlists]
    exact h.owned

/-- The node marked for removal goes, and its descriptor with it. -/
theorem unlink (h : Inv s) {k : Kind} {c : Int} {pc' : Pc}
    (hbase : Base { apply s (.unlink k c) with recvTask := some pc' }) (hc : c ∈ s.lists k)
    (hclose : closeitem s.recvTask = some c) (hhand : inHand s.recvTask = none)
    (hnone : closeitem (some pc') = none) (hloop : InLoop (some pc'))
    (hst : s.recvTaskSt = .running) :
    Inv { apply s (.unlink k c) with recvTask := some pc' } where
  toBase := hbase
  clr := h.clr
  loop := hloop
  running := Or.inr (Or.inr hst)
  bits := by
    intro fd hfd
    refine Finset.mem_erase.mpr ⟨?_, h.bits hfd⟩
    rintro rfl
    exact h.closing fd hclose hfd
  closing := by
    intro c' hc'
    rw [hnone] at hc'
    cases hc'
  owned := by
    intro fd hfd
    obtain ⟨hne, hold⟩ := Finset.mem_erase.mp hfd
    rcases h.owned fd hold with hhand' | ⟨⟨l, hl⟩, hbit⟩
    · rw [hhand] at hhand'
      cases hhand'
    · refine Or.inr ⟨⟨l, (mem_lists_unlink h.toLists hc).mpr ⟨hl, hne⟩⟩, Or.inl ?_⟩
      refine hbit.resolve_right fun heq => hne ?_
      rw [hclose] at heq
      exact (Option.some.inj heq).symm

/-- The end of an iteration, which removes the node marked before it. -/
theorem unlinkFormer (h : Inv s) {k : Kind} {c : Option Int} {pc' : Pc}
    (hbase : Base { apply s (unlinkFormer k c) with recvTask := some pc' })
    (hc : ∀ x ∈ c, x ∈ s.lists k) (hclose : closeitem s.recvTask = c)
    (hhand : inHand s.recvTask = none) (hhand' : inHand (some pc') = none)
    (hnone : closeitem (some pc') = none) (hloop : InLoop (some pc'))
    (hst : s.recvTaskSt = .running) :
    Inv { apply s (RecvTask.unlinkFormer k c) with recvTask := some pc' } := by
  cases c with
  | none =>
    exact h.same hbase rfl rfl rfl h.clr (hnone.trans hclose.symm) (hhand'.trans hhand.symm) hloop
      (Or.inr (Or.inr hst))
  | some c => exact h.unlink hbase (hc c rfl) hclose hhand hnone hloop hst

theorem accept (h : Inv s) {ready : Finset Int} {sd forksocket : Int}
    (hbase : Base { apply s (.accepted forksocket) with
      recvTask := some (.aNew ready sd forksocket) })
    (hpc : s.recvTask = some (.aReady ready .listen sd)) (hst : s.recvTaskSt = .running) :
    Inv { apply s (.accepted forksocket) with
      recvTask := some (.aNew ready sd forksocket) } where
  toBase := hbase
  clr := h.clr
  loop := trivial
  running := Or.inr (Or.inr hst)
  bits := fun fd hfd => Finset.mem_insert_of_mem (h.bits hfd)
  closing := by
    intro c hc
    cases hc
  owned := by
    intro fd hfd
    rcases Finset.mem_insert.mp hfd with rfl | hold
    · exact Or.inl rfl
    · have howned := h.owned fd hold
      rw [hpc] at howned
      rcases howned with hhand | ⟨hregistered, hbit⟩
      · cases hhand
      · exact Or.inr ⟨hregistered, hbit.imp id fun hclose => by cases hclose⟩

theorem lost (h : Inv s) {ready : Finset Int} {sd : Int}
    (hbase : Base { apply s (.clearBit sd) with
      recvTask := some (.aNext ready .normal sd (some sd)) })
    (hpc : s.recvTask = some (.aReady ready .normal sd)) (hst : s.recvTaskSt = .running) :
    Inv { apply s (.clearBit sd) with
      recvTask := some (.aNext ready .normal sd (some sd)) } where
  toBase := hbase
  clr := h.clr
  loop := trivial
  running := Or.inr (Or.inr hst)
  bits := fun fd hfd => h.bits (Finset.mem_of_mem_erase hfd)
  closing := by
    rintro c ⟨⟩
    exact Finset.notMem_erase sd s.rSet
  owned := by
    intro fd hfd
    have howned := h.owned fd hfd
    rw [hpc] at howned
    rcases howned with hhand | ⟨hregistered, hbit⟩
    · cases hhand
    · refine Or.inr ⟨hregistered, ?_⟩
      by_cases heq : fd = sd
      · exact Or.inr (congrArg some heq.symm)
      · rcases hbit with hbit | hclose
        · exact Or.inl (Finset.mem_erase.mpr ⟨heq, hbit⟩)
        · cases hclose

theorem register (h : Inv s) {ready : Finset Int} {sd forksocket behind : Int}
    (hbase : Base { apply s (.register forksocket behind) with
      recvTask := some (.aSetBit ready sd forksocket) })
    (hpc : s.recvTask = some (.aNew ready sd forksocket)) (hst : s.recvTaskSt = .running) :
    Inv { apply s (.register forksocket behind) with
      recvTask := some (.aSetBit ready sd forksocket) } where
  toBase := hbase
  clr := h.clr
  loop := trivial
  running := Or.inr (Or.inr hst)
  bits := h.bits
  closing := by
    intro c hc
    cases hc
  owned := by
    intro fd hfd
    have howned := h.owned fd hfd
    rw [hpc] at howned
    rcases howned with hhand | ⟨⟨l, hl⟩, hbit⟩
    · exact Or.inl hhand
    · refine Or.inr ⟨⟨l, mem_insert_lists.mpr (Or.inl hl)⟩, hbit.imp id fun hclose => ?_⟩
      cases hclose

theorem setBit (h : Inv s) {ready : Finset Int} {sd forksocket : Int}
    (hbase : Base { apply s (.setBit forksocket) with
      recvTask := some (.aNext ready .listen sd none) })
    (hpc : s.recvTask = some (.aSetBit ready sd forksocket)) (hst : s.recvTaskSt = .running) :
    Inv { apply s (.setBit forksocket) with
      recvTask := some (.aNext ready .listen sd none) } where
  toBase := hbase
  clr := h.clr
  loop := trivial
  running := Or.inr (Or.inr hst)
  bits := by
    intro fd hfd
    have hregistered := (h.cursor _ hpc).2
    rcases Finset.mem_insert.mp hfd with rfl | hold
    · exact h.opened _ fd hregistered
    · exact h.bits hold
  closing := by
    intro c hc
    cases hc
  owned := by
    intro fd hfd
    have howned := h.owned fd hfd
    rw [hpc] at howned
    rcases howned with hhand | ⟨hregistered, hbit⟩
    · cases hhand
      exact Or.inr ⟨⟨_, (h.cursor _ hpc).2⟩, Or.inl (Finset.mem_insert_self ..)⟩
    · refine Or.inr ⟨hregistered, hbit.imp Finset.mem_insert_of_mem fun hclose => ?_⟩
      cases hclose

theorem task {answer : Answer} (h : Inv s) (hallowed : Allowed s (.task answer))
    (hstep : stepTask s answer = some t) : Inv t := by
  have hbase := h.toBase.task hstep
  obtain ⟨pc, hpc, hmap⟩ := Option.bind_eq_some_iff.mp hstep
  obtain ⟨⟨effect, pc'⟩, hnext, rfl⟩ := Option.map_eq_some_iff.mp hmap
  have hloop := h.loop
  have hcursor := h.cursor pc hpc
  have hsame := h.same hbase
  have hst : pc ≠ .start → s.recvTaskSt = .running := by
    intro hne
    rcases h.running with hnone | hstart | hst
    · rw [hpc] at hnone
      cases hnone
    · rw [hpc] at hstart
      exact absurd (Option.some.inj hstart) hne
    · exact hst
  rw [hpc] at hloop hsame
  cases next_spec hnext with
  | start => exact hsame rfl rfl rfl h.clr rfl rfl trivial (Or.inr (Or.inr rfl))
  | loopZero hrunning => exact hsame rfl rfl rfl h.clr rfl rfl trivial (Or.inr (Or.inr hrunning))
  | loopEnd hend => exact absurd (hst (by simp)) hend
  | zero => exact hsame rfl rfl rfl rfl rfl rfl trivial (Or.inr (Or.inr (hst (by simp))))
  | max => exact hsame rfl rfl rfl h.clr rfl rfl trivial (Or.inr (Or.inr (hst (by simp))))
  | copy => exact hsame rfl rfl rfl h.clr rfl rfl trivial (Or.inr (Or.inr (hst (by simp))))
  | selectError =>
    cases answer with
    | selectError => exact hallowed.elim
    | _ => simp [next] at hnext
  | selectTimeout =>
    exact hsame rfl rfl rfl h.clr rfl rfl trivial (Or.inr (Or.inr (hst (by simp))))
  | selectReady =>
    exact hsame rfl rfl rfl h.clr rfl rfl trivial (Or.inr (Or.inr (hst (by simp))))
  | timeoutScan hmarks => exact absurd h.clr hmarks
  | timeoutNone => exact hsame rfl rfl rfl h.clr rfl rfl trivial (Or.inr (Or.inr (hst (by simp))))
  | stopEnd hend => exact absurd (hst (by simp)) hend
  | stopLoop hrunning => exact hsame rfl rfl rfl h.clr rfl rfl trivial (Or.inr (Or.inr hrunning))
  | aEnd => exact hsame rfl rfl rfl h.clr rfl rfl trivial (Or.inr (Or.inr (hst (by simp))))
  | aItem => exact hsame rfl rfl rfl h.clr rfl rfl trivial (Or.inr (Or.inr (hst (by simp))))
  | aFormer =>
    exact h.unlinkFormer hbase (fun c hc => (hcursor.2 c hc).1) (by rw [hpc]; rfl)
      (by rw [hpc]; rfl) rfl rfl trivial (hst (by simp))
  | aMarked hmark =>
    rw [h.clr] at hmark
    cases hmark
  | aUnmarked => exact hsame rfl rfl rfl h.clr rfl rfl trivial (Or.inr (Or.inr (hst (by simp))))
  | aIdle => exact hsame rfl rfl rfl h.clr rfl rfl trivial (Or.inr (Or.inr (hst (by simp))))
  | aAccept => exact h.accept hbase hpc (hst (by simp))
  | aLost => exact h.lost hbase hpc (hst (by simp))
  | aRegister => exact h.register hbase hpc (hst (by simp))
  | aNoMemory =>
    cases answer with
    | malloc ok behind =>
      have hok : ok = true := hallowed
      simp [next, hok] at hnext
    | _ => simp [next] at hnext
  | aSetBit => exact h.setBit hbase hpc (hst (by simp))
  | aNext => exact hsame rfl rfl rfl h.clr rfl rfl trivial (Or.inr (Or.inr (hst (by simp))))
  | aListenTail =>
    exact h.unlinkFormer hbase hcursor (by rw [hpc]; rfl) (by rw [hpc]; rfl) rfl rfl trivial
      (hst (by simp))
  | aNormalTail =>
    exact h.unlinkFormer hbase hcursor (by rw [hpc]; rfl) (by rw [hpc]; rfl) rfl rfl trivial
      (hst (by simp))
  | _ => exact hloop.elim

theorem failed {ret : Ret} (h : Inv s) (hbase : Base t) (hfailed : Failed s t ret) :
    t.lists = s.lists ∧ t.rSet = s.rSet ∧ Inv t := by
  have hrSet : t.rSet = s.rSet := by
    rcases hfailed.rSet with heq | ⟨fd, hfresh, heq⟩
    · exact heq
    · rw [heq]
      exact Finset.erase_eq_of_notMem fun hbit => hfresh (h.bits hbit)
  have hlists : t.lists = s.lists := by rw [hfailed.frame]
  have hopened : t.opened = s.opened := by rw [hfailed.frame]
  have hclr : t.clrSet = s.clrSet := by rw [hfailed.frame]
  have htask : t.recvTask = s.recvTask := by rw [hfailed.frame]
  have hst : t.recvTaskSt = s.recvTaskSt := by rw [hfailed.frame]
  refine ⟨hlists, hrSet, h.same hbase hlists hopened hrSet (hclr.trans h.clr) ?_ ?_ ?_ ?_⟩
  · rw [htask]
  · rw [htask]
  · rw [htask]
    exact h.loop
  · rw [htask, hst]
    exact h.running

theorem success {k : Kind} {fd : Int} {ret : Ret} (h : Inv s) (hbase : Base t)
    (hopened : Opened s t k fd ret) : Inv t := by
  obtain ⟨behind, port, rfl⟩ := hopened.frame
  have hclose : closeitem (some (s.recvTask.getD .start)) = closeitem s.recvTask := by
    cases s.recvTask <;> rfl
  have hhand : inHand (some (s.recvTask.getD .start)) = inHand s.recvTask := by
    cases s.recvTask <;> rfl
  constructor
  · exact hbase
  · exact h.clr
  · have hloop := h.loop
    revert hloop
    cases s.recvTask with
    | none => exact fun _ => trivial
    | some pc => exact id
  · have hrunning := h.running
    revert hrunning
    cases s.recvTask with
    | none => exact fun _ => Or.inr (Or.inl rfl)
    | some pc => exact id
  · exact Finset.insert_subset_insert fd h.bits
  · intro c hc hbit
    rw [hclose] at hc
    rcases Finset.mem_insert.mp hbit with rfl | hold
    · obtain ⟨l, hl⟩ := closeitem_registered h.toBase hc
      exact hopened.fresh (h.opened l c hl)
    · exact h.closing c hc hold
  · intro x hx
    rw [hclose, hhand]
    rcases Finset.mem_insert.mp hx with rfl | hold
    · refine Or.inr ⟨⟨k, ?_⟩, Or.inl (Finset.mem_insert_self ..)⟩
      exact mem_insert_lists.mpr (Or.inr ⟨rfl, rfl⟩)
    · rcases h.owned x hold with hinHand | ⟨⟨l, hl⟩, hbit⟩
      · exact Or.inl hinHand
      · right
        exact ⟨⟨l, mem_insert_lists.mpr (Or.inl hl)⟩, hbit.imp Finset.mem_insert_of_mem id⟩

end Inv

/-- An opening command is one of `openSocket`, and its step is taken when no
other command runs. -/
theorem opening_spec {s t : Sys} {event : Event} {ret : Ret} {calls : Calls} (h : Lists s)
    (hopening : opening s event = some (ret, calls, t)) (hready : Ready s calls) :
    step s event = some t ∧ (Failed s t ret ∨ ∃ k fd, Opened s t k fd ret) := by
  have hcases : ∀ {k argc minArgc port a b c}, a ≠ Ret.success → b ≠ Ret.success →
      c ≠ Ret.success →
      let r := openSocket s k argc minArgc port calls a b c
      Failed s r.2 r.1 ∨ ∃ k fd, Opened s r.2 k fd r.1 := by
    intro k argc minArgc port a b c ha hb hc
    rcases openSocket_spec h hready.2 ha hb hc with hfailed | ⟨fd, hopened⟩
    · exact Or.inl hfailed
    · exact Or.inr ⟨k, fd, hopened⟩
  cases event with
  | tcpConnect argc port calls =>
    cases hopening
    exact ⟨if_pos hready, hcases (by simp) (by simp) (by simp)⟩
  | tcpListen argc port calls =>
    cases hopening
    exact ⟨if_pos hready, hcases (by simp) (by simp) (by simp)⟩
  | udpCreate argc port calls =>
    cases hopening
    exact ⟨if_pos hready, hcases (by simp) (by simp) (by simp)⟩
  | _ => cases hopening

theorem opening_ready {s t : Sys} {event : Event} (hopening : (opening s event).isSome)
    (hstep : step s event = some t) :
    ∃ ret calls, opening s event = some (ret, calls, t) ∧ Ready s calls := by
  cases event with
  | tcpConnect argc port calls =>
    simp only [step] at hstep
    split at hstep <;> cases hstep
    exact ⟨_, calls, rfl, ‹_›⟩
  | tcpListen argc port calls =>
    simp only [step] at hstep
    split at hstep <;> cases hstep
    exact ⟨_, calls, rfl, ‹_›⟩
  | udpCreate argc port calls =>
    simp only [step] at hstep
    split at hstep <;> cases hstep
    exact ⟨_, calls, rfl, ‹_›⟩
  | _ => cases hopening

theorem Inv.step {s t : Sys} {event : Event} (h : Inv s) (hallowed : Allowed s event)
    (hstep : RecvTask.step s event = some t) : Inv t := by
  have hbase := h.toBase.step hstep
  by_cases hevent : ∃ answer, event = .task answer
  · obtain ⟨answer, rfl⟩ := hevent
    exact h.task hallowed hstep
  · have hopening : (opening s event).isSome := by
      cases event with
      | task answer => exact absurd ⟨answer, rfl⟩ hevent
      | _ => exact hallowed
    obtain ⟨ret, calls, heq, hready⟩ := opening_ready hopening hstep
    rcases (opening_spec h.toLists heq hready).2 with hfailed | ⟨k, fd, hopened⟩
    · exact (h.failed hbase hfailed).2.2
    · exact h.success hbase hopened

theorem inv_of_run {events : List Event} {s : Sys} (hrun : Run step Allowed initial events s) :
    Inv s := by
  refine hrun.invariant ?_ fun s event t hs hallowed hstep => hs.step hallowed hstep
  exact { Base.initial with
    clr := rfl
    loop := trivial
    running := Or.inl rfl
    bits := Finset.Subset.refl _
    closing := fun c hc => by cases hc
    owned := fun fd hfd => by cases hfd }

/-- Between the steps every open descriptor is owned, and a command that returns an
error changes neither list and no bit of `g_r_set`. -/
structure Accounted (s : Sys) : Prop where
  owned : inHand s.recvTask = none → ∀ fd ∈ s.opened, Owned s fd
  undone : ∀ event ret calls t, opening s event = some (ret, calls, t) → Ready s calls →
    ret ≠ .success → t.lists = s.lists ∧ t.rSet = s.rSet

theorem accounted_of_run (events : List Event) (s : Sys)
    (hrun : Run step Allowed initial events s) : Accounted s := by
  have h := inv_of_run hrun
  constructor
  · intro hsettled fd hfd
    rcases h.owned fd hfd with hhand | ⟨⟨k, hk⟩, hbit⟩
    · rw [hsettled] at hhand
      cases hhand
    · exact ⟨⟨k, hk, fun l hl => h.toLists.kind_eq hl hk⟩, hbit.imp id Or.inr⟩
  · intro event ret calls t hopening hready hret
    obtain ⟨hstep, hcases⟩ := opening_spec h.toLists hopening hready
    rcases hcases with hfailed | ⟨k, fd, hopened⟩
    · have hundone := h.failed (h.toBase.step hstep) hfailed
      exact ⟨hundone.1, hundone.2.1⟩
    · exact absurd hopened.ret hret

/-- The calls of a listener on descriptor 0. -/
def listens : Calls := ⟨some 0, true, true, 0x20000000, true⟩

/-- A listener, a connection that it accepts, and a datagram socket that the command could
not open. -/
def acceptsOne : List Event :=
  [.tcpListen 1 80 listens, .task .none, .task .none, .task .none, .task .none, .task .none,
    .task (.selectReady {0}), .task .none, .task .none, .task .none, .task (.accept (some 1)),
    .task (.malloc true 0x20000010), .task .none,
    .udpCreate 1 53 { listens with socket := some 2, malloc := false }]

instance (s : Sys) : (event : Event) → Decidable (Allowed s event)
  | .task .selectError => .isFalse id
  | .task (.malloc ok _) => inferInstanceAs (Decidable (ok = true))
  | .task .none | .task .selectTimeout | .task (.selectReady _) | .task (.accept _)
  | .task (.recv ..) => .isTrue trivial
  | .tcpConnect .. => .isTrue rfl
  | .tcpListen .. => .isTrue rfl
  | .udpCreate .. => .isTrue rfl
  | .tcpDisconnect .. | .udpClose .. | .tcpUnlisten .. | .cmd => .isFalse nofun

theorem accounted_of_run_acceptsOne :
    ∃ s, exec step initial acceptsOne = some s ∧ 0 ∈ s.opened ∧ 1 ∈ s.opened ∧ 2 ∉ s.opened ∧
      Accounted s := by
  have hexec : (exec (guarded step fun s event => decide (Allowed s event)) initial
      acceptsOne).any fun s => decide (0 ∈ s.opened ∧ 1 ∈ s.opened ∧ 2 ∉ s.opened) := by
    decide
  obtain ⟨s, hs, hfacts⟩ := (Option.any_eq_true _ _).mp hexec
  have hrun := (Run.of_exec_guarded hs).mono fun _ _ h => of_decide_eq_true h
  obtain ⟨hlistener, hconnection, hfailed⟩ := of_decide_eq_true hfacts
  exact ⟨s, hrun.exec_eq, hlistener, hconnection, hfailed, accounted_of_run acceptsOne s hrun⟩

/-- A listener, and a connection whose node does not fit in the memory. -/
def acceptFails : List Event :=
  [.tcpListen 1 80 listens, .task .none, .task .none, .task .none, .task .none, .task .none,
    .task (.selectReady {0}), .task .none, .task .none, .task .none, .task (.accept (some 1)),
    .task (.malloc false 0)]

/-- Socket 1 is open, in no list and without a bit. -/
theorem accept_leaks :
    ∃ s, Run step anyStep initial acceptFails s ∧ inHand s.recvTask = none ∧ 1 ∈ s.opened ∧
      ¬ Owned s 1 := by
  have hexec : (exec step initial acceptFails).any fun s =>
      decide (inHand s.recvTask = none ∧ 1 ∈ s.opened ∧ 1 ∉ s.lists .listen ∧
        1 ∉ s.lists .normal) := by
    decide
  obtain ⟨s, hs, hfacts⟩ := (Option.any_eq_true _ _).mp hexec
  obtain ⟨hsettled, hopened, hlisten, hnormal⟩ := of_decide_eq_true hfacts
  refine ⟨s, Run.of_exec hs, hsettled, hopened, ?_⟩
  rintro ⟨⟨k, hk, -⟩, -⟩
  cases k with
  | listen => exact hlisten hk
  | normal => exact hnormal hk

end Sv6x66.Atcmd.Ownership
