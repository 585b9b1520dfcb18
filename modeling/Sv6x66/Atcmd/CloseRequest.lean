import Sv6x66.Atcmd.Cursor

/-! Which marks in `g_clr_set` a round of `recv_task` still gets to see, and that
no other mark is ever lost. -/
namespace Sv6x66.Atcmd.CloseRequest
open Sv6x66.Lib Function RecvTask
open SocketList (Kind)
open SocketOrder (insertSd)

/-- The scan of list `k` is followed by that of the normal sockets. -/
def Rest (s : Sys) (k : Kind) (sd : Int) : Prop := k = .listen ∧ sd ∈ s.lists .normal

/-- The round still comes to test the mark of `sd`, or has done so and is about to
close it. -/
def Examines (s : Sys) (sd : Int) : Pc → Prop
  | .max => Registered s sd
  | .copy => Registered s sd
  | .select _ => Registered s sd
  | .timeout => Registered s sd
  | .tItem k item => From (s.lists k) item sd ∨ Rest s k sd
  | .tCheck k item after => sd = item ∨ From (s.lists k) after sd ∨ Rest s k sd
  | .tRemove k item after => sd = item ∨ From (s.lists k) after sd ∨ Rest s k sd
  | .aItem _ k item closeitem => From (s.lists k) item sd ∨ closeitem = some sd ∨ Rest s k sd
  | .aFormer _ k item closeitem =>
    sd = item ∨ After (s.lists k) item sd ∨ closeitem = some sd ∨ Rest s k sd
  | .aCheck _ k item => sd = item ∨ After (s.lists k) item sd ∨ Rest s k sd
  | .aReady _ k item => After (s.lists k) item sd ∨ Rest s k sd
  | .aNew _ item _ => After (s.lists .listen) item sd ∨ Rest s .listen sd
  | .aSetBit _ item _ => After (s.lists .listen) item sd ∨ Rest s .listen sd
  | .aNext _ k item closeitem =>
    After (s.lists k) item sd ∨ closeitem = some sd ∨ Rest s k sd
  | .aTail _ k closeitem => closeitem = some sd ∨ Rest s k sd
  | .loopTest => s.recvTaskSt ≠ .running ∧ Registered s sd
  | .stopTest => s.recvTaskSt ≠ .running ∧ Registered s sd
  | .terminate .normal => Registered s sd
  | .terminate .listen => sd ∈ s.lists .listen
  | .start => False
  | .zero => False
  | .termZero => False
  | .termSt => False
  | .termInst => False

/-- A mark that counts is set while the round still examines its socket. -/
def InTime (s : Sys) (event : Event) : Prop :=
  ∀ sd, marked s event = some sd → Counts s sd →
    ∃ pc, s.recvTask = some pc ∧ Examines s sd pc

/-- Every pending mark is in `g_clr_set` and still to be examined. -/
structure Watched (s : Sys) : Prop where
  marked : s.pending ⊆ s.clrSet
  examined : ∀ sd ∈ s.pending, ∃ pc, s.recvTask = some pc ∧ Examines s sd pc

theorem registered_iff {s : Sys} {sd : Int} :
    Registered s sd ↔ sd ∈ s.lists .listen ∨ sd ∈ s.lists .normal := by
  constructor
  · rintro ⟨k, hk⟩
    cases k
    · exact Or.inl hk
    · exact Or.inr hk
  · rintro (h | h)
    · exact ⟨_, h⟩
    · exact ⟨_, h⟩

/-- Registrations, and an end of the running state, take nothing away. -/
theorem Examines.mono {s t : Sys} {sd : Int} {pc : Pc} (h : Examines s sd pc)
    (hlists : ∀ k, (s.lists k).Sublist (t.lists k))
    (hst : t.recvTaskSt = .running → s.recvTaskSt = .running) : Examines t sd pc := by
  have hregistered : Registered s sd → Registered t sd := by
    rintro ⟨k, hk⟩
    exact ⟨k, (hlists k).subset hk⟩
  have hrest : ∀ {k}, Rest s k sd → Rest t k sd := fun hr => ⟨hr.1, (hlists .normal).subset hr.2⟩
  have hfrom : ∀ {k item}, From (s.lists k) item sd → From (t.lists k) item sd :=
    fun hf => hf.mono (hlists _)
  have hafter : ∀ {k item}, After (s.lists k) item sd → After (t.lists k) item sd :=
    fun ha => ha.trans (hlists _)
  cases pc with
  | tItem k item => exact h.imp hfrom hrest
  | tCheck k item after => exact h.imp id (Or.imp hfrom hrest)
  | tRemove k item after => exact h.imp id (Or.imp hfrom hrest)
  | aItem ready k item closeitem => exact h.imp hfrom (Or.imp id hrest)
  | aFormer ready k item closeitem => exact h.imp id (Or.imp hafter (Or.imp id hrest))
  | aCheck ready k item => exact h.imp id (Or.imp hafter hrest)
  | aReady ready k item => exact h.imp hafter hrest
  | aNew ready item forksocket => exact h.imp hafter hrest
  | aSetBit ready item forksocket => exact h.imp hafter hrest
  | aNext ready k item closeitem => exact h.imp hafter (Or.imp id hrest)
  | aTail ready k closeitem => exact h.imp id hrest
  | loopTest => exact ⟨fun ht => h.1 (hst ht), hregistered h.2⟩
  | stopTest => exact ⟨fun ht => h.1 (hst ht), hregistered h.2⟩
  | terminate k =>
    cases k with
    | listen => exact (hlists .listen).subset h
    | normal => exact hregistered h
  | max => exact hregistered h
  | copy => exact hregistered h
  | select rSet => exact hregistered h
  | timeout => exact hregistered h
  | start => exact h.elim
  | zero => exact h.elim
  | termZero => exact h.elim
  | termSt => exact h.elim
  | termInst => exact h.elim

theorem Watched.command {s t : Sys} {event : Event} (h : Watched s)
    (hcommand : Command s event t) (hintime : InTime s event) : Watched t := by
  cases hcommand with
  | failed ret hfailed =>
    rw [hfailed.frame]
    refine ⟨h.marked, fun sd hsd => ?_⟩
    obtain ⟨pc, hpc, hexamines⟩ := h.examined sd hsd
    exact ⟨pc, hpc, hexamines.mono (fun _ => List.Sublist.refl _) id⟩
  | opened k fd ret hopened =>
    obtain ⟨behind, port, rfl⟩ := hopened.frame
    refine ⟨h.marked, fun sd hsd => ?_⟩
    obtain ⟨pc, hpc, hexamines⟩ := h.examined sd hsd
    refine ⟨pc, congrArg (fun task => some (Option.getD task .start)) hpc, ?_⟩
    refine hexamines.mono (fun l => ?_) id
    by_cases hl : l = k
    · subst hl
      simp only [update_self]
      exact sublist_insertSd ..
    · simp only [update_of_ne hl]
      exact List.Sublist.refl _
  | mark sd cmd hmarked heq =>
    rw [heq]
    have hpending : ∀ x, x ∈ (setMark s sd).pending → x ∈ s.pending ∨ (x = sd ∧ Counts s sd) := by
      intro x hx
      simp only [setMark] at hx
      split at hx
      · rename_i hcounts
        exact (Finset.mem_insert.mp hx).symm.imp id fun hx => ⟨hx, hcounts⟩
      · exact Or.inl hx
    constructor
    · intro x hx
      rcases hpending x hx with hold | ⟨rfl, -⟩
      · exact Finset.mem_insert_of_mem (h.marked hold)
      · exact Finset.mem_insert_self ..
    · intro x hx
      have hexamined : ∃ pc, s.recvTask = some pc ∧ Examines s x pc := by
        rcases hpending x hx with hold | ⟨rfl, hcounts⟩
        · exact h.examined x hold
        · exact hintime x hmarked hcounts
      obtain ⟨pc, hpc, hexamines⟩ := hexamined
      exact ⟨pc, hpc, hexamines.mono (fun _ => List.Sublist.refl _) id⟩
  | other rSet cmd st hst heq =>
    rw [heq]
    refine ⟨h.marked, fun sd hsd => ?_⟩
    obtain ⟨pc, hpc, hexamines⟩ := h.examined sd hsd
    exact ⟨pc, hpc, hexamines.mono (fun _ => List.Sublist.refl _) hst⟩

/-- An unlinked node takes no other socket out of the reach of the scan. -/
theorem examines_unlink {s : Sys} (h : Lists s) {k : Kind} {c sd : Int} (hc : c ∈ s.lists k)
    (hsd : sd ≠ c) :
    (Registered s sd → Registered (apply s (.unlink k c)) sd) ∧
    (Rest s k sd → Rest (apply s (.unlink k c)) k sd) ∧
    (∀ item, (∀ x ∈ item, x ≠ c) → From (s.lists k) item sd →
      From ((apply s (.unlink k c)).lists k) item sd) ∧
    (∀ item, item ≠ c → After (s.lists k) item sd →
      After ((apply s (.unlink k c)).lists k) item sd) := by
  have hmem : ∀ l, sd ∈ s.lists l → sd ∈ (apply s (.unlink k c)).lists l :=
    fun l hl => (mem_lists_unlink h hc).mpr ⟨hl, hsd⟩
  refine ⟨?_, And.imp id (hmem _), ?_, ?_⟩
  · rintro ⟨l, hl⟩
    exact ⟨l, hmem l hl⟩
  · intro item hitem hfrom
    rw [lists_unlink]
    exact hfrom.erase hitem hsd
  · intro item hitem hafter
    rw [lists_unlink]
    exact hafter.erase hitem hsd

theorem registered_first {s : Sys} {sd : Int} (h : Registered s sd) :
    From (s.lists .listen) (s.lists .listen).head? sd ∨ Rest s .listen sd := by
  rcases registered_iff.mp h with hl | hn
  · exact Or.inl (From.of_head hl)
  · exact Or.inr ⟨rfl, hn⟩

theorem not_from_none {l : List Int} {sd : Int} : ¬ From l none sd := by
  rintro ⟨x, hx, -⟩
  cases hx

/-- A marked socket that the round examines is examined by what is left of it
after the next step, unless that step closes it. -/
theorem examines_next {s : Sys} {pc : Pc} {effect : Effect} {pc' : Option Pc} {sd : Int}
    (h : Lists s) (hcursor : Cursor s pc) (hnext : Next s pc effect pc')
    (hexamines : Examines s sd pc) (hclr : sd ∈ s.clrSet)
    (hkeep : ∀ k c, effect = .unlink k c → sd ≠ c) :
    ∃ p, pc' = some p ∧ Examines (apply s effect) sd p := by
  cases hnext with
  | start => exact hexamines.elim
  | loopZero hst => exact absurd hst hexamines.1
  | loopEnd => exact ⟨_, rfl, hexamines.2⟩
  | zero => exact hexamines.elim
  | max => exact ⟨_, rfl, hexamines⟩
  | copy => exact ⟨_, rfl, hexamines⟩
  | selectError => exact ⟨_, rfl, hexamines⟩
  | selectTimeout => exact ⟨_, rfl, hexamines⟩
  | selectReady => exact ⟨_, rfl, (registered_first hexamines).imp id Or.inr⟩
  | timeoutScan => exact ⟨_, rfl, registered_first hexamines⟩
  | timeoutNone hempty =>
    rw [hempty] at hclr
    cases hclr
  | tListenEnd =>
    rcases hexamines with hfrom | hrest
    · exact absurd hfrom not_from_none
    · exact ⟨_, rfl, Or.inl (From.of_head hrest.2)⟩
  | tNormalEnd =>
    rcases hexamines with hfrom | hrest
    · exact absurd hfrom not_from_none
    · cases hrest.1
  | @tItem k item =>
    refine ⟨_, rfl, ?_⟩
    rcases hexamines with ⟨x, hx, -, hfrom⟩ | hrest
    · cases hx
      rcases hfrom with heq | hafter
      · exact Or.inl heq
      · exact Or.inr (Or.inl (hafter.succ (h.nodup k) (hcursor item rfl)))
    · exact Or.inr (Or.inr hrest)
  | tMarked => exact ⟨_, rfl, hexamines⟩
  | tUnmarked hunmarked =>
    refine ⟨_, rfl, hexamines.resolve_left ?_⟩
    rintro rfl
    exact hunmarked hclr
  | @tRemove k item after =>
    have hne : sd ≠ item := hkeep k item rfl
    obtain ⟨-, hrest, hfrom, -⟩ := examines_unlink h hcursor.1 hne
    exact ⟨_, rfl, (hexamines.resolve_left hne).imp
      (hfrom after fun x hx => (hcursor.2 x hx).2) hrest⟩
  | stopEnd => exact ⟨_, rfl, hexamines.2⟩
  | stopLoop hst => exact absurd hst hexamines.1
  | aEnd => exact ⟨_, rfl, hexamines.resolve_left not_from_none⟩
  | aItem =>
    refine ⟨_, rfl, ?_⟩
    rcases hexamines with ⟨x, hx, -, hfrom⟩ | hother
    · cases hx
      exact hfrom.imp id Or.inl
    · exact Or.inr (Or.inr hother)
  | @aFormer ready k item closeitem =>
    cases closeitem with
    | none =>
      refine ⟨_, rfl, hexamines.imp id (Or.imp id fun hother => hother.resolve_left ?_)⟩
      simp
    | some c =>
      have hne : sd ≠ c := hkeep k c rfl
      obtain ⟨hc, hitem⟩ := hcursor.2 c rfl
      obtain ⟨-, hrest, -, hafter⟩ := examines_unlink h hc hne
      refine ⟨_, rfl, hexamines.imp id (Or.imp (hafter item hitem) fun hother => hrest ?_)⟩
      exact hother.resolve_left fun heq => hne (Option.some.inj heq).symm
  | aMarked =>
    refine ⟨_, rfl, ?_⟩
    rcases hexamines with heq | hafter | hrest
    · exact Or.inr (Or.inl (congrArg some heq.symm))
    · exact Or.inl hafter
    · exact Or.inr (Or.inr hrest)
  | aUnmarked hunmarked =>
    refine ⟨_, rfl, hexamines.resolve_left ?_⟩
    rintro rfl
    exact hunmarked hclr
  | aIdle => exact ⟨_, rfl, hexamines.imp id Or.inr⟩
  | aAccept => exact ⟨_, rfl, hexamines⟩
  | aLost => exact ⟨_, rfl, hexamines.imp id Or.inr⟩
  | @aRegister ready item forksocket behind =>
    refine ⟨_, rfl, hexamines.imp id fun hrest => ⟨rfl, ?_⟩⟩
    simp only [apply]
    exact mem_insert_lists.mpr (Or.inl hrest.2)
  | aNoMemory => exact ⟨_, rfl, hexamines.imp id Or.inr⟩
  | aSetBit => exact ⟨_, rfl, hexamines.imp id Or.inr⟩
  | @aNext ready k item closeitem =>
    exact ⟨_, rfl, hexamines.imp (fun hafter => hafter.succ (h.nodup k) hcursor.1) id⟩
  | @aListenTail ready closeitem =>
    refine ⟨_, rfl, Or.inl ?_⟩
    have hne : closeitem ≠ some sd := by
      rintro rfl
      exact hkeep .listen sd rfl rfl
    have hnormal : sd ∈ s.lists .normal := (hexamines.resolve_left hne).2
    have hlists : (apply s (unlinkFormer .listen closeitem)).lists .normal = s.lists .normal := by
      cases closeitem with
      | none => rfl
      | some c => exact lists_unlink_ne (by decide)
    rw [hlists]
    exact From.of_head hnormal
  | @aNormalTail ready closeitem =>
    exfalso
    rcases hexamines with rfl | hrest
    · exact hkeep .normal sd rfl rfl
    · cases hrest.1
  | @termNode k c hhead =>
    have hne : sd ≠ c := hkeep k c rfl
    obtain ⟨hregistered, -, -, -⟩ := examines_unlink h (List.mem_of_mem_head? hhead) hne
    refine ⟨_, rfl, ?_⟩
    cases k with
    | listen => exact (mem_lists_unlink h (List.mem_of_mem_head? hhead)).mpr ⟨hexamines, hne⟩
    | normal => exact hregistered hexamines
  | termNormalEnd hempty =>
    refine ⟨_, rfl, ?_⟩
    rcases registered_iff.mp hexamines with hl | hn
    · exact hl
    · rw [hempty] at hn
      cases hn
  | termListenEnd hempty =>
    have hl : sd ∈ s.lists .listen := hexamines
    rw [hempty] at hl
    cases hl
  | termZero => exact hexamines.elim
  | termSt => exact hexamines.elim
  | termInst => exact hexamines.elim

theorem pending_apply {s : Sys} {effect : Effect} {sd : Int} (h : sd ∈ (apply s effect).pending) :
    sd ∈ s.pending ∧ ∀ k c, effect = .unlink k c → sd ≠ c := by
  cases effect with
  | unlink k c =>
    obtain ⟨hne, hold⟩ := Finset.mem_erase.mp h
    refine ⟨hold, ?_⟩
    rintro _ _ ⟨⟩
    exact hne
  | _ =>
    refine ⟨h, ?_⟩
    rintro _ _ ⟨⟩

theorem clrSet_apply {s : Sys} {effect : Effect} (h : effect ≠ .zeroClr) :
    (apply s effect).clrSet = s.clrSet := by
  cases effect with
  | zeroClr => exact absurd rfl h
  | _ => rfl

theorem Next.not_zeroClr {s : Sys} {pc : Pc} {effect : Effect} {pc' : Option Pc} {sd : Int}
    (hnext : Next s pc effect pc') (hexamines : Examines s sd pc) : effect ≠ .zeroClr := by
  rintro rfl
  generalize heffect : Effect.zeroClr = effect at hnext
  cases hnext with
  | zero => exact hexamines
  | @aFormer ready k sd closeitem => cases closeitem <;> cases heffect
  | @aListenTail ready closeitem => cases closeitem <;> cases heffect
  | @aNormalTail ready closeitem => cases closeitem <;> cases heffect
  | _ => cases heffect

theorem Watched.task {s t : Sys} {answer : Answer} (hbase : Base s) (h : Watched s)
    (hstep : stepTask s answer = some t) : Watched t := by
  obtain ⟨pc, effect, pc', hpc, hnext, rfl⟩ := stepTask_spec hstep
  have hexamined : ∀ sd ∈ s.pending, Examines s sd pc := by
    intro sd hsd
    obtain ⟨p, hp, hexamines⟩ := h.examined sd hsd
    rw [hpc] at hp
    cases hp
    exact hexamines
  constructor
  · intro sd hsd
    obtain ⟨hold, -⟩ := pending_apply hsd
    change sd ∈ (apply s effect).clrSet
    rw [clrSet_apply (Next.not_zeroClr hnext (hexamined sd hold))]
    exact h.marked hold
  · intro sd hsd
    obtain ⟨hold, hkeep⟩ := pending_apply hsd
    obtain ⟨p, hp, hexamines⟩ := examines_next hbase.toLists (hbase.cursor pc hpc) hnext
      (hexamined sd hold) (h.marked hold) hkeep
    exact ⟨p, hp, hexamines.mono (fun _ => List.Sublist.refl _) id⟩

theorem watched_of_run {events : List Event} {s : Sys} (hrun : Run step InTime initial events s) :
    Base s ∧ Watched s := by
  refine hrun.invariant (I := fun s => Base s ∧ Watched s) ?_ ?_
  · exact ⟨Base.initial, ⟨Finset.Subset.refl _, fun sd hsd => by cases hsd⟩⟩
  · intro s event t ⟨hbase, hwatched⟩ hintime hstep
    refine ⟨hbase.step hstep, ?_⟩
    by_cases hevent : ∃ answer, event = .task answer
    · obtain ⟨answer, rfl⟩ := hevent
      exact hwatched.task hbase hstep
    · exact hwatched.command (command_spec hbase.toLists hstep (not_exists.mp hevent)) hintime

/-- In a run whose marks are set in time, no mark of a registered socket is left
when `g_clr_set` is zeroed: the socket has been removed and closed. -/
theorem no_close_request_lost (events : List Event) (s : Sys)
    (hrun : Run step InTime initial events s) (hzero : s.recvTask = some .zero) :
    s.pending = ∅ := by
  obtain ⟨-, hwatched⟩ := watched_of_run hrun
  apply Finset.eq_empty_of_forall_notMem
  intro sd hsd
  obtain ⟨pc, hpc, hexamines⟩ := hwatched.examined sd hsd
  rw [hzero] at hpc
  cases hpc
  exact hexamines

/-- The calls of a command that opens descriptor `fd`. -/
def opens (fd : Int) : Calls := ⟨some fd, true, true, 0x20000000, true⟩

/-- Two connections, and the task in its first `select`. -/
def connected : List Event :=
  [.tcpConnect 2 80 (opens 0), .tcpConnect 2 80 (opens 1), .task .none, .task .none, .task .none,
    .task .none, .task .none]

/-- The first connection is closed by command. -/
def disconnects : List Event := [.tcpDisconnect 1 0, .cmd, .cmd, .cmd]

/-- A mark set while the task waits in `select` is in time. -/
def inSelect (s : Sys) (event : Event) : Bool :=
  match marked s event, s.recvTask with
  | none, _ => true
  | some sd, some (.select _) => decide (Registered s sd)
  | _, _ => false

theorem inSelect_inTime (s : Sys) (event : Event) (h : inSelect s event) : InTime s event := by
  intro sd hmarked _
  unfold inSelect at h
  rw [hmarked] at h
  split at h
  · rename_i hnone
    cases hnone
  · rename_i heq hpc
    cases heq
    have hregistered : Registered s sd := of_decide_eq_true h
    exact ⟨_, hpc, hregistered⟩
  · cases h

def closesInTime : List Event :=
  connected ++ disconnects ++ .task .selectTimeout :: List.replicate 10 (.task .none)

theorem no_close_request_lost_select :
    ∃ s, Run step InTime initial closesInTime s ∧ s.lists .normal = [1] ∧ s.opened = {1} ∧
      s.pending = ∅ := by
  have hexec : (exec (guarded step inSelect) initial closesInTime).any fun s =>
      decide (s.recvTask = some .zero ∧ s.lists .normal = [1] ∧ s.opened = {1}) := by
    decide
  obtain ⟨s, hs, hfacts⟩ := (Option.any_eq_true _ _).mp hexec
  obtain ⟨hzero, hlist, hopened⟩ := of_decide_eq_true hfacts
  have hrun : Run step InTime initial closesInTime s :=
    (Run.of_exec_guarded hs).mono inSelect_inTime
  exact ⟨s, hrun, hlist, hopened, no_close_request_lost closesInTime s hrun hzero⟩

/-- `select` times out, no mark is found, and only then the command comes. -/
def closesLate : List Event :=
  connected ++ [.task .selectTimeout, .task .none] ++ disconnects ++ [.task .none, .task .none]

/-- The mark is zeroed and socket 0 stays open and registered, its bit cleared. -/
theorem close_request_lost :
    ∃ s t, Run step anyStep initial closesLate s ∧ s.recvTask = some .zero ∧ s.pending = {0} ∧
      step s (.task .none) = some t ∧ t.clrSet = ∅ ∧ 0 ∈ t.lists .normal ∧ 0 ∈ t.opened ∧
      0 ∉ t.rSet := by
  have hexec : (exec step initial closesLate).any fun s =>
      decide (s.recvTask = some .zero ∧ s.pending = {0} ∧ 0 ∈ s.lists .normal ∧ 0 ∈ s.opened ∧
        0 ∉ s.rSet) := by
    decide
  obtain ⟨s, hs, hfacts⟩ := (Option.any_eq_true _ _).mp hexec
  obtain ⟨hzero, hpending, hlist, hopened, hbit⟩ := of_decide_eq_true hfacts
  have hstep : step s (.task .none) = some { apply s .zeroClr with recvTask := some .max } := by
    simp only [step, stepTask, hzero, next, Option.bind_some, Option.map_some]
  exact ⟨s, _, Run.of_exec hs, hzero, hpending, hstep, rfl, hlist, hopened, hbit⟩

end Sv6x66.Atcmd.CloseRequest
