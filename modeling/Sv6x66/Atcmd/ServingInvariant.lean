import Sv6x66.Atcmd.Serving

/-! What holds in every run that avoids the windows: the sockets that count are
served. -/
namespace Sv6x66.Atcmd.Serving
open Sv6x66.Lib Function SocketList SocketOrder RecvTask

/-- No task is there, or it has only `recv_task_inst` left to clear. -/
def Finished (s : Sys) : Prop := s.recvTask = none ∨ s.recvTask = some .termInst

/-- No task is there, or it has zeroed `g_r_set`. -/
def Swept (s : Sys) : Prop := Finished s ∨ s.recvTask = some .termSt

/-- Between the assignments of `TASK_ST_Running` and `TASK_ST_Term`. -/
def Mid (pc : Pc) : Prop := pc ≠ .start ∧ pc ≠ .termInst

def Opens (cli : Cli) (k : Kind) (fd : Int) : Prop :=
  cli = .setBit k fd ∨ cli = .testInst k fd ∨ cli = .create k fd

/-- The bit of the socket that is being opened has been set. -/
def BitSet (cli : Cli) (fd : Int) : Prop := ∃ k, cli = .testInst k fd ∨ cli = .create k fd

/-- The socket being opened is registered while it lives; a task that has closed it
goes on to set `TASK_ST_Term`. -/
structure Opening (s : State) (k : Kind) (fd : Int) : Prop where
  listed : s.live → fd ∈ s.sys.lists k
  closed : s.live = false → Finished s.sys → s.sys.recvTaskSt = .term

/-- What each phase of a command relies on. -/
def Phase (s : State) : Cli → Prop
  | .idle => True
  | .register _ fd _ => fd ∈ s.sys.opened ∧ (∀ l, fd ∉ s.sys.lists l) ∧
      ∀ ready item, s.sys.recvTask ≠ some (.aNew ready item fd)
  | .setBit k fd => Opening s k fd
  | .testInst k fd => Opening s k fd ∧ (s.live → fd ∈ s.sys.rSet)
  | .create k fd => Opening s k fd ∧ (s.live → fd ∈ s.sys.rSet) ∧ s.sys.recvTask = none
  | .clearBit sd => sd ∉ s.served ∧ (Finished s.sys → s.sys.recvTaskSt = .term)
  | .clearListen sd => sd ∉ s.served ∧ (Finished s.sys → s.sys.recvTaskSt = .term)
  | .mark _ => Finished s.sys → s.sys.recvTaskSt = .term
  | .chkCmp => Finished s.sys → s.sys.recvTaskSt = .term
  | .chkRunning => (Swept s.sys → s.sys.rSet = ∅) ∧ (Finished s.sys → s.sys.recvTaskSt = .term)
  | .chkStop => (Swept s.sys → s.sys.rSet = ∅) ∧ ¬ Finished s.sys
  | .waitTerm => (Swept s.sys → s.sys.rSet = ∅) ∧ (Finished s.sys → s.sys.recvTaskSt = .term) ∧
      ∀ pc, s.sys.recvTask = some pc → Mid pc → s.sys.recvTaskSt ≠ .running
  | .setStop => Swept s.sys → s.sys.rSet = ∅

structure Good (s : State) : Prop extends Base s.sys where
  served : ∀ sd ∈ s.served, Served s sd
  attended : ∀ k, ∀ sd ∈ s.sys.lists k, Attended s k ∨ s.live ∧ Opens s.cli k sd
  bits : Finished s.sys → s.sys.recvTaskSt = .term ∨ ∀ sd ∈ s.sys.rSet, BitSet s.cli sd
  notTerm : ∀ pc, s.sys.recvTask = some pc → Mid pc → s.sys.recvTaskSt ≠ .term
  phase : Phase s s.cli

theorem Attended.not_finished {s : State} {k : Kind} (h : Attended s k) : ¬ Finished s.sys := by
  obtain ⟨pc, hpc, hpassed⟩ := h
  rintro (hnone | hinst)
  · rw [hnone] at hpc
    cases hpc
  · rw [hinst] at hpc
    cases hpc
    cases hpassed

theorem Good.initial : Good initial where
  toBase := Base.initial
  served := fun _ h => absurd h (Finset.notMem_empty _)
  attended := fun _ _ h => absurd h List.not_mem_nil
  bits := fun _ => Or.inr fun _ h => absurd h (Finset.notMem_empty _)
  notTerm := fun _ h => by cases h
  phase := trivial

/-! ### The steps of the task -/

theorem stepTask_spec {s t : State} {answer : Answer} (h : stepTask s answer = some t) :
    ∃ pc effect pc', s.sys.recvTask = some pc ∧ Next s.sys pc effect pc' ∧
      RecvTask.stepTask s.sys answer = some t.sys ∧ t = perform s effect pc' := by
  obtain ⟨pc, hpc, hmap⟩ := Option.bind_eq_some_iff.mp h
  obtain ⟨⟨effect, pc'⟩, hnext, rfl⟩ := Option.map_eq_some_iff.mp hmap
  refine ⟨pc, effect, pc', hpc, next_spec hnext, ?_, rfl⟩
  simp only [RecvTask.stepTask, hpc, hnext, Option.bind_some, Option.map_some, perform]

theorem mem_lists_apply {s : Sys} {effect : Effect} {k : Kind} {sd : Int}
    (hended : ended effect ≠ some sd) (hsd : sd ∈ s.lists k) : sd ∈ (apply s effect).lists k := by
  cases effect with
  | unlink l c =>
    have hne : sd ≠ c := fun h => hended (congrArg some h.symm)
    by_cases hl : k = l
    · subst hl
      rw [lists_unlink]
      exact (List.mem_erase_of_ne hne).mpr hsd
    · rw [lists_unlink_ne hl]
      exact hsd
  | register forksocket behind => exact mem_insert_lists.mpr (Or.inl hsd)
  | _ => exact hsd

theorem of_mem_lists_apply {s : Sys} {effect : Effect} {k : Kind} {sd : Int}
    (hsd : sd ∈ (apply s effect).lists k) :
    sd ∈ s.lists k ∨ ∃ behind, effect = .register sd behind := by
  cases effect with
  | unlink l c =>
    by_cases hl : k = l
    · subst hl
      rw [lists_unlink] at hsd
      exact Or.inl (List.mem_of_mem_erase hsd)
    · rw [lists_unlink_ne hl] at hsd
      exact Or.inl hsd
  | register forksocket behind =>
    rcases mem_insert_lists.mp hsd with hold | ⟨rfl, -⟩
    · exact Or.inl hold
    · exact Or.inr ⟨behind, rfl⟩
  | _ => exact Or.inl hsd

theorem mem_rSet_apply {s : Sys} {effect : Effect} {sd : Int} (hended : ended effect ≠ some sd)
    (hzero : effect ≠ .zeroR) (hsd : sd ∈ s.rSet) : sd ∈ (apply s effect).rSet := by
  cases effect with
  | clearBit c => exact Finset.mem_erase.mpr ⟨fun h => hended (congrArg some h.symm), hsd⟩
  | setBit c => exact Finset.mem_insert_of_mem hsd
  | zeroR => exact absurd rfl hzero
  | _ => exact hsd

theorem mem_opened_apply {s : Sys} {effect : Effect} {sd : Int} (hended : ended effect ≠ some sd)
    (hsd : sd ∈ s.opened) : sd ∈ (apply s effect).opened := by
  cases effect with
  | unlink l c => exact Finset.mem_erase.mpr ⟨fun h => hended (congrArg some h.symm), hsd⟩
  | accepted forksocket => exact Finset.mem_insert_of_mem hsd
  | _ => exact hsd

/-- The task comes past its termination point for list `k` only when that list is
empty. -/
theorem attended_next {s : Sys} {pc : Pc} {effect : Effect} {pc' : Option Pc} {k : Kind} {sd : Int}
    (hnext : Next s pc effect pc') (hpassed : sd ∈ s.lists k → passed k pc = false)
    (hsd : sd ∈ (apply s effect).lists k) : ∃ p, pc' = some p ∧ passed k p = false := by
  cases hnext with
  | termNode hhead =>
    rcases of_mem_lists_apply hsd with hold | ⟨behind, heq⟩
    · exact ⟨_, rfl, hpassed hold⟩
    · cases heq
  | termNormalEnd hnil =>
    cases k with
    | listen => exact ⟨_, rfl, rfl⟩
    | normal =>
      change sd ∈ s.lists .normal at hsd
      rw [hnil] at hsd
      cases hsd
  | termListenEnd hnil =>
    cases k with
    | listen =>
      change sd ∈ s.lists .listen at hsd
      rw [hnil] at hsd
      cases hsd
    | normal => cases hpassed hsd
  | termZero => cases hpassed hsd
  | termSt => cases hpassed hsd
  | termInst => cases hpassed hsd
  | _ => exact ⟨_, rfl, rfl⟩

/-- A task that has passed a termination point only closes what it finds listed. -/
theorem ended_of_passed {s : Sys} {pc : Pc} {effect : Effect} {pc' : Option Pc} {k : Kind}
    {sd : Int} (hnext : Next s pc effect pc') (hpassed : passed k pc = true)
    (hended : ended effect = some sd) : ∃ l, effect = .unlink l sd := by
  cases hnext with
  | termNode hhead =>
    cases hended
    exact ⟨_, rfl⟩
  | termNormalEnd => cases hended
  | termListenEnd => cases hended
  | termZero => cases hended
  | termSt => cases hended
  | termInst => cases hended
  | _ => cases hpassed

theorem zeroR_next {s : Sys} {pc : Pc} {effect : Effect} {pc' : Option Pc}
    (hnext : Next s pc effect pc') (heffect : effect = .zeroR) : pc = .termZero := by
  cases hnext with
  | termZero => rfl
  | @aFormer _ _ _ closeitem => cases closeitem <;> cases heffect
  | @aListenTail _ closeitem => cases closeitem <;> cases heffect
  | @aNormalTail _ closeitem => cases closeitem <;> cases heffect
  | _ => cases heffect

theorem register_next {s : Sys} {pc : Pc} {effect : Effect} {pc' : Option Pc} {fd behind : Int}
    (hnext : Next s pc effect pc') (heffect : effect = .register fd behind) :
    ∃ ready item, pc = .aNew ready item fd := by
  cases hnext with
  | aRegister =>
    cases heffect
    exact ⟨_, _, rfl⟩
  | @aFormer _ _ _ closeitem => cases closeitem <;> cases heffect
  | @aListenTail _ closeitem => cases closeitem <;> cases heffect
  | @aNormalTail _ closeitem => cases closeitem <;> cases heffect
  | _ => cases heffect

theorem clearBit_next {s : Sys} {pc : Pc} {effect : Effect} {pc' : Option Pc} {sd : Int}
    (hnext : Next s pc effect pc') (heffect : effect = .clearBit sd) :
    ∃ ready, pc = .aReady ready .normal sd := by
  cases hnext with
  | aLost =>
    cases heffect
    exact ⟨_, rfl⟩
  | @aFormer _ _ _ closeitem => cases closeitem <;> cases heffect
  | @aListenTail _ closeitem => cases closeitem <;> cases heffect
  | @aNormalTail _ closeitem => cases closeitem <;> cases heffect
  | _ => cases heffect

theorem ended_listed {s : Sys} {pc : Pc} {effect : Effect} {pc' : Option Pc} {sd : Int}
    (hnext : Next s pc effect pc') (hcursor : Cursor s pc) (hended : ended effect = some sd) :
    ∃ k, sd ∈ s.lists k := by
  have happlicable := hnext.applicable hcursor
  cases effect with
  | unlink k c =>
    cases hended
    exact ⟨k, happlicable⟩
  | clearBit c =>
    cases hended
    obtain ⟨ready, rfl⟩ := clearBit_next hnext rfl
    exact ⟨.normal, hcursor⟩
  | _ => cases hended

theorem aNew_next {s : Sys} {pc : Pc} {effect : Effect} {ready : Finset Int} {item fd : Int}
    (hnext : Next s pc effect (some (.aNew ready item fd))) : fd ∉ s.opened := by
  cases hnext with
  | aAccept hfresh => exact hfresh

theorem finished_next {s : Sys} {pc : Pc} {effect : Effect} {pc' : Option Pc}
    (hnext : Next s pc effect pc') (hfinished : pc' = none ∨ pc' = some .termInst) :
    pc = .termInst ∧ effect = .keep ∨ pc = .termSt ∧ effect = .setTerm := by
  cases hnext with
  | termSt => exact Or.inr ⟨rfl, rfl⟩
  | termInst => exact Or.inl ⟨rfl, rfl⟩
  | _ => rcases hfinished with h | h <;> cases h

theorem termSt_next {s : Sys} {pc : Pc} {effect : Effect}
    (hnext : Next s pc effect (some .termSt)) : effect = .zeroR := by
  cases hnext
  rfl

theorem recvTaskSt_next {s : Sys} {pc : Pc} {effect : Effect} {pc' : Option Pc}
    (hnext : Next s pc effect pc') :
    pc = .start ∨ pc = .termSt ∨ (apply s effect).recvTaskSt = s.recvTaskSt := by
  cases hnext with
  | start => exact Or.inl rfl
  | termSt => exact Or.inr (Or.inl rfl)
  | @aFormer _ _ _ closeitem => cases closeitem <;> exact Or.inr (Or.inr rfl)
  | @aListenTail _ closeitem => cases closeitem <;> exact Or.inr (Or.inr rfl)
  | @aNormalTail _ closeitem => cases closeitem <;> exact Or.inr (Or.inr rfl)
  | _ => exact Or.inr (Or.inr rfl)

theorem next_termSt {s : Sys} {effect : Effect} {pc' : Option Pc}
    (hnext : Next s .termSt effect pc') : pc' = some .termInst := by
  cases hnext
  rfl

theorem next_start {s : Sys} {effect : Effect} {pc' : Option Pc}
    (hnext : Next s .start effect pc') : effect = .setRunning := by
  cases hnext
  rfl

section Perform

variable {s : State} {pc : Pc} {effect : Effect} {pc' : Option Pc}

theorem perform_live : (perform s effect pc').live = true ↔
    s.live = true ∧ ∀ fd, opening s.cli = some fd → ended effect ≠ some fd := by
  unfold perform
  cases hopening : opening s.cli <;> cases hended : ended effect <;> simp

theorem mem_perform_served {sd : Int} :
    sd ∈ (perform s effect pc').served ↔ sd ∈ s.served ∧ ended effect ≠ some sd := by
  simp [perform]

/-- When the task is through, `recv_task_st` has just been set or nothing has
changed. -/
theorem perform_finished (hpc : s.sys.recvTask = some pc) (hnext : Next s.sys pc effect pc')
    (hfinished : Finished (perform s effect pc').sys) :
    Finished s.sys ∧ effect = .keep ∨
      pc = .termSt ∧ (perform s effect pc').sys.recvTaskSt = .term := by
  rcases finished_next hnext hfinished with ⟨rfl, heffect⟩ | ⟨rfl, rfl⟩
  · exact Or.inl ⟨Or.inr hpc, heffect⟩
  · exact Or.inr ⟨rfl, rfl⟩

theorem perform_term (hpc : s.sys.recvTask = some pc) (hnext : Next s.sys pc effect pc')
    (hterm : Finished s.sys → s.sys.recvTaskSt = .term)
    (hfinished : Finished (perform s effect pc').sys) :
    (perform s effect pc').sys.recvTaskSt = .term := by
  rcases perform_finished hpc hnext hfinished with ⟨hold, rfl⟩ | ⟨-, hnew⟩
  · exact hterm hold
  · exact hnew

theorem perform_swept (hpc : s.sys.recvTask = some pc) (hnext : Next s.sys pc effect pc')
    (hempty : Swept s.sys → s.sys.rSet = ∅) (hswept : Swept (perform s effect pc').sys) :
    (perform s effect pc').sys.rSet = ∅ := by
  rcases hswept with hfinished | htermSt
  · rcases finished_next hnext hfinished with ⟨rfl, rfl⟩ | ⟨rfl, rfl⟩
    · exact hempty (Or.inl (Or.inr hpc))
    · exact hempty (Or.inr hpc)
  · change pc' = some .termSt at htermSt
    subst htermSt
    cases termSt_next hnext
    rfl

/-- A task in its middle was there before, unless it has just started. -/
theorem perform_mid (hnext : Next s.sys pc effect pc') {p : Pc}
    (hp : (perform s effect pc').sys.recvTask = some p) (hmid : Mid p) :
    pc = .start ∧ effect = .setRunning ∨
      Mid pc ∧ (perform s effect pc').sys.recvTaskSt = s.sys.recvTaskSt := by
  change pc' = some p at hp
  subst hp
  rcases recvTaskSt_next hnext with rfl | rfl | hsame
  · exact Or.inl ⟨rfl, next_start hnext⟩
  · cases next_termSt hnext
    exact absurd rfl hmid.2
  · by_cases hstart : pc = .start
    · subst hstart
      exact Or.inl ⟨rfl, next_start hnext⟩
    · refine Or.inr ⟨⟨hstart, ?_⟩, hsame⟩
      rintro rfl
      cases hnext

theorem perform_attended (h : Good s) (hpc : s.sys.recvTask = some pc)
    (hnext : Next s.sys pc effect pc') {k : Kind} {sd : Int}
    (hsd : sd ∈ (perform s effect pc').sys.lists k) :
    Attended (perform s effect pc') k ∨ (perform s effect pc').live ∧ Opens s.cli k sd := by
  cases hpassed : passed k pc with
  | false => exact Or.inl (attended_next hnext (fun _ => hpassed) hsd)
  | true =>
    by_cases hold : sd ∈ s.sys.lists k
    · rcases h.attended k sd hold with ⟨p, hp, hnot⟩ | ⟨hlive, hopens⟩
      · rw [hpc] at hp
        cases hp
        rw [hpassed] at hnot
        cases hnot
      · refine Or.inr ⟨perform_live.mpr ⟨hlive, fun fd hfd hended => ?_⟩, hopens⟩
        have hsame : fd = sd := by
          rcases hopens with hcli | hcli | hcli <;> rw [hcli] at hfd <;> cases hfd <;> rfl
        subst hsame
        obtain ⟨l, rfl⟩ := ended_of_passed hnext hpassed hended
        have hl := hnext.applicable (h.cursor pc hpc)
        exact ((mem_lists_unlink h.toLists hl).mp hsd).2 rfl
    · exact Or.inl (attended_next hnext (fun hmem => absurd hmem hold) hsd)

theorem perform_served (h : Good s) (hpc : s.sys.recvTask = some pc)
    (hnext : Next s.sys pc effect pc') {sd : Int} (hsd : sd ∈ (perform s effect pc').served) :
    Served (perform s effect pc') sd := by
  obtain ⟨hold, hended⟩ := mem_perform_served.mp hsd
  obtain ⟨hbit, k, hlist, p, hp, hnot⟩ := h.served sd hold
  rw [hpc] at hp
  cases hp
  have hzero : effect ≠ .zeroR := by
    intro heffect
    rw [zeroR_next hnext heffect] at hnot
    cases hnot
  have hlist' := mem_lists_apply hended hlist
  exact ⟨mem_rSet_apply hended hzero hbit, k, hlist', attended_next hnext (fun _ => hnot) hlist'⟩

theorem perform_opening (hpc : s.sys.recvTask = some pc) (hnext : Next s.sys pc effect pc')
    {k : Kind} {fd : Int} (hcli : opening s.cli = some fd) (h : Opening s k fd) :
    Opening (perform s effect pc') k fd where
  listed := by
    intro hlive
    obtain ⟨hold, hended⟩ := perform_live.mp hlive
    exact mem_lists_apply (hended fd hcli) (h.listed hold)
  closed := by
    intro hdead hfinished
    rcases perform_finished hpc hnext hfinished with ⟨hold, rfl⟩ | ⟨-, hnew⟩
    · apply h.closed _ hold
      rw [← Bool.not_eq_true, perform_live] at hdead
      by_contra hlive
      exact hdead ⟨by simpa using hlive, fun fd' _ hended => by cases hended⟩
    · exact hnew

theorem perform_phase (h : Good s) {answer : Answer} (hallowed : allowed s (.task answer) = true)
    (hpc : s.sys.recvTask = some pc) (hnext : Next s.sys pc effect pc') :
    Phase (perform s effect pc') s.cli := by
  have hphase := h.phase
  have hsub : ∀ sd, sd ∉ s.served → sd ∉ (perform s effect pc').served :=
    fun sd hsd hnew => hsd (mem_perform_served.mp hnew).1
  cases hcli : s.cli with
  | idle => trivial
  | register k fd port =>
    rw [hcli] at hphase
    obtain ⟨hopened, hlists, hnew⟩ := hphase
    have hended : ended effect ≠ some fd := by
      intro hended
      obtain ⟨l, hl⟩ := ended_listed hnext (h.cursor pc hpc) hended
      exact hlists l hl
    refine ⟨mem_opened_apply hended hopened, fun l hl => ?_, fun ready item hp => ?_⟩
    · rcases of_mem_lists_apply hl with hold | ⟨behind, heffect⟩
      · exact hlists l hold
      · obtain ⟨ready, item, rfl⟩ := register_next hnext heffect
        exact hnew ready item hpc
    · change pc' = _ at hp
      subst hp
      exact aNew_next hnext hopened
  | setBit k fd =>
    rw [hcli] at hphase
    exact perform_opening hpc hnext (by rw [hcli]; rfl) hphase
  | testInst k fd =>
    rw [hcli] at hphase
    obtain ⟨hopening, hbit⟩ := hphase
    refine ⟨perform_opening hpc hnext (by rw [hcli]; rfl) hopening, fun hlive => ?_⟩
    obtain ⟨hold, hended⟩ := perform_live.mp hlive
    apply mem_rSet_apply (hended fd (by rw [hcli]; rfl)) _ (hbit hold)
    intro hzero
    cases zeroR_next hnext hzero
    simp [allowed, hcli, hpc, hold] at hallowed
  | create k fd =>
    rw [hcli] at hphase
    rw [hphase.2.2] at hpc
    cases hpc
  | clearBit sd =>
    rw [hcli] at hphase
    exact ⟨hsub sd hphase.1, perform_term hpc hnext hphase.2⟩
  | mark sd =>
    rw [hcli] at hphase
    exact perform_term hpc hnext hphase
  | clearListen sd =>
    rw [hcli] at hphase
    exact ⟨hsub sd hphase.1, perform_term hpc hnext hphase.2⟩
  | chkCmp =>
    rw [hcli] at hphase
    exact perform_term hpc hnext hphase
  | chkRunning =>
    rw [hcli] at hphase
    exact ⟨perform_swept hpc hnext hphase.1, perform_term hpc hnext hphase.2⟩
  | chkStop =>
    rw [hcli] at hphase
    refine ⟨perform_swept hpc hnext hphase.1, fun hfinished => ?_⟩
    rcases perform_finished hpc hnext hfinished with ⟨hold, -⟩ | ⟨rfl, -⟩
    · exact hphase.2 hold
    · simp [allowed, hcli, hpc] at hallowed
  | waitTerm =>
    rw [hcli] at hphase
    obtain ⟨hswept, hterm, hmid⟩ := hphase
    refine ⟨perform_swept hpc hnext hswept, perform_term hpc hnext hterm, fun p hp hp' => ?_⟩
    rcases perform_mid hnext hp hp' with ⟨rfl, -⟩ | ⟨hold, hsame⟩
    · simp [allowed, hcli, hpc] at hallowed
    · rw [hsame]
      exact hmid pc hpc hold
  | setStop =>
    rw [hcli] at hphase
    exact perform_swept hpc hnext hphase

end Perform

theorem Good.task {s t : State} {answer : Answer} (h : Good s)
    (hallowed : allowed s (.task answer) = true) (hstep : stepTask s answer = some t) :
    Good t := by
  obtain ⟨pc, effect, pc', hpc, hnext, hsys, rfl⟩ := stepTask_spec hstep
  constructor
  · exact h.toBase.task hsys
  · exact fun sd hsd => perform_served h hpc hnext hsd
  · exact fun k sd hsd => perform_attended h hpc hnext hsd
  · intro hfinished
    rcases perform_finished hpc hnext hfinished with ⟨hold, rfl⟩ | ⟨-, hterm⟩
    · exact h.bits hold
    · exact Or.inl hterm
  · intro p hp hmid
    rcases perform_mid hnext hp hmid with ⟨rfl, rfl⟩ | ⟨hold, hsame⟩
    · simp [perform, apply]
    · rw [hsame]
      exact h.notTerm pc hpc hold
  · exact perform_phase h hallowed hpc hnext

/-! ### The steps of the commands -/

/-- A step of a command that neither registers a socket nor creates the task, and
what it has to bring. -/
structure Quiet (s t : State) : Prop where
  lists : t.sys.lists = s.sys.lists
  opened : s.sys.opened ⊆ t.sys.opened
  task : t.sys.recvTask = s.sys.recvTask
  served : ∀ sd ∈ t.served, sd ∈ s.served ∧ sd ∈ t.sys.rSet ∨ Served t sd
  opens : ∀ k sd, s.live → Opens s.cli k sd → Attended t k ∨ t.live ∧ Opens t.cli k sd
  bits : Finished s.sys → t.sys.recvTaskSt = .term ∨ ∀ sd ∈ t.sys.rSet, BitSet t.cli sd
  notTerm : t.sys.recvTaskSt = s.sys.recvTaskSt ∨ t.sys.recvTaskSt = .stop
  phase : Phase t t.cli

theorem Good.quiet {s t : State} (h : Good s) (hquiet : Quiet s t) : Good t where
  nodup := by
    rw [hquiet.lists]
    exact h.nodup
  apart := by
    rw [hquiet.lists]
    exact h.apart
  opened := by
    rw [hquiet.lists]
    exact fun k sd hsd => hquiet.opened (h.opened k sd hsd)
  cursor := by
    intro pc hpc
    rw [hquiet.task] at hpc
    apply (h.cursor pc hpc).mono
    · exact fun k x hx => by rwa [hquiet.lists]
    · exact fun x hx => hquiet.opened hx
    · exact fun k x hx => Or.inl (by rwa [hquiet.lists] at hx)
  served := by
    intro sd hsd
    rcases hquiet.served sd hsd with ⟨hold, hbit⟩ | hserved
    · obtain ⟨-, k, hlist, pc, hpc, hpassed⟩ := h.served sd hold
      exact ⟨hbit, k, by rwa [hquiet.lists], pc, by rwa [hquiet.task], hpassed⟩
    · exact hserved
  attended := by
    intro k sd hsd
    rw [hquiet.lists] at hsd
    rcases h.attended k sd hsd with ⟨pc, hpc, hpassed⟩ | ⟨hlive, hopens⟩
    · exact Or.inl ⟨pc, by rwa [hquiet.task], hpassed⟩
    · exact hquiet.opens k sd hlive hopens
  bits := by
    intro hfinished
    unfold Finished at hfinished
    rw [hquiet.task] at hfinished
    exact hquiet.bits hfinished
  notTerm := by
    intro pc hpc hmid
    rw [hquiet.task] at hpc
    rcases hquiet.notTerm with hsame | hstop
    · rw [hsame]
      exact h.notTerm pc hpc hmid
    · rw [hstop]
      decide
  phase := hquiet.phase

theorem cursor_close {s : Sys} {pc : Pc} {fd : Int} (h : Cursor s pc)
    (hnew : ∀ ready item, pc ≠ .aNew ready item fd) : Cursor (close s fd) pc := by
  cases pc with
  | aNew ready item forksocket =>
    refine ⟨h.1, Finset.mem_erase.mpr ⟨?_, h.2.1⟩, h.2.2⟩
    rintro rfl
    exact hnew ready item rfl
  | _ => exact h

theorem not_opens_idle {k : Kind} {sd : Int} : ¬ Opens .idle k sd := by
  simp [Opens]

theorem not_bitSet_idle {sd : Int} : ¬ BitSet .idle sd := by
  simp [BitSet]

theorem Good.openSocket {s : State} (h : Good s) {k : Kind} {argc minArgc : Nat} {port : UInt16}
    {socket : Option Int} {prepared : Bool} (hready : Ready s socket) :
    Good (openSocket s k argc minArgc port socket prepared) := by
  unfold Serving.openSocket
  split
  · exact h
  · split
    · exact h
    · cases socket with
      | none => exact h
      | some fd =>
        dsimp only
        split
        · exact h
        · have hfresh := hready.2 fd (Option.mem_some_self fd)
          have hidle := hready.1
          apply h.quiet
          constructor
          · rfl
          · exact Finset.subset_insert fd _
          · rfl
          · exact fun sd hsd => Or.inl ⟨hsd, (h.served sd hsd).1⟩
          · intro l sd _ hopens
            rw [hidle] at hopens
            exact absurd hopens not_opens_idle
          · intro hfinished
            refine (h.bits hfinished).imp id fun hbits sd hsd => ?_
            have hbit := hbits sd hsd
            rw [hidle] at hbit
            exact absurd hbit not_bitSet_idle
          · exact Or.inl rfl
          · refine ⟨Finset.mem_insert_self fd _, fun l hl => hfresh (h.opened l fd hl), ?_⟩
            intro ready item hpc
            have hcursor := h.cursor _ hpc
            exact hfresh hcursor.2.1

theorem Good.updateNewSd {s t : State} (h : Good s) {malloc : Bool} {behind : Int}
    (hstep : updateNewSd s malloc behind = some t) : Good t := by
  unfold Serving.updateNewSd at hstep
  split at hstep
  · rename_i k fd port hcli
    have hphase := h.phase
    rw [hcli] at hphase
    obtain ⟨hopened, hlists, hnew⟩ := hphase
    have hcursor : ∀ pc, s.sys.recvTask = some pc → Cursor (close s.sys fd) pc := by
      intro pc hpc
      apply cursor_close (h.cursor pc hpc)
      rintro ready item rfl
      exact hnew ready item hpc
    have hattended : ∀ l, ∀ sd ∈ s.sys.lists l, Attended s l := by
      intro l sd hsd
      refine (h.attended l sd hsd).resolve_right fun hopens => ?_
      rw [hcli] at hopens
      simp [Opens] at hopens
    have hbits : Finished s.sys → s.sys.recvTaskSt = .term ∨ ∀ sd, sd ∉ s.sys.rSet := by
      intro hfinished
      refine (h.bits hfinished).imp id fun hbits sd hsd => ?_
      have hbit := hbits sd hsd
      rw [hcli] at hbit
      simp [BitSet] at hbit
    split at hstep <;> cases hstep
    · constructor
      · refine ⟨⟨h.nodup, h.apart, fun l sd hsd => ?_⟩, hcursor⟩
        refine Finset.mem_erase.mpr ⟨?_, h.opened l sd hsd⟩
        rintro rfl
        exact hlists l hsd
      · exact h.served
      · exact fun l sd hsd => Or.inl (hattended l sd hsd)
      · exact fun hfinished => (hbits hfinished).imp id fun hnone sd hsd => absurd hsd (hnone sd)
      · exact h.notTerm
      · trivial
    · constructor
      · refine ⟨h.toLists.insert hlists rfl ?_, fun pc hpc => ?_⟩
        · rintro sd (hsd | rfl)
          · exact hsd
          · exact hopened
        · apply (hcursor pc hpc).mono
          · exact fun l x hx => mem_insert_lists.mpr (Or.inl hx)
          · exact fun x hx => Finset.mem_of_mem_erase hx
          · intro l x hx
            rcases mem_insert_lists.mp hx with hold | ⟨rfl, -⟩
            · exact Or.inl hold
            · exact Or.inr (Finset.notMem_erase _ _)
      · intro sd hsd
        obtain ⟨hbit, l, hlist, hattended⟩ := h.served sd hsd
        exact ⟨hbit, l, mem_insert_lists.mpr (Or.inl hlist), hattended⟩
      · intro l sd hsd
        rcases mem_insert_lists.mp hsd with hold | ⟨rfl, rfl⟩
        · exact Or.inl (hattended l sd hold)
        · exact Or.inr ⟨rfl, Or.inl rfl⟩
      · exact fun hfinished => (hbits hfinished).imp id fun hnone sd hsd => absurd hsd (hnone sd)
      · exact h.notTerm
      · exact ⟨fun _ => mem_insert_lists.mpr (Or.inr ⟨rfl, rfl⟩), fun hdead => by cases hdead⟩
  · cases hstep

theorem Good.taskCreate {s t : State} (h : Good s) {ok : Bool}
    (hstep : taskCreate s ok = some t) : Good t := by
  unfold Serving.taskCreate at hstep
  split at hstep
  · rename_i k fd hcli
    have hphase := h.phase
    rw [hcli] at hphase
    obtain ⟨hopening, hbit, hnone⟩ := hphase
    have hnotAttended : ∀ l, ¬ Attended s l := by
      rintro l ⟨pc, hpc, -⟩
      rw [hnone] at hpc
      cases hpc
    have hserved : ∀ sd, sd ∉ s.served := by
      intro sd hsd
      obtain ⟨-, l, -, hattended⟩ := h.served sd hsd
      exact hnotAttended l hattended
    have honly : ∀ l, ∀ sd ∈ s.sys.lists l, l = k ∧ sd = fd := by
      intro l sd hsd
      rcases h.attended l sd hsd with hattended | ⟨-, hopens⟩
      · exact absurd hattended (hnotAttended l)
      · rw [hcli] at hopens
        simp only [Opens, reduceCtorEq, Cli.create.injEq, false_or] at hopens
        exact ⟨hopens.1.symm, hopens.2.symm⟩
    split at hstep <;> cases hstep
    · have hattended : ∀ l, Attended (succeed { s with
          sys := { s.sys with recvTask := some .start } } fd) l :=
        fun l => ⟨.start, rfl, rfl⟩
      constructor
      · refine ⟨⟨h.nodup, h.apart, h.opened⟩, fun pc hpc => ?_⟩
        cases hpc
        trivial
      · intro sd hsd
        by_cases hlive : s.live = true
        · simp only [succeed, hlive, if_true, Finset.mem_insert] at hsd
          cases hsd.resolve_right (hserved sd)
          exact ⟨hbit hlive, k, hopening.listed hlive, hattended k⟩
        · simp only [succeed, if_neg hlive] at hsd
          exact absurd hsd (hserved sd)
      · exact fun l sd hsd => Or.inl (hattended l)
      · rintro (hfinished | hfinished) <;> cases hfinished
      · intro pc hpc hmid
        cases hpc
        exact absurd rfl hmid.1
      · trivial
    · have hempty : ∀ l sd, sd ∉ update s.sys.lists k ((s.sys.lists k).erase fd) l := by
        intro l sd hsd
        by_cases hl : l = k
        · subst hl
          rw [update_self] at hsd
          have hne := ((h.nodup l).mem_erase_iff.mp hsd).1
          exact hne (honly l sd (List.mem_of_mem_erase hsd)).2
        · rw [update_of_ne hl] at hsd
          exact hl (honly l sd hsd).1
      have hnodup : ∀ l, (update s.sys.lists k ((s.sys.lists k).erase fd) l).Nodup := by
        intro l
        rw [List.eq_nil_iff_forall_not_mem.mpr (hempty l)]
        exact List.nodup_nil
      constructor
      · refine ⟨⟨hnodup, fun sd hsd => absurd hsd (hempty _ sd),
          fun l sd hsd => absurd hsd (hempty l sd)⟩, fun pc hpc => ?_⟩
        change s.sys.recvTask = some pc at hpc
        rw [hnone] at hpc
        cases hpc
      · exact fun sd hsd => absurd hsd (hserved sd)
      · exact fun l sd hsd => absurd hsd (hempty l sd)
      · intro hfinished
        refine (h.bits hfinished).imp id fun hbits sd hsd => ?_
        obtain ⟨hne, hold⟩ := Finset.mem_erase.mp hsd
        have hset := hbits sd hold
        rw [hcli] at hset
        simp only [BitSet, reduceCtorEq, Cli.create.injEq, false_or] at hset
        obtain ⟨l, -, heq⟩ := hset
        exact absurd heq.symm hne
      · exact h.notTerm
      · trivial
  · cases hstep

/-- Beginning to close `sd` as a socket of list `k`. -/
theorem Good.leave {s : State} (h : Good s) (hidle : s.cli = .idle) {k : Kind} {sd : Int}
    {sys : Sys} {cli : Cli} (hclosing : cli = .clearBit sd ∨ cli = .clearListen sd)
    (hsys : ∃ clrSet pending, sys = { s.sys with clrSet := clrSet, pending := pending })
    (hnamed : sd ∈ s.sys.lists k ∨ sd ∉ s.served)
    (hterm : Finished s.sys → s.sys.recvTaskSt = .term) :
    Good (leave { s with sys := sys, cli := cli } k sd) := by
  obtain ⟨clrSet, pending, rfl⟩ := hsys
  have hsub : ∀ x ∈ (Serving.leave { s with
      sys := { s.sys with clrSet := clrSet, pending := pending }, cli := cli } k sd).served,
      x ∈ s.served ∧ x ≠ sd := by
    intro x hx
    by_cases hlisted : sd ∈ s.sys.lists k
    · simp only [Serving.leave, if_pos hlisted, Finset.mem_erase] at hx
      exact hx.symm
    · simp only [Serving.leave, if_neg hlisted] at hx
      refine ⟨hx, ?_⟩
      rintro rfl
      exact hnamed.elim hlisted fun hnot => hnot hx
  apply h.quiet
  constructor
  · rfl
  · exact Finset.Subset.refl _
  · rfl
  · exact fun x hx => Or.inl ⟨(hsub x hx).1, (h.served x (hsub x hx).1).1⟩
  · intro l x _ hopens
    rw [hidle] at hopens
    exact absurd hopens not_opens_idle
  · exact fun hfinished => Or.inl (hterm hfinished)
  · exact Or.inl rfl
  · rcases hclosing with rfl | rfl
    · exact ⟨fun hsd => (hsub sd hsd).2 rfl, hterm⟩
    · exact ⟨fun hsd => (hsub sd hsd).2 rfl, hterm⟩

theorem Good.atTcpDisconnect {s : State} (h : Good s) (hidle : s.cli = .idle) {argc : Nat}
    {conn : Int}
    (hnamed : ¬ (argc < 1 ∨ conn ∉ s.sys.rSet) → conn ∈ s.sys.lists .normal ∨ conn ∉ s.served) :
    Good (atTcpDisconnect s argc conn) := by
  unfold Serving.atTcpDisconnect
  split
  · exact h
  · rename_i hfound
    apply h.leave hidle (Or.inl rfl) ⟨_, _, rfl⟩ (hnamed hfound)
    intro hfinished
    refine (h.bits hfinished).resolve_right fun hbits => ?_
    have hset := hbits conn (not_not.mp fun hnot => hfound (Or.inr hnot))
    rw [hidle] at hset
    exact not_bitSet_idle hset

theorem Good.atTcpUnlisten {s : State} (h : Good s) (hidle : s.cli = .idle) {argc : Nat}
    {port : UInt16} {behind : Behind}
    (hnamed : ¬ (argc < 1 ∨ port = 0) → ∀ socket, listenSdByPort s.sys port behind = some socket →
      socket ∈ s.sys.lists .listen ∨ socket ∉ s.served) :
    Good (atTcpUnlisten s argc port behind) := by
  unfold Serving.atTcpUnlisten
  split
  · exact h
  · rename_i hargs
    unfold markRmListenSdByPort
    dsimp only
    split
    · rename_i socket hfound
      have hterm : Finished s.sys → s.sys.recvTaskSt = .term := by
        intro hfinished
        unfold listenSdByPort at hfound
        split at hfound
        · cases hfound
        · rename_i hne
          obtain ⟨sd, hsd⟩ := List.exists_mem_of_ne_nil _ hne
          rcases h.attended .listen sd hsd with hattended | ⟨-, hopens⟩
          · exact absurd hfinished hattended.not_finished
          · rw [hidle] at hopens
            exact absurd hopens not_opens_idle
      split
      · apply h.quiet
        constructor
        · rfl
        · exact Finset.Subset.refl _
        · rfl
        · exact fun x hx => Or.inl ⟨hx, (h.served x hx).1⟩
        · exact fun l x hlive hopens => Or.inr ⟨hlive, hopens⟩
        · exact fun hfinished => Or.inl (hterm hfinished)
        · exact Or.inl rfl
        · rw [hidle]
          trivial
      · exact h.leave hidle (Or.inr rfl) ⟨_, _, rfl⟩ (hnamed hargs socket hfound) hterm
    · rw [if_pos rfl]
      exact h

/-- What the steps of a closing command have to bring: the bits they clear are of no
socket that counts. -/
structure Closes (s t : State) : Prop where
  lists : t.sys.lists = s.sys.lists := by rfl
  opened : t.sys.opened = s.sys.opened := by rfl
  task : t.sys.recvTask = s.sys.recvTask := by rfl
  served : t.served = s.served := by rfl
  cleared : t.sys.rSet ⊆ s.sys.rSet
  kept : ∀ sd ∈ s.served, sd ∈ t.sys.rSet
  recvTaskSt : t.sys.recvTaskSt = s.sys.recvTaskSt ∨
    t.sys.recvTaskSt = .stop ∧ (Finished s.sys → t.sys.rSet = ∅)
  phase : Phase t t.cli

theorem Good.close {s t : State} (h : Good s) (hcli : opening s.cli = none)
    (hcloses : Closes s t) : Good t := by
  apply h.quiet
  constructor
  · exact hcloses.lists
  · rw [hcloses.opened]
  · exact hcloses.task
  · intro sd hsd
    rw [hcloses.served] at hsd
    exact Or.inl ⟨hsd, hcloses.kept sd hsd⟩
  · rintro k sd - (hopens | hopens | hopens) <;> rw [hopens] at hcli <;> cases hcli
  · intro hfinished
    rcases hcloses.recvTaskSt with hsame | ⟨-, hempty⟩
    · rw [hsame]
      refine (h.bits hfinished).imp id fun hbits sd hsd => ?_
      obtain ⟨k, hset | hset⟩ := hbits sd (hcloses.cleared hsd) <;> rw [hset] at hcli <;> cases hcli
    · rw [hempty hfinished]
      exact Or.inr fun sd hsd => absurd hsd (Finset.notMem_empty sd)
  · exact hcloses.recvTaskSt.imp id And.left
  · exact hcloses.phase

theorem kept_erase {served rSet : Finset Int} {c : Int} (hserved : ∀ sd ∈ served, sd ∈ rSet)
    (hc : c ∉ served) : ∀ sd ∈ served, sd ∈ rSet.erase c := by
  intro sd hsd
  refine Finset.mem_erase.mpr ⟨?_, hserved sd hsd⟩
  rintro rfl
  exact hc hsd

theorem Good.setBit {s : State} (h : Good s) {k : Kind} {fd : Int} (hcli : s.cli = .setBit k fd) :
    Good { s with sys := { s.sys with rSet := insert fd s.sys.rSet }, cli := .testInst k fd } := by
  have hphase := h.phase
  rw [hcli] at hphase
  have hserved : ∀ sd ∈ s.served, sd ∈ s.sys.rSet := fun sd hsd => (h.served sd hsd).1
  apply h.quiet
  constructor
  · rfl
  · exact Finset.Subset.refl _
  · rfl
  · exact fun sd hsd => Or.inl ⟨hsd, Finset.mem_insert_of_mem (hserved sd hsd)⟩
  · intro l sd hlive hopens
    rw [hcli] at hopens
    simp only [Opens, Cli.setBit.injEq, reduceCtorEq, or_false] at hopens
    obtain ⟨rfl, rfl⟩ := hopens
    exact Or.inr ⟨hlive, Or.inr (Or.inl rfl)⟩
  · intro hfinished
    refine (h.bits hfinished).imp id fun hbits sd hsd => ?_
    rcases Finset.mem_insert.mp hsd with rfl | hold
    · exact ⟨k, Or.inl rfl⟩
    · have hset := hbits sd hold
      rw [hcli] at hset
      simp [BitSet] at hset
  · exact Or.inl rfl
  · exact ⟨⟨hphase.listed, hphase.closed⟩, fun _ => Finset.mem_insert_self fd _⟩

theorem Good.testInst {s : State} (h : Good s) {k : Kind} {fd : Int}
    (hcli : s.cli = .testInst k fd) (hallowed : allowed s .cli = true) :
    Good (if s.sys.recvTask = none then { s with cli := .create k fd } else succeed s fd) := by
  have hphase := h.phase
  rw [hcli] at hphase
  have hserved : ∀ sd ∈ s.served, sd ∈ s.sys.rSet := fun sd hsd => (h.served sd hsd).1
  obtain ⟨hopening, hbit⟩ := hphase
  have hattended : ∀ pc, s.sys.recvTask = some pc → s.live = true → Attended s k := by
    intro pc hpc hlive
    refine ⟨pc, hpc, ?_⟩
    simpa [allowed, hcli, hpc, hlive] using hallowed
  split
  · rename_i hnone
    apply h.quiet
    constructor
    · rfl
    · exact Finset.Subset.refl _
    · rfl
    · exact fun sd hsd => Or.inl ⟨hsd, hserved sd hsd⟩
    · intro l sd hlive hopens
      rw [hcli] at hopens
      simp only [Opens, Cli.testInst.injEq, reduceCtorEq, or_false, false_or] at hopens
      obtain ⟨rfl, rfl⟩ := hopens
      exact Or.inr ⟨hlive, Or.inr (Or.inr rfl)⟩
    · intro hfinished
      refine (h.bits hfinished).imp id fun hbits sd hsd => ?_
      have hset := hbits sd hsd
      rw [hcli] at hset
      simp only [BitSet, Cli.testInst.injEq, reduceCtorEq, or_false] at hset
      obtain ⟨l, rfl, rfl⟩ := hset
      exact ⟨k, Or.inr rfl⟩
    · exact Or.inl rfl
    · exact ⟨⟨hopening.listed, hopening.closed⟩, hbit, hnone⟩
  · rename_i htask
    obtain ⟨pc, hpc⟩ := Option.ne_none_iff_exists'.mp htask
    apply h.quiet
    constructor
    · rfl
    · exact Finset.Subset.refl _
    · rfl
    · intro sd hsd
      by_cases hlive : s.live = true
      · simp only [succeed, hlive, if_true, Finset.mem_insert] at hsd
        rcases hsd with rfl | hold
        · exact Or.inr ⟨hbit hlive, k, hopening.listed hlive, hattended pc hpc hlive⟩
        · exact Or.inl ⟨hold, hserved sd hold⟩
      · simp only [succeed, if_neg hlive] at hsd
        exact Or.inl ⟨hsd, hserved sd hsd⟩
    · intro l sd hlive hopens
      rw [hcli] at hopens
      simp only [Opens, Cli.testInst.injEq, reduceCtorEq, or_false, false_or] at hopens
      obtain ⟨rfl, rfl⟩ := hopens
      exact Or.inl (hattended pc hpc hlive)
    · intro hfinished
      cases hlive : s.live with
      | true => exact absurd hfinished (hattended pc hpc hlive).not_finished
      | false => exact Or.inl (hopening.closed hlive hfinished)
    · exact Or.inl rfl
    · trivial

theorem Good.stepCli {s t : State} (h : Good s) (hallowed : allowed s .cli = true)
    (hstep : stepCli s = some t) : Good t := by
  have hphase := h.phase
  have hserved : ∀ sd ∈ s.served, sd ∈ s.sys.rSet := fun sd hsd => (h.served sd hsd).1
  unfold Serving.stepCli at hstep
  cases hcli : s.cli with
  | idle =>
    rw [hcli] at hstep
    cases hstep
  | register k fd port =>
    rw [hcli] at hstep
    cases hstep
  | setBit k fd =>
    rw [hcli] at hstep
    cases hstep
    exact h.setBit hcli
  | testInst k fd =>
    rw [hcli] at hstep
    cases hstep
    exact h.testInst hcli hallowed
  | create k fd =>
    rw [hcli] at hstep
    cases hstep
  | clearBit conn =>
    rw [hcli] at hstep hphase
    cases hstep
    exact h.close (by rw [hcli]; rfl)
      { cleared := Finset.erase_subset .., kept := kept_erase hserved hphase.1
        recvTaskSt := Or.inl rfl, phase := hphase.2 }
  | mark conn =>
    rw [hcli] at hstep hphase
    cases hstep
    unfold markRmSd
    split
    · exact h.close (by rw [hcli]; rfl)
        { cleared := Finset.Subset.refl _, kept := hserved, recvTaskSt := Or.inl rfl
          phase := hphase }
    · exact h.close (by rw [hcli]; rfl)
        { cleared := Finset.Subset.refl _, kept := hserved, recvTaskSt := Or.inl rfl
          phase := hphase }
  | clearListen socket =>
    rw [hcli] at hstep hphase
    cases hstep
    exact h.close (by rw [hcli]; rfl)
      { cleared := Finset.erase_subset .., kept := kept_erase hserved hphase.1
        recvTaskSt := Or.inl rfl, phase := hphase.2 }
  | chkCmp =>
    rw [hcli] at hstep hphase
    cases hstep
    refine h.close (by rw [hcli]; rfl)
      { cleared := Finset.Subset.refl _, kept := hserved, recvTaskSt := Or.inl rfl, phase := ?_ }
    by_cases hempty : s.sys.rSet = ∅
    · rw [if_pos hempty]
      exact ⟨fun _ => hempty, hphase⟩
    · rw [if_neg hempty]
      trivial
  | chkRunning =>
    rw [hcli] at hstep hphase
    cases hstep
    obtain ⟨hswept, hterm⟩ := hphase
    refine h.close (by rw [hcli]; rfl)
      { cleared := Finset.Subset.refl _, kept := hserved, recvTaskSt := Or.inl rfl, phase := ?_ }
    by_cases hrunning : s.sys.recvTaskSt = .running
    · rw [if_pos hrunning]
      refine ⟨hswept, fun hfinished => ?_⟩
      have hst := hterm hfinished
      rw [hrunning] at hst
      cases hst
    · rw [if_neg hrunning]
      exact ⟨hswept, hterm, fun _ _ _ => hrunning⟩
  | chkStop =>
    rw [hcli] at hstep hphase
    cases hstep
    obtain ⟨hswept, hnot⟩ := hphase
    refine h.close (by rw [hcli]; rfl)
      { cleared := Finset.Subset.refl _, kept := hserved
        recvTaskSt := Or.inr ⟨rfl, fun hfinished => absurd hfinished hnot⟩, phase := ?_ }
    exact ⟨hswept, fun hfinished => absurd hfinished hnot, fun _ _ _ => by simp⟩
  | waitTerm =>
    rw [hcli] at hstep hphase
    cases hstep
    refine h.close (by rw [hcli]; rfl)
      { cleared := Finset.Subset.refl _, kept := hserved, recvTaskSt := Or.inl rfl, phase := ?_ }
    by_cases hterm : s.sys.recvTaskSt = .term
    · rw [if_pos hterm]
      exact hphase.1
    · rw [if_neg hterm]
      exact hphase
  | setStop =>
    rw [hcli] at hstep hphase
    cases hstep
    exact h.close (by rw [hcli]; rfl)
      { cleared := Finset.Subset.refl _, kept := hserved
        recvTaskSt := Or.inr ⟨rfl, fun hfinished => hphase (Or.inl hfinished)⟩, phase := trivial }

/-- One step that avoids the windows. -/
theorem Good.step {s t : State} {event : Event} (h : Good s) (hallowed : allowed s event = true)
    (hstep : step s event = some t) : Good t := by
  cases event with
  | task answer => exact h.task hallowed hstep
  | tcpConnect argc port socket prepared =>
    simp only [Serving.step] at hstep
    split at hstep <;> cases hstep
    exact h.openSocket ‹_›
  | tcpListen argc port socket prepared =>
    simp only [Serving.step] at hstep
    split at hstep <;> cases hstep
    exact h.openSocket ‹_›
  | udpCreate argc port socket prepared =>
    simp only [Serving.step] at hstep
    split at hstep <;> cases hstep
    exact h.openSocket ‹_›
  | updateNewSd malloc behind => exact h.updateNewSd hstep
  | taskCreate ok => exact h.taskCreate hstep
  | tcpDisconnect argc conn =>
    simp only [Serving.step] at hstep
    split at hstep <;> cases hstep
    rename_i hidle
    refine h.atTcpDisconnect hidle fun hfound => ?_
    simp only [allowed, named, if_neg hfound] at hallowed
    exact of_decide_eq_true hallowed
  | udpClose argc sock =>
    simp only [Serving.step] at hstep
    split at hstep <;> cases hstep
    rename_i hidle
    refine h.atTcpDisconnect hidle fun hfound => ?_
    simp only [allowed, named, if_neg hfound] at hallowed
    exact of_decide_eq_true hallowed
  | tcpUnlisten argc port behind =>
    simp only [Serving.step] at hstep
    split at hstep <;> cases hstep
    rename_i hidle
    refine h.atTcpUnlisten hidle fun hargs socket hfound => ?_
    simp only [allowed, named, if_neg hargs, hfound, Option.map_some] at hallowed
    exact of_decide_eq_true hallowed
  | cli => exact h.stepCli hallowed hstep

end Sv6x66.Atcmd.Serving
