import Sv6x66.Atcmd.ServingInvariant
import Sv6x66.Atcmd.Termination
import Sv6x66.Lib.Fair

/-! `chk_socket_task` returns in every fair run that avoids the windows, and the
windows lose a socket or a command. -/
namespace Sv6x66.Atcmd.Serving
open Sv6x66.Lib Function SocketList SocketOrder RecvTask

def InChk : Cli → Prop
  | .chkCmp => True
  | .chkRunning => True
  | .chkStop => True
  | .waitTerm => True
  | .setStop => True
  | _ => False

def OfTask (event : Event) : Prop := ∃ answer, event = .task answer

/-- An infinite run from `s` that avoids the windows. -/
abbrev Goes (s : State) := InfRun step (fun s event => allowed s event) s

/-- Only the task and the next step of the command. -/
theorem step_inChk {s t : State} {event : Event} (hcli : InChk s.cli)
    (hstep : step s event = some t) (htask : ¬ OfTask event) : stepCli s = some t := by
  have hidle : s.cli ≠ .idle := by
    intro h
    rw [h] at hcli
    exact hcli
  cases event with
  | task answer => exact absurd ⟨answer, rfl⟩ htask
  | tcpConnect argc port socket prepared =>
    simp only [step, Ready, hidle, false_and, if_false] at hstep
    cases hstep
  | tcpListen argc port socket prepared =>
    simp only [step, Ready, hidle, false_and, if_false] at hstep
    cases hstep
  | udpCreate argc port socket prepared =>
    simp only [step, Ready, hidle, false_and, if_false] at hstep
    cases hstep
  | updateNewSd malloc behind =>
    simp only [step, updateNewSd] at hstep
    split at hstep
    · rename_i hregister
      rw [hregister] at hcli
      exact hcli.elim
    · cases hstep
  | taskCreate ok =>
    simp only [step, taskCreate] at hstep
    split at hstep
    · rename_i hcreate
      rw [hcreate] at hcli
      exact hcli.elim
    · cases hstep
  | tcpDisconnect argc conn =>
    simp only [step, if_neg hidle] at hstep
    cases hstep
  | udpClose argc sock =>
    simp only [step, if_neg hidle] at hstep
    cases hstep
  | tcpUnlisten argc port behind =>
    simp only [step, if_neg hidle] at hstep
    cases hstep
  | cli => exact hstep

def Waits (s : State) : Prop := s.cli = .waitTerm ∧ s.sys.recvTaskSt ≠ .term

/-- While the command waits for `TASK_ST_Term` the task is there. -/
theorem Waits.task {s : State} (h : Waits s) (hgood : Good s) : s.sys.recvTask ≠ none := by
  intro hnone
  have hphase := hgood.phase
  rw [h.1] at hphase
  exact h.2 (hphase.2.1 (Or.inl hnone))

def Leaves (s : State) : Prop :=
  s.cli = .waitTerm ∧ s.sys.recvTaskSt = .term ∨ s.cli = .setStop

/-- It is closed by command, up to `chk_socket_task`. -/
def disconnects : List Event := .tcpDisconnect 1 0 :: List.replicate 2 .cli

/-- The task is in its loop. -/
def InLoop : Pc → Prop
  | .start => False
  | .terminate _ => False
  | .termZero => False
  | .termSt => False
  | .termInst => False
  | _ => True

/-- The command waits for the end of a task that runs. -/
structure Stuck (s : State) : Prop where
  cli : s.cli = .waitTerm
  running : s.sys.recvTaskSt = .running
  task : ∃ pc, s.sys.recvTask = some pc ∧ InLoop pc

theorem inLoop_next {s : Sys} {pc : Pc} {answer : Answer} {effect : Effect} {pc' : Option Pc}
    (hnext : next s pc answer = some (effect, pc')) (hpc : InLoop pc)
    (hrunning : s.recvTaskSt = .running) (hanswer : answer ≠ .selectError) :
    ∃ p, pc' = some p ∧ InLoop p := by
  have hspec := next_spec hnext
  cases hspec with
  | loopEnd hstop => exact absurd hrunning hstop
  | stopEnd hstop => exact absurd hrunning hstop
  | selectError =>
    cases answer with
    | selectError => exact absurd rfl hanswer
    | selectReady ready =>
      simp only [next] at hnext
      split at hnext <;> cases hnext
    | _ => cases hnext
  | start => exact hpc.elim
  | termNode => exact hpc.elim
  | termNormalEnd => exact hpc.elim
  | termListenEnd => exact hpc.elim
  | termZero => exact hpc.elim
  | termSt => exact hpc.elim
  | termInst => exact hpc.elim
  | _ => exact ⟨_, rfl, trivial⟩

theorem Stuck.step {s t : State} {event : Event} (h : Stuck s)
    (hanswer : event ≠ .task .selectError) (hstep : step s event = some t) : Stuck t := by
  by_cases htask : OfTask event
  · obtain ⟨answer, rfl⟩ := htask
    obtain ⟨pc, hpc, hloop⟩ := h.task
    obtain ⟨p, hp, hmap⟩ := Option.bind_eq_some_iff.mp hstep
    rw [hpc] at hp
    cases hp
    obtain ⟨⟨effect, pc'⟩, hnext, rfl⟩ := Option.map_eq_some_iff.mp hmap
    have hne : answer ≠ .selectError := fun heq => hanswer (congrArg Event.task heq)
    obtain ⟨p, rfl, hloop'⟩ := inLoop_next hnext hloop h.running hne
    refine ⟨h.cli, ?_, p, rfl, hloop'⟩
    rcases recvTaskSt_next (next_spec hnext) with rfl | rfl | hsame
    · exact hloop.elim
    · exact hloop.elim
    · exact hsame.trans h.running
  · have hinChk : InChk s.cli := by
      rw [h.cli]
      trivial
    have hcliStep := step_inChk hinChk hstep htask
    have hne : s.sys.recvTaskSt ≠ .term := by
      rw [h.running]
      decide
    simp only [stepCli, h.cli, if_neg hne, Option.some.injEq] at hcliStep
    subst hcliStep
    exact ⟨rfl, h.running, h.task⟩

/-- Unless `select` fails, the command waits for ever. -/
theorem Stuck.run {s t : State} {events : List Event} (h : Stuck s)
    (hrun : Run Serving.step (fun _ event => event ≠ .task .selectError) s events t) : Stuck t :=
  hrun.invariant (I := Stuck) h fun _ _ _ h hanswer hstep => h.step hanswer hstep

/-- A task that starts while a command waits keeps it waiting. -/
theorem stuck_of_start {s t : State} {answer : Answer} (hcli : s.cli = .waitTerm)
    (hstart : s.sys.recvTask = some .start) (hstep : step s (.task answer) = some t) : Stuck t := by
  obtain ⟨pc, effect, pc', hpc, hnext, -, rfl⟩ := stepTask_spec hstep
  rw [hstart] at hpc
  cases hpc
  cases hnext
  exact ⟨hcli, rfl, .loopTest, rfl, trivial⟩

/-- A command that finds `recv_task_inst` set by a task past its termination point
returns success for a socket that is not served. -/
theorem unserved_of_passed {s t : State} (hgood : Good s) {k : Kind} {fd : Int} {pc : Pc}
    (hcli : s.cli = .testInst k fd) (hlive : s.live = true) (hpc : s.sys.recvTask = some pc)
    (hpassed : passed k pc = true) (hstep : step s .cli = some t) :
    fd ∈ t.served ∧ ¬ Served t fd := by
  have hphase := hgood.phase
  rw [hcli] at hphase
  have hlisted := hphase.1.listed hlive
  simp only [step, stepCli, hcli, hpc, reduceCtorEq, if_false, Option.some.injEq] at hstep
  subst hstep
  refine ⟨by simp [succeed, hlive], ?_⟩
  rintro ⟨-, l, hl, p, hp, hnot⟩
  cases hgood.kind_eq hlisted hl
  change s.sys.recvTask = some p at hp
  rw [hpc] at hp
  cases hp
  rw [hpassed] at hnot
  cases hnot

end Sv6x66.Atcmd.Serving
