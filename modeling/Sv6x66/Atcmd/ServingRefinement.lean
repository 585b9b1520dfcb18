import Sv6x66.Atcmd.Serving

/-! The machine of the small command steps does all that the machine of
`RecvTask` does, where opening a socket is one step and `chk_socket_task` two. -/
namespace Sv6x66.Atcmd.Serving
open Sv6x66.Lib Function SocketList SocketOrder RecvTask

/-- Where a command of `RecvTask` stands among the small steps. -/
def cliOf : Cmd → Cli
  | .idle => .idle
  | .clearBit conn => .clearBit conn
  | .mark conn => .mark conn
  | .clearListen socket => .clearListen socket
  | .chkSocketTask => .chkCmp
  | .waitTerm => .waitTerm

structure Coarse (s : Sys) (t : State) : Prop where
  sys : t.sys = { s with cmd := .idle }
  cli : t.cli = cliOf s.cmd

def Reaches (s t : State) : Prop := ∃ events, Run step anyStep s events t

theorem Reaches.refl (s : State) : Reaches s s := ⟨[], .nil⟩

theorem Reaches.step {s t u : State} (h : Reaches s t) (event : Event)
    (hstep : step t event = some u) : Reaches s u := by
  obtain ⟨events, hrun⟩ := h
  exact ⟨events ++ [event], hrun.snoc trivial hstep⟩

theorem Reaches.trans {s t u : State} (h : Reaches s t) (hrest : Reaches t u) : Reaches s u := by
  obtain ⟨events, hrun⟩ := h
  obtain ⟨later, hlater⟩ := hrest
  exact ⟨events ++ later, hrun.trans hlater⟩

/-! ### The commands that open a socket -/

theorem step_updateNewSd {s : State} {k : Kind} {fd : Int} {port : UInt16} (behind : Int)
    (hcli : s.cli = .register k fd port) :
    ∃ t, step s (.updateNewSd true behind) = some t ∧ t.cli = .setBit k fd ∧
      t.sys = { s.sys with
        lists := update s.sys.lists k (insertSd behind fd (s.sys.lists k))
        port := update s.sys.port fd port } := by
  simp only [step, updateNewSd, hcli]
  exact ⟨_, rfl, rfl, rfl⟩

theorem step_setBit {s : State} {k : Kind} {fd : Int} (hcli : s.cli = .setBit k fd) :
    ∃ t, step s .cli = some t ∧ t.cli = .testInst k fd ∧
      t.sys = { s.sys with rSet := insert fd s.sys.rSet } := by
  simp only [step, stepCli, hcli]
  exact ⟨_, rfl, rfl, rfl⟩

theorem step_testInst {s : State} {k : Kind} {fd : Int} (hcli : s.cli = .testInst k fd) :
    ∃ t, step s .cli = some t ∧ t.sys = s.sys ∧
      t.cli = if s.sys.recvTask = none then .create k fd else .idle := by
  simp only [step, stepCli, hcli]
  split
  · exact ⟨_, rfl, rfl, rfl⟩
  · exact ⟨_, rfl, rfl, rfl⟩

theorem step_taskCreate {s : State} {k : Kind} {fd : Int} (ok : Bool)
    (hcli : s.cli = .create k fd) :
    ∃ t, step s (.taskCreate ok) = some t ∧ t.cli = .idle ∧
      t.sys = if ok then { s.sys with recvTask := some .start }
        else { s.sys with
          rSet := s.sys.rSet.erase fd
          opened := s.sys.opened.erase fd
          lists := update s.sys.lists k ((s.sys.lists k).erase fd) } := by
  simp only [step, taskCreate, hcli]
  split
  · exact ⟨_, rfl, rfl, rfl⟩
  · exact ⟨_, rfl, rfl, rfl⟩

/-- The steps from `update_new_sd` on, with none of the task between them. -/
theorem reaches_serve {s : State} {k : Kind} {fd : Int} {port : UInt16} (calls : Calls)
    (error : Ret) (hcli : s.cli = .register k fd port) :
    ∃ t, Reaches s t ∧ t.cli = .idle ∧ t.sys = (serve s.sys k fd port calls error).2 := by
  unfold serve
  by_cases hmalloc : calls.malloc = true
  · obtain ⟨s₁, hstep₁, hcli₁, hsys₁⟩ := step_updateNewSd calls.behind hcli
    obtain ⟨s₂, hstep₂, hcli₂, hsys₂⟩ := step_setBit hcli₁
    obtain ⟨s₃, hstep₃, hsys₃, hcli₃⟩ := step_testInst hcli₂
    have hreach := (((Reaches.refl s).step _ hstep₁).step _ hstep₂).step _ hstep₃
    have hsame : s₂.sys.recvTask = s.sys.recvTask := by rw [hsys₂, hsys₁]
    rw [if_neg (not_not.mpr hmalloc)]
    by_cases htask : s.sys.recvTask = none
    · rw [if_pos (hsame.trans htask)] at hcli₃
      obtain ⟨s₄, hstep₄, hcli₄, hsys₄⟩ := step_taskCreate calls.taskCreate hcli₃
      refine ⟨s₄, hreach.step _ hstep₄, hcli₄, ?_⟩
      rw [hsys₄, hsys₃, hsys₂, hsys₁]
      dsimp only
      rw [if_pos htask]
      by_cases hcreate : calls.taskCreate = true
      · rw [if_pos hcreate, if_neg (not_not.mpr hcreate)]
      · rw [if_neg hcreate, if_pos hcreate]
        rfl
    · have hthere : s₂.sys.recvTask ≠ none := by rwa [hsame]
      rw [if_neg hthere] at hcli₃
      refine ⟨s₃, hreach, hcli₃, ?_⟩
      rw [hsys₃, hsys₂, hsys₁]
      dsimp only
      rw [if_neg htask]
  · rw [if_pos hmalloc]
    refine ⟨{ s with sys := close s.sys fd, cli := .idle }, ?_, rfl, rfl⟩
    apply (Reaches.refl s).step (.updateNewSd false calls.behind)
    simp only [step, updateNewSd, hcli]
    rfl

theorem reaches_openSocket {s : State} {event : Event} {k : Kind} {argc minArgc : Nat}
    {port : UInt16} {calls : Calls} {noSocket unprepared error : Ret} (hidle : s.cli = .idle)
    (hfresh : ∀ fd ∈ calls.socket, fd ∉ s.sys.opened)
    (hstep : step s event = some (openSocket s k argc minArgc port calls.socket calls.prepared)) :
    ∃ t, Reaches s t ∧ t.cli = .idle ∧
      t.sys =
        (RecvTask.openSocket s.sys k argc minArgc port calls noSocket unprepared error).2 := by
  have hfirst := (Reaches.refl s).step event hstep
  unfold openSocket at hfirst
  unfold RecvTask.openSocket
  split at hfirst
  · rename_i hargc
    rw [if_pos hargc]
    exact ⟨s, hfirst, hidle, rfl⟩
  · rename_i hargc
    rw [if_neg hargc]
    split at hfirst
    · rename_i hport
      rw [if_pos hport]
      exact ⟨s, hfirst, hidle, rfl⟩
    · rename_i hport
      rw [if_neg hport]
      cases hsocket : calls.socket with
      | none =>
        rw [hsocket] at hfirst
        exact ⟨s, hfirst, hidle, rfl⟩
      | some fd =>
        rw [hsocket] at hfirst
        dsimp only at hfirst ⊢
        split at hfirst
        · rename_i hprepared
          rw [if_pos hprepared]
          refine ⟨s, hfirst, hidle, ?_⟩
          simp only [close, Finset.erase_insert (hfresh fd hsocket)]
        · rename_i hprepared
          rw [if_neg hprepared]
          have hserve := reaches_serve (s := { s with
              sys := { s.sys with opened := insert fd s.sys.opened }
              cli := .register k fd port }) calls error rfl
          obtain ⟨t, hrest, hcli, hsys⟩ := hserve
          exact ⟨t, hfirst.trans hrest, hcli, hsys⟩

/-! ### The simulation -/

/-- The task does not look at `cmd`. -/
theorem next_idle (s : Sys) (pc : Pc) (answer : Answer) :
    next { s with cmd := .idle } pc answer = next s pc answer := rfl

theorem apply_idle (s : Sys) (effect : Effect) :
    apply { s with cmd := .idle } effect = { apply s effect with cmd := .idle } := by
  cases effect <;> rfl

theorem Coarse.task {s s' : Sys} {t : State} {answer : Answer} (h : Coarse s t)
    (hstep : RecvTask.stepTask s answer = some s') : ∃ t', Reaches t t' ∧ Coarse s' t' := by
  obtain ⟨pc, hpc, hmap⟩ := Option.bind_eq_some_iff.mp hstep
  obtain ⟨⟨effect, pc'⟩, hnext, rfl⟩ := Option.map_eq_some_iff.mp hmap
  have hpc' : t.sys.recvTask = some pc := by
    rw [h.sys]
    exact hpc
  have hnext' : next t.sys pc answer = some (effect, pc') := by
    rw [h.sys, next_idle]
    exact hnext
  have hstep' : step t (.task answer) = some (perform t effect pc') := by
    simp only [step, stepTask, hpc', Option.bind_some, hnext', Option.map_some]
  have hcmd : (apply s effect).cmd = s.cmd := by
    cases effect <;> rfl
  refine ⟨perform t effect pc', (Reaches.refl t).step _ hstep', ?_, ?_⟩
  · simp only [perform, h.sys, apply_idle]
  · change t.cli = cliOf (apply s effect).cmd
    rw [hcmd]
    exact h.cli

theorem Coarse.idle {s : Sys} {t : State} (h : Coarse s t) (hcmd : s.cmd = .idle) :
    t.cli = .idle ∧ t.sys = s := by
  refine ⟨by rw [h.cli, hcmd]; rfl, ?_⟩
  rw [h.sys, ← hcmd]

theorem serve_cmd (s : Sys) (k : Kind) (fd : Int) (port : UInt16) (calls : Calls) (error : Ret) :
    (serve s k fd port calls error).2.cmd = s.cmd := by
  unfold serve
  dsimp only
  split
  · rfl
  · split
    · split
      · rfl
      · rfl
    · rfl

theorem openSocket_cmd (s : Sys) (k : Kind) (argc minArgc : Nat) (port : UInt16) (calls : Calls)
    (noSocket unprepared error : Ret) :
    (RecvTask.openSocket s k argc minArgc port calls noSocket unprepared error).2.cmd = s.cmd := by
  unfold RecvTask.openSocket
  split
  · rfl
  · split
    · rfl
    · split
      · rfl
      · dsimp only
        split
        · rfl
        · exact serve_cmd ..

/-- An opening command, given its first small step. -/
theorem Coarse.openSocket {s : Sys} {t : State} (event : Event) {k : Kind} {argc minArgc : Nat}
    {port : UInt16} {calls : Calls} {noSocket unprepared error : Ret} (h : Coarse s t)
    (hready : RecvTask.Ready s calls)
    (hstep : Ready t calls.socket → step t event =
      some (Serving.openSocket t k argc minArgc port calls.socket calls.prepared)) :
    ∃ t', Reaches t t' ∧
      Coarse (RecvTask.openSocket s k argc minArgc port calls noSocket unprepared error).2 t' := by
  obtain ⟨hidle, hsys⟩ := h.idle hready.1
  have hfresh : ∀ fd ∈ calls.socket, fd ∉ t.sys.opened := by
    rw [hsys]
    exact hready.2
  obtain ⟨t', hreach, hcli, hsys'⟩ := reaches_openSocket hidle hfresh (hstep ⟨hidle, hfresh⟩)
  have hcmd := openSocket_cmd s k argc minArgc port calls noSocket unprepared error
  rw [hready.1] at hcmd
  rw [hsys] at hsys'
  refine ⟨t', hreach, ?_, ?_⟩
  · rw [hsys', ← hcmd]
  · rw [hcli, hcmd]
    rfl

theorem Coarse.atTcpDisconnect {s : Sys} {t : State} (event : Event) {argc : Nat} {conn : Int}
    (h : Coarse s t) (hcmd : s.cmd = .idle)
    (hstep : t.cli = .idle → step t event = some (Serving.atTcpDisconnect t argc conn)) :
    ∃ t', Reaches t t' ∧ Coarse (RecvTask.atTcpDisconnect s argc conn) t' := by
  obtain ⟨hidle, hsys⟩ := h.idle hcmd
  refine ⟨_, (Reaches.refl t).step event (hstep hidle), ?_⟩
  unfold Serving.atTcpDisconnect RecvTask.atTcpDisconnect
  rw [hsys]
  split
  · exact h
  · exact ⟨by rw [← hcmd]; rfl, rfl⟩

theorem Coarse.atTcpUnlisten {s : Sys} {t : State} {argc : Nat} {port : UInt16} {behind : Behind}
    (h : Coarse s t) (hcmd : s.cmd = .idle) :
    ∃ t', Reaches t t' ∧ Coarse (RecvTask.atTcpUnlisten s argc port behind) t' := by
  obtain ⟨hidle, hsys⟩ := h.idle hcmd
  have hstep : step t (.tcpUnlisten argc port behind) =
      some (Serving.atTcpUnlisten t argc port behind) := by
    simp only [step, if_pos hidle]
  refine ⟨_, (Reaches.refl t).step _ hstep, ?_⟩
  have hmarked : (markRmListenSdByPort s port behind).2.cmd = .idle := by
    unfold markRmListenSdByPort
    split
    · exact hcmd
    · exact hcmd
  unfold Serving.atTcpUnlisten RecvTask.atTcpUnlisten
  rw [hsys]
  split
  · exact h
  · dsimp only
    split
    · exact ⟨by rw [← hmarked], by rw [hmarked]; exact hidle⟩
    · exact ⟨by rw [← hmarked]; rfl, rfl⟩

theorem Reaches.cli {s t u : State} (h : Reaches s t) (hstep : stepCli t = some u) : Reaches s u :=
  h.step .cli hstep

/-- `chk_socket_task` takes up to three small steps to its wait. -/
theorem Coarse.chk {s : Sys} {t : State} (h : Coarse s t) (hcmd : s.cmd = .chkSocketTask) :
    ∃ t', Reaches t t' ∧ Coarse (if s.rSet ≠ ∅ then { s with cmd := .idle }
      else if s.recvTaskSt = .running then { s with recvTaskSt := .stop, cmd := .waitTerm }
      else { s with cmd := .waitTerm }) t' := by
  have hcli : t.cli = .chkCmp := by
    rw [h.cli, hcmd]
    rfl
  by_cases hrSet : s.rSet = ∅
  · have hcmp : stepCli t = some { t with cli := .chkRunning } := by
      have hempty : t.sys.rSet = ∅ := by
        rw [h.sys]
        exact hrSet
      simp only [stepCli, hcli, if_pos hempty]
    have hreach := (Reaches.refl t).cli hcmp
    rw [if_neg (not_not.mpr hrSet)]
    by_cases hrunning : s.recvTaskSt = .running
    · have htest : stepCli { t with cli := .chkRunning } = some { t with cli := .chkStop } := by
        simp only [stepCli, h.sys, if_pos hrunning]
      rw [if_pos hrunning]
      refine ⟨_, (hreach.cli htest).cli rfl, ?_, rfl⟩
      rw [h.sys]
    · have htest : stepCli { t with cli := .chkRunning } = some { t with cli := .waitTerm } := by
        simp only [stepCli, h.sys, if_neg hrunning]
      rw [if_neg hrunning]
      exact ⟨_, hreach.cli htest, h.sys, rfl⟩
  · have hcmp : stepCli t = some { t with cli := .idle } := by
      have hne : t.sys.rSet ≠ ∅ := by
        rw [h.sys]
        exact hrSet
      simp only [stepCli, hcli, if_neg hne]
    rw [if_pos hrSet]
    exact ⟨_, (Reaches.refl t).cli hcmp, h.sys, rfl⟩

theorem Coarse.cmd {s s' : Sys} {t : State} (h : Coarse s t) (hstep : stepCmd s = some s') :
    ∃ t', Reaches t t' ∧ Coarse s' t' := by
  have hcli := h.cli
  unfold stepCmd at hstep
  cases hcmd : s.cmd with
  | idle =>
    rw [hcmd] at hstep
    cases hstep
  | clearBit conn =>
    rw [hcmd] at hstep hcli
    cases hstep
    have hclear : stepCli t = some { t with
        sys := { t.sys with rSet := t.sys.rSet.erase conn }, cli := .mark conn } := by
      simp only [stepCli, hcli, cliOf]
    refine ⟨_, (Reaches.refl t).cli hclear, ?_, rfl⟩
    rw [h.sys]
  | mark conn =>
    rw [hcmd] at hstep hcli
    cases hstep
    have hmark : stepCli t = some { t with sys := (markRmSd t.sys conn).2, cli := .chkCmp } := by
      simp only [stepCli, hcli, cliOf]
    refine ⟨_, (Reaches.refl t).cli hmark, ?_, rfl⟩
    rw [h.sys]
    unfold markRmSd
    split
    · rfl
    · rfl
  | clearListen socket =>
    rw [hcmd] at hstep hcli
    cases hstep
    have hclear : stepCli t = some { t with
        sys := { t.sys with rSet := t.sys.rSet.erase socket }, cli := .chkCmp } := by
      simp only [stepCli, hcli, cliOf]
    refine ⟨_, (Reaches.refl t).cli hclear, ?_, rfl⟩
    rw [h.sys]
  | chkSocketTask =>
    rw [hcmd] at hstep
    cases hstep
    exact h.chk hcmd
  | waitTerm =>
    rw [hcmd] at hstep hcli
    simp only at hstep
    split at hstep <;> cases hstep
    rename_i hterm
    have hleave : stepCli t = some { t with cli := .setStop } := by
      have hst : t.sys.recvTaskSt = .term := by
        rw [h.sys]
        exact hterm
      simp only [stepCli, hcli, cliOf, if_pos hst]
    refine ⟨_, ((Reaches.refl t).cli hleave).cli rfl, ?_, rfl⟩
    rw [h.sys]

theorem Coarse.step {s s' : Sys} {t : State} {event : RecvTask.Event} (h : Coarse s t)
    (hstep : RecvTask.step s event = some s') : ∃ t', Reaches t t' ∧ Coarse s' t' := by
  cases event with
  | task answer => exact h.task hstep
  | tcpConnect argc port calls =>
    simp only [RecvTask.step] at hstep
    split at hstep <;> cases hstep
    exact h.openSocket (.tcpConnect argc port calls.socket calls.prepared) ‹_›
      fun hready => by simp only [Serving.step, if_pos hready]; rfl
  | tcpListen argc port calls =>
    simp only [RecvTask.step] at hstep
    split at hstep <;> cases hstep
    exact h.openSocket (.tcpListen argc port calls.socket calls.prepared) ‹_›
      fun hready => by simp only [Serving.step, if_pos hready]; rfl
  | udpCreate argc port calls =>
    simp only [RecvTask.step] at hstep
    split at hstep <;> cases hstep
    exact h.openSocket (.udpCreate argc port calls.socket calls.prepared) ‹_›
      fun hready => by simp only [Serving.step, if_pos hready]; rfl
  | tcpDisconnect argc conn =>
    simp only [RecvTask.step] at hstep
    split at hstep <;> cases hstep
    exact h.atTcpDisconnect (.tcpDisconnect argc conn) ‹_›
      fun hidle => by simp only [Serving.step, if_pos hidle]
  | udpClose argc sock =>
    simp only [RecvTask.step] at hstep
    split at hstep <;> cases hstep
    exact h.atTcpDisconnect (.udpClose argc sock) ‹_›
      fun hidle => by simp only [Serving.step, if_pos hidle]; rfl
  | tcpUnlisten argc port behind =>
    simp only [RecvTask.step] at hstep
    split at hstep <;> cases hstep
    exact h.atTcpUnlisten ‹_›
  | cmd => exact h.cmd hstep

/-- What `RecvTask` reaches is reached in small steps. -/
theorem coarse_run {events : List RecvTask.Event} {s : Sys}
    (hrun : Run RecvTask.step anyStep RecvTask.initial events s) :
    ∃ t, Reaches initial t ∧ Coarse s t := by
  apply hrun.invariant (I := fun s => ∃ t, Reaches initial t ∧ Coarse s t)
  · exact ⟨initial, Reaches.refl initial, rfl, rfl⟩
  · rintro s event s' ⟨t, hreach, hcoarse⟩ - hstep
    obtain ⟨t', hrest, hcoarse'⟩ := hcoarse.step hstep
    exact ⟨t', hreach.trans hrest, hcoarse'⟩

end Sv6x66.Atcmd.Serving
