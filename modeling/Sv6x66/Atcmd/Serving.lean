import Sv6x66.Atcmd.Cursor
import Sv6x66.Lib.Run

/-! The commands of `atcmd_tcpip.c` in steps as small as those of `recv_task`: a
command that opens a socket registers it, sets its bit and looks at
`recv_task_inst` one after the other, and `chk_socket_task` reads and writes
`recv_task_st` in steps of their own. -/
namespace Sv6x66.Atcmd.Serving
open Sv6x66.Lib Function SocketList SocketOrder RecvTask

/-- Where the command under way stands. `register` is before `update_new_sd` or
`update_new_listen_sd`, `setBit` before `FD_SET`, `testInst` before the test of
`recv_task_inst`, `create` before `OS_TaskCreate`. From `chkCmp` on it is in
`chk_socket_task`: before `memcmp`, before the test for `TASK_ST_Running`, before
the first assignment of `TASK_ST_Stop`, at the test of the `while`, and before the
second assignment. -/
inductive Cli where
  | idle
  | register (k : Kind) (fd : Int) (port : UInt16)
  | setBit (k : Kind) (fd : Int)
  | testInst (k : Kind) (fd : Int)
  | create (k : Kind) (fd : Int)
  | clearBit (conn : Int)
  | mark (conn : Int)
  | clearListen (socket : Int)
  | chkCmp
  | chkRunning
  | chkStop
  | waitTerm
  | setStop
deriving DecidableEq

/-- The field `cmd` of `sys` stays idle: `cli` stands for it. -/
structure State where
  sys : Sys
  cli : Cli
  /-- The sockets whose opening command has returned success and whose closing has
  not begun. -/
  served : Finset Int
  /-- The closing of the socket that is being opened has not begun since it was
  registered. -/
  live : Bool

def initial : State := ⟨RecvTask.initial, .idle, ∅, false⟩

/-! ### The task -/

/-- The socket whose closing begins: the task closes it, or finds its connection
lost. -/
def ended : Effect → Option Int
  | .unlink _ sd => some sd
  | .clearBit sd => some sd
  | _ => none

/-- The registered socket of the opening command under way. -/
def opening : Cli → Option Int
  | .setBit _ fd => some fd
  | .testInst _ fd => some fd
  | .create _ fd => some fd
  | _ => none

/-- The task has done `effect` and goes on at `pc'`. -/
def perform (s : State) (effect : Effect) (pc' : Option Pc) : State :=
  { s with
    sys := { apply s.sys effect with recvTask := pc' }
    served := s.served.filter fun sd => ended effect ≠ some sd
    live := s.live && (ended effect = none || ended effect ≠ opening s.cli) }

def stepTask (s : State) (answer : Answer) : Option State :=
  s.sys.recvTask.bind fun pc =>
    (next s.sys pc answer).map fun (effect, pc') => perform s effect pc'

/-! ### The commands that open a socket -/

/-- The common shape of the opening commands, up to `update_new_sd` or
`update_new_listen_sd`: `prepared` is that of `connect`, or of `bind` and
`listen`. -/
def openSocket (s : State) (k : Kind) (argc minArgc : Nat) (port : UInt16)
    (socket : Option Int) (prepared : Bool) : State :=
  if argc < minArgc then s
  else if port = 0 then s
  else match socket with
    | none => s
    | some fd =>
      if ¬ prepared then s
      else { s with
        sys := { s.sys with opened := insert fd s.sys.opened }
        cli := .register k fd port }

def atTcpConnect (s : State) (argc : Nat) (port : UInt16) (socket : Option Int)
    (prepared : Bool) : State :=
  openSocket s .normal argc 2 port socket prepared

def atTcpListen (s : State) (argc : Nat) (port : UInt16) (socket : Option Int)
    (prepared : Bool) : State :=
  openSocket s .listen argc 1 port socket prepared

def atUdpCreate (s : State) (argc : Nat) (port : UInt16) (socket : Option Int)
    (prepared : Bool) : State :=
  openSocket s .normal argc 1 port socket prepared

def updateNewSd (s : State) (malloc : Bool) (behind : Int) : Option State :=
  match s.cli with
  | .register k fd port =>
    some (if ¬ malloc then { s with sys := close s.sys fd, cli := .idle }
      else { s with
        sys := { s.sys with
          lists := update s.sys.lists k (insertSd behind fd (s.sys.lists k))
          port := update s.sys.port fd port }
        cli := .setBit k fd
        live := true })
  | _ => none

/-- The command returns `ERROR_SUCCESS`. -/
def succeed (s : State) (fd : Int) : State :=
  { s with cli := .idle, served := if s.live then insert fd s.served else s.served }

/-- `OS_TaskCreate`, and what follows when it fails: no task is there then that
could come between. -/
def taskCreate (s : State) (ok : Bool) : Option State :=
  match s.cli with
  | .create k fd =>
    some (if ok then succeed { s with sys := { s.sys with recvTask := some .start } } fd
      else { s with
        sys := { s.sys with
          rSet := s.sys.rSet.erase fd
          opened := s.sys.opened.erase fd
          lists := update s.sys.lists k ((s.sys.lists k).erase fd) }
        cli := .idle })
  | _ => none

/-! ### The commands that close a socket -/

/-- A command begins to close `sd`; one that names a socket of the other list will
not close it. -/
def leave (s : State) (k : Kind) (sd : Int) : State :=
  { s with served := if sd ∈ s.sys.lists k then s.served.erase sd else s.served }

def atTcpDisconnect (s : State) (argc : Nat) (conn : Int) : State :=
  if argc < 1 ∨ conn ∉ s.sys.rSet then s
  else leave { s with cli := .clearBit conn } .normal conn

def atUdpClose (s : State) (argc : Nat) (sock : Int) : State := atTcpDisconnect s argc sock

def atTcpUnlisten (s : State) (argc : Nat) (port : UInt16) (behind : Behind) : State :=
  if argc < 1 ∨ port = 0 then s
  else
    let marked := markRmListenSdByPort s.sys port behind
    if marked.1 = -1 then { s with sys := marked.2 }
    else leave { s with sys := marked.2, cli := .clearListen marked.1 } .listen marked.1

/-- The steps of the commands that depend on no call. -/
def stepCli (s : State) : Option State :=
  match s.cli with
  | .setBit k fd =>
    some { s with sys := { s.sys with rSet := insert fd s.sys.rSet }, cli := .testInst k fd }
  | .testInst k fd =>
    some (if s.sys.recvTask = none then { s with cli := .create k fd } else succeed s fd)
  | .clearBit conn =>
    some { s with sys := { s.sys with rSet := s.sys.rSet.erase conn }, cli := .mark conn }
  | .mark conn => some { s with sys := (markRmSd s.sys conn).2, cli := .chkCmp }
  | .clearListen socket =>
    some { s with sys := { s.sys with rSet := s.sys.rSet.erase socket }, cli := .chkCmp }
  | .chkCmp => some { s with cli := if s.sys.rSet = ∅ then .chkRunning else .idle }
  | .chkRunning =>
    some { s with cli := if s.sys.recvTaskSt = .running then .chkStop else .waitTerm }
  | .chkStop => some { s with sys := { s.sys with recvTaskSt := .stop }, cli := .waitTerm }
  | .waitTerm => some { s with cli := if s.sys.recvTaskSt = .term then .setStop else .waitTerm }
  | .setStop => some { s with sys := { s.sys with recvTaskSt := .stop }, cli := .idle }
  | _ => none

/-! ### The system -/

inductive Event where
  | task (answer : Answer)
  | tcpConnect (argc : Nat) (port : UInt16) (socket : Option Int) (prepared : Bool)
  | tcpListen (argc : Nat) (port : UInt16) (socket : Option Int) (prepared : Bool)
  | udpCreate (argc : Nat) (port : UInt16) (socket : Option Int) (prepared : Bool)
  | updateNewSd (malloc : Bool) (behind : Int)
  | taskCreate (ok : Bool)
  | tcpDisconnect (argc : Nat) (conn : Int)
  | udpClose (argc : Nat) (sock : Int)
  | tcpUnlisten (argc : Nat) (port : UInt16) (behind : Behind)
  | cli

/-- One command at a time; `socket` returns no descriptor that is open. -/
def Ready (s : State) (socket : Option Int) : Prop :=
  s.cli = .idle ∧ ∀ fd ∈ socket, fd ∉ s.sys.opened

instance (s : State) (socket : Option Int) : Decidable (Ready s socket) :=
  inferInstanceAs (Decidable (_ ∧ ∀ fd ∈ socket, fd ∉ s.sys.opened))

def step (s : State) : Event → Option State
  | .task answer => stepTask s answer
  | .tcpConnect argc port socket prepared =>
    if Ready s socket then some (atTcpConnect s argc port socket prepared) else none
  | .tcpListen argc port socket prepared =>
    if Ready s socket then some (atTcpListen s argc port socket prepared) else none
  | .udpCreate argc port socket prepared =>
    if Ready s socket then some (atUdpCreate s argc port socket prepared) else none
  | .updateNewSd malloc behind => updateNewSd s malloc behind
  | .taskCreate ok => taskCreate s ok
  | .tcpDisconnect argc conn => if s.cli = .idle then some (atTcpDisconnect s argc conn) else none
  | .udpClose argc sock => if s.cli = .idle then some (atUdpClose s argc sock) else none
  | .tcpUnlisten argc port behind =>
    if s.cli = .idle then some (atTcpUnlisten s argc port behind) else none
  | .cli => stepCli s

/-! ### The sockets that are served -/

/-- The termination point for the sockets of list `k`: the task has gone past the
loop that closes them. -/
def passed (k : Kind) : Pc → Bool
  | .terminate .listen => k = .normal
  | .termZero => true
  | .termSt => true
  | .termInst => true
  | _ => false

/-- A task is there that has not passed its termination point. -/
def Attended (s : State) (k : Kind) : Prop :=
  ∃ pc, s.sys.recvTask = some pc ∧ passed k pc = false

def Served (s : State) (sd : Int) : Prop :=
  sd ∈ s.sys.rSet ∧ ∃ k, sd ∈ s.sys.lists k ∧ Attended s k

/-! ### The windows -/

/-- The socket a closing command takes out of `g_r_set`, and the list it takes it
to be in. -/
def named (s : State) : Event → Option (Kind × Int)
  | .tcpDisconnect argc conn => if argc < 1 ∨ conn ∉ s.sys.rSet then none else some (.normal, conn)
  | .udpClose argc sock => if argc < 1 ∨ sock ∉ s.sys.rSet then none else some (.normal, sock)
  | .tcpUnlisten argc port behind =>
    if argc < 1 ∨ port = 0 then none
    else (listenSdByPort s.sys port behind).map fun socket => (.listen, socket)
  | _ => none

/-- The steps that avoid the windows of the code:
* `recv_task` does not start while `chk_socket_task` waits for its end;
* it does not zero `g_r_set` while the bit of a socket is set and `recv_task_inst`
  not tested yet;
* it does not set `TASK_ST_Term` between the test for `TASK_ST_Running` and the
  assignment of `TASK_ST_Stop`;
* `recv_task_inst` does not name a task past its termination point when an opening
  command tests it;
* a closing command names a socket of its own list, or one that does not count. -/
def allowed (s : State) (event : Event) : Bool :=
  match event, s.cli, s.sys.recvTask with
  | .task _, .waitTerm, some .start => false
  | .task _, .testInst _ _, some .termZero => ¬ s.live
  | .task _, .chkStop, some .termSt => false
  | .cli, .testInst k _, some pc => ¬ (s.live ∧ passed k pc)
  | event, _, _ => match named s event with
    | some (k, sd) => sd ∈ s.sys.lists k ∨ sd ∉ s.served
    | none => true

end Sv6x66.Atcmd.Serving
