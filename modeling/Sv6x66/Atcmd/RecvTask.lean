import Sv6x66.Atcmd.SocketOrder

/-! `recv_task` of `atcmd_tcpip.c` and the AT commands around it. The task goes
in small steps, and so do the commands that close a socket; a command that opens
one is a single step. The lists are the sequences of registered sockets, changed
as `SocketOrder.effect` says. -/
namespace Sv6x66.Atcmd.RecvTask
open Sv6x66.Lib Function SocketList SocketOrder

/-- `enum task_st`. -/
inductive TaskSt where
  | term
  | stop
  | running
deriving DecidableEq, Repr

/-- Where `recv_task` stands. `item`, `next` and `closeitem` are nodes, named by
their sockets; no `item` is the list head. `ready` is `r_set` after `select`. -/
inductive Pc where
  | start
  | loopTest
  | zero
  | max
  | copy
  | select (rSet : Finset Int)
  | timeout
  | tItem (k : Kind) (item : Option Int)
  | tCheck (k : Kind) (item : Int) (next : Option Int)
  | tRemove (k : Kind) (item : Int) (next : Option Int)
  | stopTest
  | aItem (ready : Finset Int) (k : Kind) (item closeitem : Option Int)
  | aFormer (ready : Finset Int) (k : Kind) (item : Int) (closeitem : Option Int)
  | aCheck (ready : Finset Int) (k : Kind) (item : Int)
  | aReady (ready : Finset Int) (k : Kind) (item : Int)
  | aNew (ready : Finset Int) (item forksocket : Int)
  | aSetBit (ready : Finset Int) (item forksocket : Int)
  | aNext (ready : Finset Int) (k : Kind) (item : Int) (closeitem : Option Int)
  | aTail (ready : Finset Int) (k : Kind) (closeitem : Option Int)
  | terminate (k : Kind)
  | termZero
  | termSt
  | termInst
deriving DecidableEq

/-- Where a closing command stands: before `FD_CLR`, before `mark_rm_sd`, in
`At_TCPUnlisten` before `FD_CLR`, or in `chk_socket_task`. -/
inductive Cmd where
  | idle
  | clearBit (conn : Int)
  | mark (conn : Int)
  | clearListen (socket : Int)
  | chkSocketTask
  | waitTerm
deriving DecidableEq

structure Sys where
  lists : Kind → List Int
  port : Int → UInt16
  rSet : Finset Int
  clrSet : Finset Int
  maxSd : Int
  recvTaskSt : TaskSt
  /-- The task `recv_task_inst` names. -/
  recvTask : Option Pc
  cmd : Cmd
  /-- The descriptors obtained and not closed yet. -/
  opened : Finset Int
  /-- The registered sockets marked while the task was running, until they are
  removed. -/
  pending : Finset Int

def initial : Sys where
  lists := fun _ => []
  port := fun _ => 0
  rSet := ∅
  clrSet := ∅
  maxSd := -1
  recvTaskSt := .stop
  recvTask := none
  cmd := .idle
  opened := ∅
  pending := ∅

/-! ### The task -/

/-- `item->next`. -/
def succ (l : List Int) (item : Int) : Option Int := (l.dropWhile (· ≠ item)).tail.head?

inductive Errno where
  | notConn
  | connReset
  | connAborted
  | other
deriving DecidableEq

/-- What the call of a step returns: `select`, `accept`, `malloc` with the word
behind the list head, or all `recv` calls on one socket. -/
inductive Answer where
  | none
  | selectError
  | selectTimeout
  | selectReady (ready : Finset Int)
  | accept (forksocket : Option Int)
  | malloc (ok : Bool) (behind : Int)
  | recv (readlens : List Int) (errno : Errno)

def bufSize : Int := 256

/-- The `readlen` that ends the receive loop. -/
def lastReadlen : List Int → Option Int
  | [] => none
  | readlen :: rest =>
    if readlen > 0 ∧ ¬ readlen < bufSize then lastReadlen rest else some readlen

def connectionLost (readlen : Int) (errno : Errno) : Bool :=
  readlen ≤ 0 && (errno == .notConn || errno == .connReset || errno == .connAborted)

/-- What a step of the task does to the shared state. `unlink` is
`list_q_remove`, `close` and `free`. -/
inductive Effect where
  | keep
  | setRunning
  | zeroClr
  | updateMaxSd
  | unlink (k : Kind) (sd : Int)
  | accepted (forksocket : Int)
  | register (forksocket behind : Int)
  | setBit (sd : Int)
  | clearBit (sd : Int)
  | zeroR
  | setTerm

def unlinkFormer (k : Kind) : Option Int → Effect
  | none => .keep
  | some closeitem => .unlink k closeitem

/-- The next step of `recv_task`, and where it stands afterwards. -/
def next (s : Sys) : Pc → Answer → Option (Effect × Option Pc)
  | .start, .none => some (.setRunning, some .loopTest)
  | .loopTest, .none =>
    some (.keep, some (if s.recvTaskSt = .running then .zero else .terminate .normal))
  | .zero, .none => some (.zeroClr, some .max)
  | .max, .none => some (.updateMaxSd, some .copy)
  | .copy, .none => some (.keep, some (.select s.rSet))
  | .select _, .selectError => some (.keep, some (.terminate .normal))
  | .select _, .selectTimeout => some (.keep, some .timeout)
  | .select rSet, .selectReady ready =>
    if ready ⊆ rSet.filter (· ≤ s.maxSd) then
      some (.keep, some (.aItem ready .listen (s.lists .listen).head? none))
    else none
  | .timeout, .none =>
    some (.keep, some (if s.clrSet ≠ ∅ then .tItem .listen (s.lists .listen).head? else .stopTest))
  | .tItem .listen none, .none => some (.keep, some (.tItem .normal (s.lists .normal).head?))
  | .tItem .normal none, .none => some (.keep, some .stopTest)
  | .tItem k (some sd), .none => some (.keep, some (.tCheck k sd (succ (s.lists k) sd)))
  | .tCheck k sd after, .none =>
    some (.keep, some (if sd ∈ s.clrSet then .tRemove k sd after else .tItem k after))
  | .tRemove k sd after, .none => some (.unlink k sd, some (.tItem k after))
  | .stopTest, .none =>
    some (.keep, some (if s.recvTaskSt ≠ .running then .terminate .normal else .loopTest))
  | .aItem ready k none closeitem, .none => some (.keep, some (.aTail ready k closeitem))
  | .aItem ready k (some sd) closeitem, .none => some (.keep, some (.aFormer ready k sd closeitem))
  | .aFormer ready k sd closeitem, .none =>
    some (unlinkFormer k closeitem, some (.aCheck ready k sd))
  | .aCheck ready k sd, .none =>
    some (.keep, some (if sd ∈ s.clrSet then .aNext ready k sd (some sd) else .aReady ready k sd))
  | .aReady ready k sd, .none =>
    if sd ∈ ready then none else some (.keep, some (.aNext ready k sd none))
  | .aReady ready .listen sd, .accept none =>
    if sd ∈ ready then some (.keep, some (.aNext ready .listen sd none)) else none
  | .aReady ready .listen sd, .accept (some forksocket) =>
    if sd ∈ ready ∧ forksocket ∉ s.opened then
      some (.accepted forksocket, some (.aNew ready sd forksocket))
    else none
  | .aReady ready .normal sd, .recv readlens errno =>
    if sd ∈ ready then
      (lastReadlen readlens).map fun readlen =>
        if connectionLost readlen errno then (.clearBit sd, some (.aNext ready .normal sd (some sd)))
        else (.keep, some (.aNext ready .normal sd none))
    else none
  | .aNew ready sd forksocket, .malloc ok behind =>
    some (if ok then (.register forksocket behind, some (.aSetBit ready sd forksocket))
      else (.keep, some (.aNext ready .listen sd none)))
  | .aSetBit ready sd forksocket, .none =>
    some (.setBit forksocket, some (.aNext ready .listen sd none))
  | .aNext ready k sd closeitem, .none =>
    some (.keep, some (.aItem ready k (succ (s.lists k) sd) closeitem))
  | .aTail ready .listen closeitem, .none =>
    some (unlinkFormer .listen closeitem,
      some (.aItem ready .normal (s.lists .normal).head? none))
  | .aTail _ .normal closeitem, .none => some (unlinkFormer .normal closeitem, some .loopTest)
  | .terminate k, .none =>
    some (match (s.lists k).head?, k with
      | some sd, _ => (.unlink k sd, some (.terminate k))
      | none, .normal => (.keep, some (.terminate .listen))
      | none, .listen => (.keep, some .termZero))
  | .termZero, .none => some (.zeroR, some .termSt)
  | .termSt, .none => some (.setTerm, some .termInst)
  | .termInst, .none => some (.keep, none)
  | _, _ => none

/-- `update_max_sd`: the last node of each list. -/
def maxOf (s : Sys) : Int :=
  max (max s.maxSd ((s.lists .normal).getLastD s.maxSd)) ((s.lists .listen).getLastD s.maxSd)

def apply (s : Sys) : Effect → Sys
  | .keep => s
  | .setRunning => { s with recvTaskSt := .running }
  | .zeroClr => { s with clrSet := ∅ }
  | .updateMaxSd => { s with maxSd := maxOf s }
  | .unlink k sd =>
    { s with
      lists := update s.lists k ((s.lists k).erase sd)
      opened := s.opened.erase sd
      pending := s.pending.erase sd }
  | .accepted forksocket => { s with opened := insert forksocket s.opened }
  | .register forksocket behind =>
    { s with lists := update s.lists .normal (insertSd behind forksocket (s.lists .normal)) }
  | .setBit sd => { s with rSet := insert sd s.rSet }
  | .clearBit sd => { s with rSet := s.rSet.erase sd }
  | .zeroR => { s with rSet := ∅ }
  | .setTerm => { s with recvTaskSt := .term }

def stepTask (s : Sys) (answer : Answer) : Option Sys :=
  s.recvTask.bind fun pc =>
    (next s pc answer).map fun (effect, pc') => { apply s effect with recvTask := pc' }

/-! ### The commands that open a socket -/

inductive Ret where
  | success
  | invalidParameter
  | tcpConnection
  | udpConnection
deriving DecidableEq, Repr

/-- What the calls of an opening command return: `prepared` is that of `connect`,
or of `bind` and `listen`. -/
structure Calls where
  socket : Option Int
  prepared : Bool
  malloc : Bool
  behind : Int
  taskCreate : Bool

def close (s : Sys) (fd : Int) : Sys := { s with opened := s.opened.erase fd }

/-- From `update_new_sd` or `update_new_listen_sd` on; a failure returns
`error`. -/
def serve (s : Sys) (k : Kind) (fd : Int) (port : UInt16) (calls : Calls) (error : Ret) :
    Ret × Sys :=
  if ¬ calls.malloc then (error, close s fd)
  else
    let s := { s with
      lists := update s.lists k (insertSd calls.behind fd (s.lists k))
      port := update s.port fd port }
    let s := { s with rSet := insert fd s.rSet }
    if s.recvTask = none then
      if ¬ calls.taskCreate then
        let s := { s with rSet := s.rSet.erase fd }
        let s := close s fd
        (error, { s with lists := update s.lists k ((s.lists k).erase fd) })
      else (.success, { s with recvTask := some .start })
    else (.success, s)

/-- The common shape of the opening commands: `noSocket`, `unprepared` and
`error` are what they return when `socket`, the preparation or a later call
fails. -/
def openSocket (s : Sys) (k : Kind) (argc minArgc : Nat) (port : UInt16) (calls : Calls)
    (noSocket unprepared error : Ret) : Ret × Sys :=
  if argc < minArgc then (.invalidParameter, s)
  else if port = 0 then (.invalidParameter, s)
  else match calls.socket with
    | none => (noSocket, s)
    | some fd =>
      let s := { s with opened := insert fd s.opened }
      if ¬ calls.prepared then (unprepared, close s fd) else serve s k fd port calls error

def atTcpConnect (s : Sys) (argc : Nat) (port : UInt16) (calls : Calls) : Ret × Sys :=
  openSocket s .normal argc 2 port calls .invalidParameter .invalidParameter .tcpConnection

def atTcpListen (s : Sys) (argc : Nat) (port : UInt16) (calls : Calls) : Ret × Sys :=
  openSocket s .listen argc 1 port calls .tcpConnection .tcpConnection .tcpConnection

def atUdpCreate (s : Sys) (argc : Nat) (port : UInt16) (calls : Calls) : Ret × Sys :=
  openSocket s .normal argc 1 port calls .invalidParameter .udpConnection .udpConnection

/-! ### The commands that close a socket -/

def Registered (s : Sys) (sd : Int) : Prop := ∃ k, sd ∈ s.lists k

instance (s : Sys) (sd : Int) : Decidable (Registered s sd) :=
  decidable_of_iff (sd ∈ s.lists .listen ∨ sd ∈ s.lists .normal)
    ⟨fun h => h.elim (fun h => ⟨_, h⟩) fun h => ⟨_, h⟩, fun h => by
      obtain ⟨k, h⟩ := h
      cases k <;> simp [h]⟩

/-- The mark of `sd` counts while the task is running and `sd` is registered. -/
def Counts (s : Sys) (sd : Int) : Prop :=
  s.recvTaskSt = .running ∧ s.recvTask ≠ none ∧ Registered s sd

instance (s : Sys) (sd : Int) : Decidable (Counts s sd) :=
  inferInstanceAs (Decidable (_ ∧ _ ∧ _))

/-- `FD_SET(sd, &g_clr_set)`. -/
def setMark (s : Sys) (sd : Int) : Sys :=
  { s with
    clrSet := insert sd s.clrSet
    pending := if Counts s sd then insert sd s.pending else s.pending }

def markRmSd (s : Sys) (sd : Int) : Int × Sys :=
  if sd ∈ s.lists .normal then (sd, setMark s sd) else (-1, s)

/-- The words behind the head of the listener list, where a node has its socket
and its port. -/
structure Behind where
  socket : Int
  port : UInt16

/-- The search for the port, which looks at the head like at a node. -/
def listenSdByPort (s : Sys) (port : UInt16) (behind : Behind) : Option Int :=
  if s.lists .listen = [] then none
  else match (s.lists .listen).find? fun sd => s.port sd = port with
    | some sd => some sd
    | none => if behind.port = port then some behind.socket else none

def markRmListenSdByPort (s : Sys) (port : UInt16) (behind : Behind) : Int × Sys :=
  match listenSdByPort s port behind with
  | some socket => (socket, setMark s socket)
  | none => (-1, s)

/-- The first step of `At_TCPDisconnect` and `At_UDPClose`. -/
def atTcpDisconnect (s : Sys) (argc : Nat) (conn : Int) : Sys :=
  if argc < 1 ∨ conn ∉ s.rSet then s else { s with cmd := .clearBit conn }

def atUdpClose (s : Sys) (argc : Nat) (sock : Int) : Sys := atTcpDisconnect s argc sock

def atTcpUnlisten (s : Sys) (argc : Nat) (port : UInt16) (behind : Behind) : Sys :=
  if argc < 1 ∨ port = 0 then s
  else
    let marked := markRmListenSdByPort s port behind
    if marked.1 = -1 then marked.2 else { marked.2 with cmd := .clearListen marked.1 }

/-- The later steps of a closing command. -/
def stepCmd (s : Sys) : Option Sys :=
  match s.cmd with
  | .idle => none
  | .clearBit conn => some { s with rSet := s.rSet.erase conn, cmd := .mark conn }
  | .mark conn => some { (markRmSd s conn).2 with cmd := .chkSocketTask }
  | .clearListen socket => some { s with rSet := s.rSet.erase socket, cmd := .chkSocketTask }
  | .chkSocketTask =>
    some (if s.rSet ≠ ∅ then { s with cmd := .idle }
      else if s.recvTaskSt = .running then { s with recvTaskSt := .stop, cmd := .waitTerm }
      else { s with cmd := .waitTerm })
  | .waitTerm =>
    if s.recvTaskSt = .term then some { s with recvTaskSt := .stop, cmd := .idle } else none

/-! ### The system -/

inductive Event where
  | task (answer : Answer)
  | tcpConnect (argc : Nat) (port : UInt16) (calls : Calls)
  | tcpListen (argc : Nat) (port : UInt16) (calls : Calls)
  | udpCreate (argc : Nat) (port : UInt16) (calls : Calls)
  | tcpDisconnect (argc : Nat) (conn : Int)
  | udpClose (argc : Nat) (sock : Int)
  | tcpUnlisten (argc : Nat) (port : UInt16) (behind : Behind)
  | cmd

/-- One command at a time; `socket` returns no descriptor that is open. -/
def Ready (s : Sys) (calls : Calls) : Prop :=
  s.cmd = .idle ∧ ∀ fd ∈ calls.socket, fd ∉ s.opened

instance (s : Sys) (calls : Calls) : Decidable (Ready s calls) :=
  inferInstanceAs (Decidable (_ ∧ ∀ fd ∈ calls.socket, fd ∉ s.opened))

def step (s : Sys) : Event → Option Sys
  | .task answer => stepTask s answer
  | .tcpConnect argc port calls =>
    if Ready s calls then some (atTcpConnect s argc port calls).2 else none
  | .tcpListen argc port calls =>
    if Ready s calls then some (atTcpListen s argc port calls).2 else none
  | .udpCreate argc port calls =>
    if Ready s calls then some (atUdpCreate s argc port calls).2 else none
  | .tcpDisconnect argc conn => if s.cmd = .idle then some (atTcpDisconnect s argc conn) else none
  | .udpClose argc sock => if s.cmd = .idle then some (atUdpClose s argc sock) else none
  | .tcpUnlisten argc port behind =>
    if s.cmd = .idle then some (atTcpUnlisten s argc port behind) else none
  | .cmd => stepCmd s

end Sv6x66.Atcmd.RecvTask
