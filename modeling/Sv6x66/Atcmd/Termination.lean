import Sv6x66.Atcmd.Cursor

/-! A started `recv_task` that no longer finds `TASK_ST_Running` comes to its end:
a rank that every step of it makes smaller. -/
namespace Sv6x66.Atcmd.RecvTask
open Sv6x66.Lib Function SocketList SocketOrder

/-- The nodes after `item`. -/
def left (l : List Int) (item : Int) : Nat := (l.dropWhile (· ≠ item)).tail.length

/-- The nodes from `item` on. -/
def ahead (l : List Int) : Option Int → Nat
  | none => 0
  | some item => left l item + 1

/-- The part of the task, counted down to its end. -/
def part : Kind → Nat
  | .listen => 7
  | .normal => 6

/-- The part of the task, the nodes it has before it there, and its place in the
treatment of one node. -/
def rank (lists : Kind → List Int) : Pc → Nat × Nat × Nat
  | .start => (13, 0, 0)
  | .zero => (12, 0, 0)
  | .max => (11, 0, 0)
  | .copy => (10, 0, 0)
  | .select _ => (9, 0, 0)
  | .timeout => (8, 0, 0)
  | .tItem k item => (part k, ahead (lists k) item, 2)
  | .tCheck k _ next => (part k, ahead (lists k) next + 1, 1)
  | .tRemove k _ next => (part k, ahead (lists k) next + 1, 0)
  | .aItem _ k item _ => (part k, ahead (lists k) item, 6)
  | .aFormer _ k item _ => (part k, left (lists k) item + 1, 5)
  | .aCheck _ k item => (part k, left (lists k) item + 1, 4)
  | .aReady _ k item => (part k, left (lists k) item + 1, 3)
  | .aNew _ item _ => (part .listen, left (lists .listen) item + 1, 2)
  | .aSetBit _ item _ => (part .listen, left (lists .listen) item + 1, 1)
  | .aNext _ k item _ => (part k, left (lists k) item + 1, 0)
  | .aTail _ k _ => (part k, 0, 0)
  | .loopTest => (5, 0, 0)
  | .stopTest => (5, 0, 0)
  | .terminate .normal => (4, (lists .normal).length, 0)
  | .terminate .listen => (3, (lists .listen).length, 0)
  | .termZero => (2, 0, 0)
  | .termSt => (1, 0, 0)
  | .termInst => (0, 0, 0)

end Sv6x66.Atcmd.RecvTask
