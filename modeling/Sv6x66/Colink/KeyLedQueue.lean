import Mathlib.Tactic
import Sv6x66.Lib.BoundedQueue

/-! The message queue of `TaskKeyLed` in `key_led.c` and the callbacks that fill
it. None of them looks at what `OS_MsgQEnqueue` returns. -/
namespace Sv6x66.Colink.KeyLedQueue
open Sv6x66.Lib

def keyledMsglen : Nat := 10

/-- `MsgCmd` with the data that goes with it. -/
inductive Message where
  | devKey (key : Nat)
  | connect (con : Bool)
  | switch (open_ : Bool)
  | sec01
  | swTimer (open_ : Bool)
  | upTimer
  | devStatus (status : Int)
  | ping114 (answered : Bool)
  | bright (value : Int)
  | flhMode (mode : Int)
deriving DecidableEq, Repr

abbrev KeyledMsgq := BoundedQueue Message keyledMsglen

/-- A message that finds the queue full is dropped. -/
def osMsgQEnqueue (keyledMsgq : KeyledMsgq) (msgEvt : Message) : KeyledMsgq :=
  (keyledMsgq.enqueue msgEvt).getD keyledMsgq

def cycle1secHandler : Message := .sec01

def ctrlSwitchCb (on : Int) : Message := .switch (on ≠ 0)

def timerSwitchCb (on : Int) : Message := .swTimer (on ≠ 0)

def timerUpdateTime : Message := .upTimer

def ctrlBrightCb (bright : Int) : Message := .bright bright

def ctrlFlashmodeCb (mode : Int) : Message := .flhMode mode

def wifiStatusCb (connect : Int) : Message := .connect (connect ≠ 0)

def devStatusNotifyCb (status : Int) : Message := .devStatus status

def pingNotifyCb (ping recv : Nat) : Message := .ping114 ¬(ping ≠ 0 ∧ recv = 0)

theorem mem_osMsgQEnqueue_of_mem {q : KeyledMsgq} {message : Message} (h : message ∈ q.items)
    (other : Message) : message ∈ (osMsgQEnqueue q other).items := by
  unfold osMsgQEnqueue
  cases hnext : q.enqueue other with
  | none => exact h
  | some q' =>
    rw [Option.getD_some, BoundedQueue.enqueue_items hnext]
    exact List.mem_append_left _ h

theorem mem_osMsgQEnqueue {q : KeyledMsgq} (h : q.items.length < keyledMsglen)
    (message : Message) : message ∈ (osMsgQEnqueue q message).items := by
  obtain ⟨q', hnext, hitems⟩ := BoundedQueue.enqueue_of_lt h message
  unfold osMsgQEnqueue
  rw [hnext, Option.getD_some, hitems]
  exact List.mem_append_right _ (List.mem_singleton_self _)

theorem osMsgQEnqueue_full {q : KeyledMsgq} (h : q.items.length = keyledMsglen)
    (message : Message) : osMsgQEnqueue q message = q := by
  unfold osMsgQEnqueue
  rw [BoundedQueue.enqueue_of_full h]
  rfl

end Sv6x66.Colink.KeyLedQueue
