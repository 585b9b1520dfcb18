import Sv6x66.Colink.StoreAgreement
import Sv6x66.Colink.TimerEvents

/-! The chain that keeps the schedule running: the delay timer fires, its
handler puts `EVENT_UP_TIMER` into the queue of `TaskKeyLed`, and the task
computes the next instant and starts the timer again. The callbacks of keys,
cloud, ping and Wi-Fi share the ten slots of the queue. -/
namespace Sv6x66.Colink.Schedule
open Sv6x66.Lib
open Sv6x66.Lib.CString
open Sv6x66.Colink.MinTime
open Sv6x66.Colink.Mytime
open Sv6x66.Colink.KeyLedQueue
open Sv6x66.Colink.TimerStore
open Sv6x66.Colink.RecvUpdate
open Sv6x66.Colink.StoreAgreement
open Sv6x66.Colink.UpdateExact

/-! ### The system -/

/-- Where `TaskKeyLed` stands: at `OS_MsgQDequeue`, with a message in hand, or
between `mytime_update_delay` and the `mytime_clean_delay` it has asked for. -/
inductive TaskKeyLed where
  | dequeue
  | handling (msgEvt : Message)
  | cleaning
deriving DecidableEq, Repr

/-- `mytime_delay_handler`: not called, about to run, or behind its
`Timer_Switch_cb`. -/
inductive DelayHandler where
  | idle
  | due
  | switched
deriving DecidableEq, Repr

structure Sys where
  m : Globals
  keyledMsgq : KeyledMsgq
  task : TaskKeyLed
  handler : DelayHandler
  /-- A callback of the cloud has changed list or clock, and is about to call
  `Timer_update_time`. -/
  cloud : Bool

def start (timerFile : Option (List ColinkAppTimer)) : Sys where
  m := powerOn timerFile
  keyledMsgq := BoundedQueue.empty
  task := .dequeue
  handler := .idle
  cloud := false

def armed (m : Globals) : Bool := m.mytimeDelayTimer.any fun timer => timer.running

inductive Event where
  /-- Any callback but `Timer_update_time`. -/
  | callback (msgEvt : Message)
  | timerFires
  | handlerSwitch
  | handlerUpdate
  | dequeue
  | handle (ticks : Ticks) (heap : Heap)
  | clean
  | recvUpdate (heap : Heap) (jsonRoot : Option CJson)
  | utc (timestr : Bytes) (tick : UInt32)
  | cloudUpdate
  | setting

def Sys.enqueue (s : Sys) (msgEvt : Message) : Sys :=
  { s with keyledMsgq := osMsgQEnqueue s.keyledMsgq msgEvt }

/-- `mytime_delay_handler` up to its `Timer_update_time`. -/
def handlerSwitch (s : Sys) : Sys :=
  if s.m.apTimerList = none then { s with handler := .idle }
  else
    let s := if s.m.mytimeState = .delay then
        s.enqueue (timerSwitchCb (if s.m.doSwitch ≠ 0 then 1 else 0))
      else s
    { s with handler := .switched }

/-- `case EVENT_UP_TIMER`, up to `mytime_clean_delay`. -/
def handleUpTimer (s : Sys) (ticks : Ticks) : Option Sys := do
  let update ← mytimeUpdateDelay s.m ticks
  let s := match update.timerSwitch with
    | none => s
    | some open_ => s.enqueue (.swTimer open_)
  return { s with
    m := update.state
    task := if update.retval ≠ 0 then .cleaning else .dequeue }

/-- The other events, as far as they touch the schedule. -/
def handleOther (m : Globals) (heap : Heap) : Message → Globals
  | .connect true => mytimeStart m heap
  | .devStatus status => eventDevStatus m status
  | _ => m

/-- A callback of the cloud calls `Timer_update_time` last, if at all. -/
def cloudCallback (s : Sys) (result : Globals × List Message) : Sys :=
  { s with m := result.1, cloud := decide (timerUpdateTime ∈ result.2) }

def step [AtoiBeyond] (s : Sys) : Event → Option Sys
  | .callback msgEvt => if msgEvt = timerUpdateTime then none else some (s.enqueue msgEvt)
  | .timerFires =>
    if armed s.m ∧ s.handler = .idle then
      some { s with m := delayTimerExpires s.m, handler := .due }
    else none
  | .handlerSwitch => if s.handler = .due then some (handlerSwitch s) else none
  | .handlerUpdate =>
    if s.handler = .switched then some { s.enqueue timerUpdateTime with handler := .idle }
    else none
  | .dequeue =>
    if s.task = .dequeue then
      match s.keyledMsgq.dequeue 1 with
      | ([msgEvt], keyledMsgq) => some { s with keyledMsgq, task := .handling msgEvt }
      | _ => none
    else none
  | .handle ticks heap =>
    match s.task with
    | .handling .upTimer => handleUpTimer s ticks
    | .handling msgEvt => some { s with m := handleOther s.m heap msgEvt, task := .dequeue }
    | _ => none
  | .clean =>
    if s.task = .cleaning then some { s with m := mytimeCleanDelay s.m, task := .dequeue }
    else none
  | .recvUpdate heap jsonRoot =>
    if s.cloud then none else (colinkRecvUpdate s.m heap jsonRoot).map (cloudCallback s)
  | .utc timestr tick =>
    if s.cloud then none else (colinkUtcStr s.m timestr tick).map (cloudCallback s)
  | .cloudUpdate =>
    if s.cloud then some { s.enqueue timerUpdateTime with cloud := false } else none
  | .setting => some { s with m := colinkSettingTask s.m }

/-! ### The links of the chain -/

def TaskKeyLed.UpTimer : TaskKeyLed → Prop
  | .handling msgEvt => msgEvt = .upTimer
  | .cleaning => True
  | .dequeue => False

/-- The links that do not rest on a caller of `Timer_update_time`. -/
def Covered (s : Sys) : Prop :=
  armed s.m = true ∨ .upTimer ∈ s.keyledMsgq.items ∨ s.task.UpTimer

/-- Nothing to run, or one link of the chain is there. -/
def Alive (s : Sys) : Prop :=
  Waiting s.m ∨ Covered s ∨ s.handler ≠ .idle ∨ s.cloud = true

/-- Some timer of the list acts after the time a reading of the clock gives. -/
def FutureEvent (m : Globals) (ticks : Ticks) : Prop :=
  ∃ t ∈ ramList m, ∃ instant action, TimerEvents.Event t instant action ∧ clock m ticks < instant

/-- With a clock that is set and an event to come, the timer is armed, its handler
is about to run, or `EVENT_UP_TIMER` is in the queue or being handled. -/
def KeepsRunning (s : Sys) : Prop :=
  s.m.mytimeState ≠ .idle → s.m.mytimeState ≠ .sntping → (∃ ticks, FutureEvent s.m ticks) →
    armed s.m = true ∨ s.handler ≠ .idle ∨ .upTimer ∈ s.keyledMsgq.items ∨ s.task.UpTimer

/-- A call of `Timer_update_time` finds a free slot, or is not needed: another
link is there already. -/
def NotLost (s : Sys) : Event → Prop
  | .handlerUpdate => s.keyledMsgq.items.length = keyledMsglen →
      Waiting s.m ∨ Covered s ∨ s.cloud = true
  | .cloudUpdate => s.keyledMsgq.items.length = keyledMsglen →
      Waiting s.m ∨ Covered s ∨ s.handler ≠ .idle
  | _ => True

/-- The delay timer exists from `mytime_start` on. -/
def TimerCreated (m : Globals) : Prop := m.mytimeState ≠ .idle → m.mytimeDelayTimer.isSome

structure Inv (s : Sys) : Prop where
  alive : Alive s
  created : TimerCreated s.m

theorem waiting_of_ramList {m : Globals} {t : ColinkAppTimer} (h : t ∈ ramList m) :
    m.apTimerList ≠ none ∧ 0 < m.timerNum := by
  unfold ramList at h
  cases hlist : m.apTimerList with
  | none =>
    rw [hlist] at h
    cases h
  | some apTime =>
    rw [hlist] at h
    refine ⟨by simp, ?_⟩
    by_contra hnum
    have hzero : m.timerNum.toNat = 0 := by omega
    simp [hzero] at h

/-- While no callback of the cloud runs, one of the four links of `KeepsRunning` is there. -/
theorem Alive.keepsRunning {s : Sys} (h : Alive s) (hcloud : s.cloud = false) :
    KeepsRunning s := by
  intro hidle hsntping hevent
  obtain ⟨ticks, t, ht, -⟩ := hevent
  obtain ⟨hlist, hnum⟩ := waiting_of_ramList ht
  have hbusy : ¬ Waiting s.m := by
    unfold Waiting
    rw [not_or, not_or, not_or]
    exact ⟨hlist, by omega, hidle, hsntping⟩
  rcases h with hwaiting | hcovered | hhandler | hcalling
  · exact absurd hwaiting hbusy
  · rcases hcovered with harmed | hqueued | hhandled
    · exact Or.inl harmed
    · exact Or.inr (Or.inr (Or.inl hqueued))
    · exact Or.inr (Or.inr (Or.inr hhandled))
  · exact Or.inr (Or.inl hhandler)
  · rw [hcloud] at hcalling
    cases hcalling

/-! ### One step -/

/-- Sending a message leaves every link in place. -/
theorem Covered.enqueue {s : Sys} (h : Covered s) (msgEvt : Message) :
    Covered (s.enqueue msgEvt) := by
  rcases h with harmed | hqueued | hhandled
  · exact Or.inl harmed
  · exact Or.inr (Or.inl (mem_osMsgQEnqueue_of_mem hqueued msgEvt))
  · exact Or.inr (Or.inr hhandled)

theorem Alive.enqueue {s : Sys} (h : Alive s) (msgEvt : Message) : Alive (s.enqueue msgEvt) := by
  rcases h with hwaiting | hcovered | hother
  · exact Or.inl hwaiting
  · exact Or.inr (Or.inl (hcovered.enqueue msgEvt))
  · exact Or.inr (Or.inr hother)

/-- Another state of the service with the same list, clock state and delay timer
loses no link. -/
theorem Alive.frame {s : Sys} {m' : Globals} (h : Alive s)
    (hlist : m'.apTimerList = s.m.apTimerList) (hnum : m'.timerNum = s.m.timerNum)
    (hstate : m'.mytimeState = s.m.mytimeState)
    (htimer : m'.mytimeDelayTimer = s.m.mytimeDelayTimer) : Alive { s with m := m' } := by
  rcases h with hwaiting | hcovered | hother
  · unfold Waiting at hwaiting
    rw [← hlist, ← hnum, ← hstate] at hwaiting
    exact Or.inl hwaiting
  · apply Or.inr
    apply Or.inl
    unfold Covered armed at *
    rw [← htimer] at hcovered
    exact hcovered
  · exact Or.inr (Or.inr hother)

theorem TimerCreated.frame {m m' : Globals} (h : TimerCreated m)
    (hstate : m.mytimeState = .idle → m'.mytimeState = .idle)
    (htimer : m.mytimeDelayTimer.isSome → m'.mytimeDelayTimer.isSome) : TimerCreated m' := by
  intro hbusy
  apply htimer
  apply h
  intro hidle
  exact hbusy (hstate hidle)

theorem TimerCreated.mytimeCleanDelay {m : Globals} (h : TimerCreated m) :
    TimerCreated (mytimeCleanDelay m) := by
  apply h.frame
  · exact id
  · intro htimer
    simpa [Mytime.mytimeCleanDelay] using htimer

/-- Without a list there is nothing to wait for. -/
theorem Inv.clean {s : Sys} (h : Inv s) (task : TaskKeyLed) :
    Inv { s with m := mytimeCleanDelay s.m, task := task } where
  alive := Or.inl (Or.inl rfl)
  created := h.created.mytimeCleanDelay

theorem Inv.enqueue {s : Sys} (h : Inv s) (msgEvt : Message) : Inv (s.enqueue msgEvt) where
  alive := h.alive.enqueue msgEvt
  created := h.created

theorem inv_timerFires {s : Sys} (h : Inv s) :
    Inv { s with m := delayTimerExpires s.m, handler := .due } where
  alive := Or.inr (Or.inr (Or.inl (by simp)))
  created := by
    apply h.created.frame
    · exact id
    · intro htimer
      simpa [delayTimerExpires] using htimer

theorem inv_handlerSwitch {s : Sys} (h : Inv s) : Inv (handlerSwitch s) := by
  unfold handlerSwitch
  split
  case isTrue hlist => exact ⟨Or.inl (Or.inl hlist), h.created⟩
  case isFalse =>
    dsimp only
    split
    · exact ⟨Or.inr (Or.inr (Or.inl (by simp))), h.created⟩
    · exact ⟨Or.inr (Or.inr (Or.inl (by simp))), h.created⟩

/-- A call of `Timer_update_time` whose message is taken, or not needed. -/
theorem alive_enqueue_upTimer {s : Sys}
    (hfull : s.keyledMsgq.items.length = keyledMsglen → Alive s) :
    Alive (s.enqueue timerUpdateTime) := by
  by_cases hlength : s.keyledMsgq.items.length = keyledMsglen
  · exact (hfull hlength).enqueue timerUpdateTime
  · have hle := s.keyledMsgq.length_le
    have hqueued := mem_osMsgQEnqueue (q := s.keyledMsgq) (by omega) timerUpdateTime
    exact Or.inr (Or.inl (Or.inr (Or.inl hqueued)))

theorem inv_handlerUpdate {s : Sys} (h : Inv s) (hkept : NotLost s .handlerUpdate) :
    Inv { s.enqueue timerUpdateTime with handler := .idle } where
  alive := by
    apply alive_enqueue_upTimer (s := { s with handler := .idle })
    intro hfull
    rcases hkept hfull with hwaiting | hcovered | hcalling
    · exact Or.inl hwaiting
    · exact Or.inr (Or.inl hcovered)
    · exact Or.inr (Or.inr (Or.inr hcalling))
  created := h.created

theorem inv_cloudUpdate {s : Sys} (h : Inv s) (hkept : NotLost s .cloudUpdate) :
    Inv { s.enqueue timerUpdateTime with cloud := false } where
  alive := by
    apply alive_enqueue_upTimer (s := { s with cloud := false })
    intro hfull
    rcases hkept hfull with hwaiting | hcovered | hhandler
    · exact Or.inl hwaiting
    · exact Or.inr (Or.inl hcovered)
    · exact Or.inr (Or.inr (Or.inl hhandler))
  created := h.created

/-- The message is in the queue until the task has it in hand. -/
theorem inv_dequeue [AtoiBeyond] {s t : Sys} (h : Inv s) (hnext : step s .dequeue = some t) :
    Inv t := by
  simp only [step] at hnext
  split at hnext
  case isFalse => cases hnext
  case isTrue htask =>
    split at hnext
    case h_2 => cases hnext
    case h_1 msgEvt keyledMsgq hdequeue =>
      cases hnext
      have hitems := s.keyledMsgq.dequeue_append 1
      rw [hdequeue] at hitems
      refine ⟨?_, h.created⟩
      rcases h.alive with hwaiting | hcovered | hother
      · exact Or.inl hwaiting
      · apply Or.inr
        apply Or.inl
        rcases hcovered with harmed | hqueued | hhandled
        · exact Or.inl harmed
        · rw [← hitems, List.singleton_append, List.mem_cons] at hqueued
          rcases hqueued with hfirst | hlater
          · exact Or.inr (Or.inr hfirst.symm)
          · exact Or.inr (Or.inl hlater)
        · rw [htask] at hhandled
          exact absurd hhandled id
      · exact Or.inr (Or.inr hother)

theorem startDelay_armed {m : Globals} (h : m.mytimeDelayTimer.isSome)
    (mytimeState : MytimeState) (periodMs : Nat) :
    armed (startDelay m mytimeState periodMs) = true := by
  obtain ⟨timer, htimer⟩ := Option.isSome_iff_exists.mp h
  unfold armed startDelay
  rw [htimer]
  rfl

/-- The task ends `EVENT_UP_TIMER` with nothing to wait for, with a request to
clean up, or with the timer started. -/
theorem inv_handleUpTimer {s t : Sys} {ticks : Ticks} (h : Inv s)
    (hnext : handleUpTimer s ticks = some t) : Inv t := by
  unfold handleUpTimer at hnext
  obtain ⟨update, hupdate, hstate⟩ := Option.bind_eq_some_iff.mp hnext
  cases hstate
  rcases mytimeUpdateDelay_cases hupdate with ⟨hwaiting, -, hsame, -⟩ |
    ⟨hbusy, hret, doSwitch, hstate⟩ | ⟨hbusy, -, doSwitch, mytimeState, periodMs, -, hstate⟩
  · rw [hsame]
    exact ⟨Or.inl hwaiting, h.created⟩
  · have hnotIdle : s.m.mytimeState ≠ .idle := fun hidle =>
      hbusy (Or.inr (Or.inr (Or.inl hidle)))
    rw [hret, hstate]
    refine ⟨Or.inr (Or.inl (Or.inr (Or.inr trivial))), ?_⟩
    apply h.created.frame
    · intro hidle
      exact absurd hidle hnotIdle
    · exact id
  · have hnotIdle : s.m.mytimeState ≠ .idle := fun hidle =>
      hbusy (Or.inr (Or.inr (Or.inl hidle)))
    have htimer : s.m.mytimeDelayTimer.isSome := h.created hnotIdle
    rw [hstate]
    constructor
    · apply Or.inr
      apply Or.inl
      apply Or.inl
      exact startDelay_armed htimer mytimeState periodMs
    · apply h.created.frame
      · intro hidle
        exact absurd hidle hnotIdle
      · intro _
        simpa [startDelay, mytimeGetTime] using htimer

/-- A message that is not `EVENT_UP_TIMER` is no link of the chain. -/
theorem Inv.release {s : Sys} (h : Inv s) (hother : ¬ s.task.UpTimer) :
    Inv { s with task := .dequeue } where
  alive := by
    rcases h.alive with hwaiting | hcovered | hlink
    · exact Or.inl hwaiting
    · apply Or.inr
      apply Or.inl
      rcases hcovered with harmed | hqueued | hhandled
      · exact Or.inl harmed
      · exact Or.inr (Or.inl hqueued)
      · exact absurd hhandled hother
    · exact Or.inr (Or.inr hlink)
  created := h.created

theorem inv_mytimeStart {s : Sys} (h : Inv s) (heap : Heap) :
    Inv { s with m := mytimeStart s.m heap } := by
  unfold mytimeStart
  split
  case isTrue => exact h
  case isFalse => exact ⟨Or.inl (Or.inr (Or.inr (Or.inr rfl))), fun _ => rfl⟩

theorem inv_eventDevStatus {s : Sys} (h : Inv s) (status : Int) :
    Inv { s with m := eventDevStatus s.m status } := by
  unfold eventDevStatus
  split
  · exact ⟨h.alive.frame rfl rfl rfl rfl, h.created⟩
  · exact h

theorem inv_handleOther {s : Sys} (h : Inv s) (heap : Heap) (msgEvt : Message) :
    Inv { s with m := handleOther s.m heap msgEvt } := by
  cases msgEvt with
  | connect con =>
    cases con with
    | true => exact inv_mytimeStart h heap
    | false => exact h
  | devStatus status => exact inv_eventDevStatus h status
  | _ => exact h

theorem inv_handle [AtoiBeyond] {s t : Sys} {ticks : Ticks} {heap : Heap} (h : Inv s)
    (hnext : step s (.handle ticks heap) = some t) : Inv t := by
  simp only [step] at hnext
  split at hnext
  case h_1 => exact inv_handleUpTimer h hnext
  case h_2 msgEvt hother htask =>
    cases hnext
    have hfree : ¬ s.task.UpTimer := by
      rw [htask]
      intro hmsg
      exact hother hmsg
    exact inv_handleOther (h.release hfree) heap msgEvt
  case h_3 => cases hnext

/-- A stored list is followed by a call of `Timer_update_time`. -/
theorem inv_recvUpdate [AtoiBeyond] {s : Sys} {heap : Heap} {jsonRoot : Option CJson}
    {result : Globals × List Message} (h : Inv s) (hcloud : s.cloud = false)
    (hnext : colinkRecvUpdate s.m heap jsonRoot = some result) : Inv (cloudCallback s result) := by
  have hsame : s = { s with cloud := false } := by rw [← hcloud]
  obtain ⟨m', sent⟩ := result
  unfold cloudCallback
  cases colinkRecvUpdate_outcome hnext with
  | same hsent =>
    rw [decide_eq_false hsent, ← hsame]
    exact h
  | clean => exact ⟨Or.inl (Or.inl rfl), h.created.mytimeCleanDelay⟩
  | store hsent => exact ⟨Or.inr (Or.inr (Or.inr (decide_eq_true hsent))), h.created⟩
  | noMemory => exact ⟨Or.inl (Or.inl rfl), h.created⟩

/-- So is a clock that is set for the first time. -/
theorem inv_utc [AtoiBeyond] {s : Sys} {timestr : Bytes} {tick : UInt32}
    {result : Globals × List Message} (h : Inv s) (hcloud : s.cloud = false)
    (hnext : colinkUtcStr s.m timestr tick = some result) : Inv (cloudCallback s result) := by
  have hsame : s = { s with cloud := false } := by rw [← hcloud]
  unfold colinkUtcStr at hnext
  obtain ⟨value, -, hnext⟩ := Option.bind_eq_some_iff.mp hnext
  unfold cloudCallback
  split at hnext
  · cases hnext
    rw [decide_eq_false List.not_mem_nil, ← hsame]
    exact h
  · dsimp only at hnext
    split at hnext
    case isTrue hsntping =>
      cases hnext
      refine ⟨Or.inr (Or.inr (Or.inr (by simp))), ?_⟩
      apply h.created.frame
      · intro hidle
        exact absurd (hidle.symm.trans hsntping) (by decide)
      · exact id
    case isFalse =>
      cases hnext
      rw [decide_eq_false List.not_mem_nil]
      rw [hsame] at h
      exact ⟨h.alive.frame rfl rfl rfl rfl, h.created⟩

theorem inv_step [AtoiBeyond] {s t : Sys} {event : Event} (h : Inv s) (hkept : NotLost s event)
    (hnext : step s event = some t) : Inv t := by
  cases event with
  | callback msgEvt =>
    simp only [step] at hnext
    split at hnext
    · cases hnext
    · cases hnext
      exact h.enqueue msgEvt
  | timerFires =>
    simp only [step] at hnext
    split at hnext
    · cases hnext
      exact inv_timerFires h
    · cases hnext
  | handlerSwitch =>
    simp only [step] at hnext
    split at hnext
    · cases hnext
      exact inv_handlerSwitch h
    · cases hnext
  | handlerUpdate =>
    simp only [step] at hnext
    split at hnext
    · cases hnext
      exact inv_handlerUpdate h hkept
    · cases hnext
  | dequeue => exact inv_dequeue h hnext
  | handle ticks heap => exact inv_handle h hnext
  | clean =>
    simp only [step] at hnext
    split at hnext
    · cases hnext
      exact h.clean .dequeue
    · cases hnext
  | recvUpdate heap jsonRoot =>
    simp only [step] at hnext
    split at hnext
    · cases hnext
    case isFalse hcloud =>
      obtain ⟨result, hresult, rfl⟩ := Option.map_eq_some_iff.mp hnext
      exact inv_recvUpdate h (by simpa using hcloud) hresult
  | utc timestr tick =>
    simp only [step] at hnext
    split at hnext
    · cases hnext
    case isFalse hcloud =>
      obtain ⟨result, hresult, rfl⟩ := Option.map_eq_some_iff.mp hnext
      exact inv_utc h (by simpa using hcloud) hresult
  | cloudUpdate =>
    simp only [step] at hnext
    split at hnext
    · cases hnext
      exact inv_cloudUpdate h hkept
    · cases hnext
  | setting =>
    cases hnext
    exact h.clean s.task

/-- In a run that loses no needed `EVENT_UP_TIMER` the schedule keeps running. -/
theorem keepsRunning_of_run [AtoiBeyond] {timerFile : Option (List ColinkAppTimer)}
    {events : List Event} {s : Sys} (hrun : Run step NotLost (start timerFile) events s)
    (hcloud : s.cloud = false) : KeepsRunning s := by
  have hstart : Inv (start timerFile) :=
    ⟨Or.inl (Or.inl rfl), fun hbusy => absurd rfl hbusy⟩
  have hinv : Inv s := hrun.invariant (I := Inv) hstart
    fun s event t hs hkept hnext => inv_step hs hkept hnext
  exact hinv.alive.keepsRunning hcloud

/-! ### Lost messages -/

theorem keepsRunning_links {s : Sys} (hbusy : ¬ Waiting s.m)
    (hevent : ∃ ticks, FutureEvent s.m ticks) (h : KeepsRunning s) :
    Covered s ∨ s.handler ≠ .idle := by
  have hidle : s.m.mytimeState ≠ .idle := fun hidle => hbusy (Or.inr (Or.inr (Or.inl hidle)))
  have hsntping : s.m.mytimeState ≠ .sntping := fun hsntping =>
    hbusy (Or.inr (Or.inr (Or.inr hsntping)))
  rcases h hidle hsntping hevent with harmed | hhandler | hqueued | hhandled
  · exact Or.inl (Or.inl harmed)
  · exact Or.inr hhandler
  · exact Or.inl (Or.inr (Or.inl hqueued))
  · exact Or.inl (Or.inr (Or.inr hhandled))

/-- The handler of the delay timer is the last link: when its message is lost
nothing is left to start the timer again. -/
theorem lost_call_stops [AtoiBeyond] {s t : Sys} (hlost : ¬ NotLost s .handlerUpdate)
    (hnext : step s .handlerUpdate = some t) (hevent : ∃ ticks, FutureEvent t.m ticks) :
    ¬ KeepsRunning t := by
  intro hkeeps
  apply hlost
  intro hfull
  have hdropped : s.enqueue timerUpdateTime = s := by
    unfold Sys.enqueue
    rw [osMsgQEnqueue_full hfull]
  simp only [step, hdropped] at hnext
  split at hnext
  · cases hnext
    by_cases hwaiting : Waiting s.m
    · exact Or.inl hwaiting
    · have hlinks := keepsRunning_links (s := { s with handler := .idle }) hwaiting hevent hkeeps
      cases hlinks with
      | inl hcovered => exact Or.inr (Or.inl hcovered)
      | inr hhandler => exact absurd rfl hhandler
  · cases hnext

/-- `Timer_update_time` is only called while the queue has a free slot. -/
def freeSlot (s : Sys) : Event → Bool
  | .handlerUpdate | .cloudUpdate => s.keyledMsgq.items.length ≠ keyledMsglen
  | _ => true

theorem NotLost.of_freeSlot {s : Sys} {event : Event} (h : freeSlot s event = true) :
    NotLost s event := by
  cases event with
  | handlerUpdate =>
    intro hfull
    simp [freeSlot, hfull] at h
  | cloudUpdate =>
    intro hfull
    simp [freeSlot, hfull] at h
  | _ => trivial

local instance : AtoiBeyond := saturating

def startTicks : Ticks := ⟨0, 0, 0⟩

/-- A device that connects, gets a lamp for October and learns that it is June:
the delay timer is started for a week. -/
def lampEvents : List Event := [
  .callback (wifiStatusCb 1), .dequeue, .handle startTicks (evenHeap true),
  .recvUpdate (evenHeap true) (some (cloudRoot [lampEntry])), .cloudUpdate,
  .dequeue, .handle startTicks (evenHeap true),
  .utc (ofString "2018-06-01T00:00:00.000Z") 0, .cloudUpdate,
  .dequeue, .handle startTicks (evenHeap true)]

/-- The task is busy with one second, the next ten fill the queue, and the timer
fires. -/
def busyEvents : List Event :=
  [.callback cycle1secHandler, .dequeue] ++
    List.replicate 10 (.callback cycle1secHandler) ++ [.timerFires, .handlerSwitch, .handlerUpdate]

theorem keepsRunning_of_run_lamp :
    ∃ s, Run step NotLost (start none) lampEvents s ∧ KeepsRunning s := by
  have hexec : (exec (guarded step freeSlot) (start none) lampEvents).any
      (fun s => s.cloud = false) = true := by
    decide
  obtain ⟨s, hs, hcloud⟩ := Option.any_eq_true _ _ |>.mp hexec
  have hrun : Run step NotLost (start none) lampEvents s :=
    (Run.of_exec_guarded hs).mono fun _ _ h => NotLost.of_freeSlot h
  exact ⟨s, hrun, keepsRunning_of_run hrun (of_decide_eq_true hcloud)⟩

/-- No second of `busyEvents` is out of the ordinary, but the message of the
handler is dropped, and the lamp is never switched on. -/
theorem full_queue_stops_schedule :
    ∃ s, Run step anyStep (start none) (lampEvents ++ busyEvents) s ∧ s.cloud = false ∧
      ¬ KeepsRunning s := by
  have hexec : (exec step (start none) (lampEvents ++ busyEvents)).any (fun s =>
      s.cloud = false ∧ s.m.mytimeState = .oneWeek ∧ armed s.m = false ∧ s.handler = .idle ∧
        .upTimer ∉ s.keyledMsgq.items ∧ s.task = .handling .sec01 ∧
        ramList s.m = [timerOf lampEntry] ∧ clock s.m startTicks < 1538977560) = true := by
    decide
  obtain ⟨s, hs, hstate⟩ := Option.any_eq_true _ _ |>.mp hexec
  obtain ⟨hcloud, hweek, harmed, hhandler, hqueued, htask, hram, hclock⟩ :=
    of_decide_eq_true hstate
  have hlamp : (timerOf lampEntry).type = colinkTypeOnce ∧
      (timerOf lampEntry).atTime.toNat = 1538977560 := by
    decide
  refine ⟨s, Run.of_exec hs, hcloud, ?_⟩
  intro hkeeps
  have hevent : FutureEvent s.m startTicks := by
    refine ⟨timerOf lampEntry, by rw [hram]; exact List.mem_singleton_self _, _, _,
      TimerEvents.Event.once hlamp.1, ?_⟩
    rw [hlamp.2]
    exact hclock
  rcases hkeeps (by rw [hweek]; decide) (by rw [hweek]; decide) ⟨_, hevent⟩ with
    hlink | hlink | hlink | hlink
  · rw [harmed] at hlink
    cases hlink
  · exact hlink hhandler
  · exact hqueued hlink
  · rw [htask] at hlink
    cases hlink

end Sv6x66.Colink.Schedule
