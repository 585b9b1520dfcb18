import Sv6x66.Lib.CJson
import Sv6x66.Lib.FrontFill
import Sv6x66.Colink.KeyLedQueue
import Sv6x66.Colink.TimerStore
import Sv6x66.Colink.TimerText

/-! `colinkRecvUpdate`: what the cloud sends. The text is parsed by `cJSON`, so
the function starts here from the parsed items. A member of a missing item, or a
write through a `NULL` buffer, has no result. -/
namespace Sv6x66.Colink.RecvUpdate
open Sv6x66.Lib
open Sv6x66.Lib.CString
open Sv6x66.Lib.CJson
open Sv6x66.Colink.MinTime
open Sv6x66.Colink.Mytime
open Sv6x66.Colink.KeyLedQueue
open Sv6x66.Colink.TimerStore
open Sv6x66.Colink.TimerText

/-! ### The entries of `timers` -/

/-- The slot after its `memset`. -/
def blankTimer : ColinkAppTimer := ⟨0, 0, 0, 0, 0, 0, 0⟩

def readEnabled (oneTimer : Option CJson) : Option UInt8 := do
  let jsonTemp ← getObjectItem oneTimer (ofString "enabled")
  return if jsonTemp.valueint ≠ 0 then 1 else 0

def readAt (oneTimer : Option CJson) : Option Bytes := do
  (← getObjectItem oneTimer (ofString "at")).valuestring

/-- The `switch` of `do`, `startDo` or `endDo`. -/
def readSwitch (oneTimer : Option CJson) (action : Bytes) : Option UInt8 := do
  let jsonTemp ← getObjectItem (getObjectItem oneTimer action) (ofString "switch")
  return if ← jsonTemp.textIs (ofString "on") then 1 else 0

section

variable [AtoiBeyond]

def readOnce (oneTimer : Option CJson) : Option ColinkAppTimer := do
  let enable ← readEnabled oneTimer
  let atTime ← mytimeStrToTime (← readAt oneTimer)
  let startDo ← readSwitch oneTimer (ofString "do")
  return { blankTimer with type := colinkTypeOnce, enable, atTime, startDo }

def readRepeat (oneTimer : Option CJson) : Option ColinkAppTimer := do
  let enable ← readEnabled oneTimer
  let cron ← mytimeStrRepeat (← readAt oneTimer)
  let startDo ← readSwitch oneTimer (ofString "do")
  return { blankTimer with type := colinkTypeRepeat, enable, atTime := cronWord cron, startDo }

def readDuration (oneTimer : Option CJson) : Option ColinkAppTimer := do
  let enable ← readEnabled oneTimer
  let text ← readAt oneTimer
  let atTime ← mytimeStrToTime text
  let numbers ← textAt text 25
  let startDo ← readSwitch oneTimer (ofString "startDo")
  let endDo ← readSwitch oneTimer (ofString "endDo")
  return {
    type := colinkTypeDuration, enable, atTime, startDo, endDo
    cycle := UInt16.ofInt (atoiInt numbers), delay := mytimeStrDuration numbers }

/-- One round of the loop, as what it leaves in the slot. -/
def readTimer (oneTimer : Option CJson) : Option ColinkAppTimer := do
  let jsonTemp ← getObjectItem oneTimer (ofString "type")
  if ← jsonTemp.textIs (ofString "once") then readOnce oneTimer
  else if ← jsonTemp.textIs (ofString "repeat") then readRepeat oneTimer
  else if ← jsonTemp.textIs (ofString "duration") then readDuration oneTimer
  else return blankTimer

/-- `if(app_timer->type != 0) app_timer++;` -/
def advances (timer : ColinkAppTimer) : Bool := timer.type ≠ 0

/-- The loop and what follows it. The file is written from the buffer, which
`ap_timer_list` points to as well. -/
def fillBuffer (m : Globals) (heap : Heap) (timers : CJson) (timerNum : Nat) :
    Option (Globals × List Message) := do
  let m := mytimeGetBuffer m heap timerNum
  let slots ← FrontFill.fill readTimer advances
    ((List.range timerNum).map timers.getArrayItem) (m.apTimerList.getD [])
  match m.apTimerList with
  | none => return (m, [])
  | some _ =>
    return (colinkSaveTimer { m with apTimerList := some slots } slots, [timerUpdateTime])

/-- `timer_num` is a `uint8_t`. -/
def recvTimers (m : Globals) (heap : Heap) (timers : CJson) :
    Option (Globals × List Message) :=
  let timerNum := timers.getArraySize % 256
  if timerNum > 0 then fillBuffer m heap timers timerNum
  else some (mytimeCleanDelay m, [])

def recvSwitch (m : Globals) (switchP : CJson) : Option (Globals × List Message) := do
  if ← switchP.textIs (ofString "on") then return (m, [ctrlSwitchCb 1])
  else if ← switchP.textIs (ofString "off") then return (m, [ctrlSwitchCb 0])
  else return (m, [])

def recvMode (m : Globals) (switchP : CJson) : Globals × List Message :=
  if switchP.valueint = 1 then (m, [ctrlFlashmodeCb 1])
  else if switchP.valueint = 2 then (m, [ctrlFlashmodeCb 2])
  else (m, [])

/-- The state behind the call, and the messages it sends in order. -/
def colinkRecvUpdate (m : Globals) (heap : Heap) (jsonRoot : Option CJson) :
    Option (Globals × List Message) :=
  match jsonRoot with
  | none => some (m, [])
  | some _ =>
    match getObjectItem jsonRoot (ofString "switch") with
    | some switchP => recvSwitch m switchP
    | none =>
      let bright := (getObjectItem jsonRoot (ofString "bright")).toList.map fun switchP =>
        ctrlBrightCb switchP.valueint
      match getObjectItem jsonRoot (ofString "mode") with
      | some switchP =>
        let (m, sent) := recvMode m switchP
        some (m, bright ++ sent)
      | none =>
        match getObjectItem jsonRoot (ofString "timers") with
        | none => some (m, bright)
        | some timers => (recvTimers m heap timers).map fun result => (result.1, bright ++ result.2)

end

/-- The state in which a filled buffer leaves the service. -/
def stored (m : Globals) (slots : List ColinkAppTimer) (timerNum : Nat) : Globals :=
  { m with apTimerList := some slots, timerNum := timerNum, timerFile := some slots }

section Buffer

/-! The loop and what follows it, for any reading of the entries into slots. -/

variable {m : Globals} {heap : Heap} {timerNum : Nat}
  (fillSlots : List ColinkAppTimer → Option (List ColinkAppTimer))

theorem fillWith_of_block {block : Vector ColinkAppTimer timerNum}
    (hheap : heap timerNum = some block) :
    (do
      let m := mytimeGetBuffer m heap timerNum
      let slots ← fillSlots (m.apTimerList.getD [])
      match m.apTimerList with
      | none => return (m, [])
      | some _ =>
        return (colinkSaveTimer { m with apTimerList := some slots } slots, [timerUpdateTime]) :
      Option (Globals × List Message)) =
      (fillSlots block.toList).map fun slots => (stored m slots timerNum, [timerUpdateTime]) := by
  unfold mytimeGetBuffer
  simp only [hheap, Option.map_some, Option.getD_some]
  cases fillSlots block.toList <;> rfl

theorem fillWith_of_no_block (hheap : heap timerNum = none) :
    (do
      let m := mytimeGetBuffer m heap timerNum
      let slots ← fillSlots (m.apTimerList.getD [])
      match m.apTimerList with
      | none => return (m, [])
      | some _ =>
        return (colinkSaveTimer { m with apTimerList := some slots } slots, [timerUpdateTime]) :
      Option (Globals × List Message)) =
      (fillSlots []).map fun _ => ({ m with apTimerList := none, timerNum := timerNum }, []) := by
  unfold mytimeGetBuffer
  simp only [hheap, Option.map_none, Option.getD_none]
  cases fillSlots [] <;> rfl

end Buffer

theorem fillBuffer_of_block [AtoiBeyond] {m : Globals} {heap : Heap} {timers : CJson}
    {timerNum : Nat} {block : Vector ColinkAppTimer timerNum} (hheap : heap timerNum = some block) :
    fillBuffer m heap timers timerNum =
      (FrontFill.fill readTimer advances ((List.range timerNum).map timers.getArrayItem)
        block.toList).map fun slots => (stored m slots timerNum, [timerUpdateTime]) :=
  fillWith_of_block _ hheap

theorem fillBuffer_of_no_block [AtoiBeyond] {m : Globals} {heap : Heap} {timers : CJson}
    {timerNum : Nat} (hheap : heap timerNum = none) :
    fillBuffer m heap timers timerNum =
      (FrontFill.fill readTimer advances ((List.range timerNum).map timers.getArrayItem)
        []).map fun _ => ({ m with apTimerList := none, timerNum := timerNum }, []) :=
  fillWith_of_no_block _ hheap

/-! ### What a call can do -/

theorem recvSwitch_state {m m' : Globals} {switchP : CJson} {sent : List Message}
    (h : recvSwitch m switchP = some (m', sent)) : m' = m ∧ timerUpdateTime ∉ sent := by
  unfold recvSwitch at h
  obtain ⟨isOn, -, h⟩ := Option.bind_eq_some_iff.mp h
  split at h
  · cases h
    exact ⟨rfl, by decide⟩
  · obtain ⟨isOff, -, h⟩ := Option.bind_eq_some_iff.mp h
    split at h
    · cases h
      exact ⟨rfl, by decide⟩
    · cases h
      exact ⟨rfl, by decide⟩

theorem recvMode_state (m : Globals) (switchP : CJson) :
    (recvMode m switchP).1 = m ∧ timerUpdateTime ∉ (recvMode m switchP).2 := by
  unfold recvMode
  split
  · exact ⟨rfl, by simp [timerUpdateTime, ctrlFlashmodeCb]⟩
  · split
    · exact ⟨rfl, by simp [timerUpdateTime, ctrlFlashmodeCb]⟩
    · exact ⟨rfl, List.not_mem_nil⟩

/-- The buffer asked for, if one is. -/
def requested (jsonRoot : Option CJson) : Nat :=
  if (getObjectItem jsonRoot (ofString "switch")).isSome ||
      (getObjectItem jsonRoot (ofString "mode")).isSome then 0
  else
    match getObjectItem jsonRoot (ofString "timers") with
    | none => 0
    | some timers => timers.getArraySize % 256

/-- What becomes of the schedule in one call. -/
inductive Outcome (m : Globals) (heap : Heap) (jsonRoot : Option CJson) :
    Globals → List Message → Prop where
  | same {sent} : timerUpdateTime ∉ sent → Outcome m heap jsonRoot m sent
  | clean {sent} : timerUpdateTime ∉ sent → Outcome m heap jsonRoot (mytimeCleanDelay m) sent
  | store {sent slots} : timerUpdateTime ∈ sent →
      Outcome m heap jsonRoot (stored m slots slots.length) sent
  | noMemory {sent} : timerUpdateTime ∉ sent → 0 < requested jsonRoot →
      heap (requested jsonRoot) = none →
      Outcome m heap jsonRoot
        { m with apTimerList := none, timerNum := requested jsonRoot } sent

theorem recvTimers_outcome [AtoiBeyond] {m m' : Globals} {heap : Heap} {jsonRoot : Option CJson}
    {timers : CJson} {sent bright : List Message}
    (hswitch : getObjectItem jsonRoot (ofString "switch") = none)
    (hmode : getObjectItem jsonRoot (ofString "mode") = none)
    (htimers : getObjectItem jsonRoot (ofString "timers") = some timers)
    (hbright : timerUpdateTime ∉ bright) (h : recvTimers m heap timers = some (m', sent)) :
    Outcome m heap jsonRoot m' (bright ++ sent) := by
  have hrequested : requested jsonRoot = timers.getArraySize % 256 := by
    unfold requested
    simp only [hswitch, hmode, htimers]
    rfl
  unfold recvTimers at h
  dsimp only at h
  rw [← hrequested] at h
  by_cases hpos : requested jsonRoot > 0
  · rw [if_pos hpos] at h
    cases hheap : heap (requested jsonRoot) with
    | none =>
      rw [fillBuffer_of_no_block hheap] at h
      obtain ⟨slots, -, heq⟩ := Option.map_eq_some_iff.mp h
      cases heq
      exact .noMemory (by simpa using hbright) hpos hheap
    | some block =>
      rw [fillBuffer_of_block hheap] at h
      obtain ⟨slots, hslots, heq⟩ := Option.map_eq_some_iff.mp h
      cases heq
      have hsize := FrontFill.length_fill hslots
      rw [Vector.length_toList] at hsize
      rw [← hsize]
      exact .store (List.mem_append_right _ (List.mem_singleton_self _))
  · rw [if_neg hpos] at h
    cases h
    exact .clean (by simpa using hbright)

theorem colinkRecvUpdate_outcome [AtoiBeyond] {m m' : Globals} {heap : Heap}
    {jsonRoot : Option CJson} {sent : List Message}
    (h : colinkRecvUpdate m heap jsonRoot = some (m', sent)) :
    Outcome m heap jsonRoot m' sent := by
  unfold colinkRecvUpdate at h
  cases jsonRoot with
  | none =>
    cases h
    exact .same List.not_mem_nil
  | some root =>
    dsimp only at h
    have hbright : timerUpdateTime ∉
        (getObjectItem (some root) (ofString "bright")).toList.map fun switchP =>
          ctrlBrightCb switchP.valueint := by
      simp [timerUpdateTime, ctrlBrightCb]
    split at h
    case h_1 =>
      obtain ⟨rfl, hsent⟩ := recvSwitch_state h
      exact .same hsent
    case h_2 hswitch =>
      split at h
      case h_1 switchP hmode =>
        obtain ⟨hstate, hsent⟩ := recvMode_state m switchP
        cases h
        rw [hstate]
        apply Outcome.same
        rw [List.mem_append, not_or]
        exact ⟨hbright, hsent⟩
      case h_2 hmode =>
        split at h
        · cases h
          exact .same hbright
        case h_2 timers htimers =>
          obtain ⟨result, hresult, heq⟩ := Option.map_eq_some_iff.mp h
          cases heq
          exact recvTimers_outcome hswitch hmode htimers hbright hresult

end Sv6x66.Colink.RecvUpdate
