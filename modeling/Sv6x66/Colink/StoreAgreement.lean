import Sv6x66.Lib.Run
import Sv6x66.Colink.UpdateExact

/-! The schedule in memory against the timer file, over runs of everything that
changes either of them. Provisioning and an expired schedule clear both; an
unregistered device clears the file alone. -/
namespace Sv6x66.Colink.StoreAgreement
open Sv6x66.Lib
open Sv6x66.Lib.CString
open Sv6x66.Colink.MinTime
open Sv6x66.Colink.Mytime
open Sv6x66.Colink.KeyLedQueue
open Sv6x66.Colink.TimerStore
open Sv6x66.Colink.TimerText
open Sv6x66.Colink.RecvUpdate
open Sv6x66.Colink.UpdateExact

/-! ### The other entry points -/

/-- `tick` is the reading of `OS_GetSysTick`. -/
def colinkUtcStr [AtoiBeyond] (m : Globals) (timestr : Bytes) (tick : UInt32) :
    Option (Globals × List Message) := do
  let value ← mytimeStrToTime timestr
  if value = 0 then return (m, [])
  else
    let m := { m with
      prevTick := tick.toNat
      realtimeOffset := u32 (value.toNat + 2 ^ 32 - tick.toNat / 1000) }
    if m.mytimeState = .sntping then
      return ({ m with mytimeState := .sntped }, [timerUpdateTime])
    else return (m, [])

def deviceUnregistered : Int := 2

/-- `case EVENT_DEVSTATUS`, as far as the schedule goes. -/
def eventDevStatus (m : Globals) (status : Int) : Globals :=
  if status = deviceUnregistered then colinkDeleteTimer m else m

/-- The end of `colinkSettingTask`. -/
def colinkSettingTask (m : Globals) : Globals := mytimeCleanDelay m

/-- The delay timer runs out. It is started for one shot. -/
def delayTimerExpires (m : Globals) : Globals :=
  { m with mytimeDelayTimer := m.mytimeDelayTimer.map fun timer => { timer with running := false } }

/-- Memory is lost, the file is kept. -/
def reboot (m : Globals) : Globals := powerOn m.timerFile

/-! ### Runs -/

inductive Event where
  | recvUpdate (heap : Heap) (jsonRoot : Option CJson)
  | devStatus (status : Int)
  | upTimer (ticks : Ticks)
  | delayTimer
  | setting
  | connect (heap : Heap)
  | utc (timestr : Bytes) (tick : UInt32)
  | reboot

def step [AtoiBeyond] (m : Globals) : Event → Option Globals
  | .recvUpdate heap jsonRoot => (colinkRecvUpdate m heap jsonRoot).map Prod.fst
  | .devStatus status => some (eventDevStatus m status)
  | .upTimer ticks => eventUpTimer m ticks
  | .delayTimer => some (delayTimerExpires m)
  | .setting => some (colinkSettingTask m)
  | .connect heap => some (mytimeStart m heap)
  | .utc timestr tick => (colinkUtcStr m timestr tick).map Prod.fst
  | .reboot => some (reboot m)

/-- Once `mytime_start` has run, the list in memory is the one of the file, and a
power cycle brings it back. -/
def Agree (m : Globals) : Prop :=
  m.mytimeState ≠ .idle → ramList m = fileList m ∧
    ∀ heap : Heap, (heap (fileList m).length).isSome →
      ramList (mytimeStart (reboot m) heap) = ramList m

/-- An unregistered device has no schedule in memory, and a buffer that is asked
for is there. -/
def Harmless (m : Globals) : Event → Prop
  | .devStatus status => status = deviceUnregistered → ramList m = []
  | .recvUpdate heap jsonRoot =>
    0 < requested jsonRoot → heap (requested jsonRoot) = none → fileList m = []
  | .connect heap => m.mytimeState = .idle → heap (fileList m).length = none → fileList m = []
  | _ => True

/-! ### The invariant -/

/-- Before `mytime_start` memory holds no list yet. -/
def InStep (m : Globals) : Prop :=
  ramList m = fileList m ∨ (m.mytimeState = .idle ∧ ramList m = [])

theorem InStep.agree {m : Globals} (h : InStep m) : Agree m := by
  intro hstarted
  cases h with
  | inl hsame =>
    refine ⟨hsame, ?_⟩
    intro heap hheap
    rw [hsame]
    have hgranted : heap (fileList m).length = none → fileList m = [] := by
      intro hnone
      rw [hnone] at hheap
      cases hheap
    exact ramList_mytimeStart rfl hgranted fun _ => rfl
  | inr hidle => exact absurd hidle.1 hstarted

/-- A step that leaves both copies alone, and does not go back to idle. -/
theorem InStep.frame {m m' : Globals} (h : InStep m) (hlist : m'.apTimerList = m.apTimerList)
    (hnum : m'.timerNum = m.timerNum) (hfile : m'.timerFile = m.timerFile)
    (hstate : m.mytimeState = .idle → m'.mytimeState = .idle) : InStep m' := by
  have hram := ramList_congr hlist hnum
  have hfileList := fileList_congr hfile
  cases h with
  | inl hsame => exact Or.inl (by rw [hram, hfileList, hsame])
  | inr hidle => exact Or.inr ⟨hstate hidle.1, by rw [hram, hidle.2]⟩

theorem inStep_mytimeCleanDelay (m : Globals) : InStep (mytimeCleanDelay m) := Or.inl rfl

theorem inStep_eventDevStatus {m : Globals} {status : Int} (h : InStep m)
    (hharmless : status = deviceUnregistered → ramList m = []) :
    InStep (eventDevStatus m status) := by
  unfold eventDevStatus
  split
  case isTrue hstatus => exact Or.inl (hharmless hstatus)
  case isFalse => exact h

theorem inStep_recvUpdate [AtoiBeyond] {m m' : Globals} {heap : Heap}
    {jsonRoot : Option CJson} {sent : List Message} (h : InStep m)
    (hharmless : 0 < requested jsonRoot → heap (requested jsonRoot) = none → fileList m = [])
    (hnext : colinkRecvUpdate m heap jsonRoot = some (m', sent)) : InStep m' := by
  cases colinkRecvUpdate_outcome hnext with
  | same => exact h
  | clean => exact inStep_mytimeCleanDelay m
  | store => exact Or.inl (ramList_of_some rfl rfl)
  | noMemory _ hpos hheap => exact Or.inl (hharmless hpos hheap).symm

theorem inStep_eventUpTimer {m m' : Globals} {ticks : Ticks} (h : InStep m)
    (hnext : eventUpTimer m ticks = some m') : InStep m' := by
  obtain ⟨update, hupdate, hstate⟩ := Option.bind_eq_some_iff.mp hnext
  split at hstate
  · cases hstate
    exact inStep_mytimeCleanDelay _
  case isFalse hret =>
    cases hstate
    rcases mytimeUpdateDelay_cases hupdate with ⟨-, -, hsame, -⟩ | ⟨-, hminus, -⟩ |
      ⟨hbusy, -, doSwitch, mytimeState, periodMs, -, hstarted⟩
    · rw [hsame]
      exact h
    · exact absurd hminus (by omega)
    · rw [hstarted]
      apply h.frame
      · rfl
      · rfl
      · rfl
      · intro hidle
        exact absurd (Or.inr (Or.inr (Or.inl hidle))) hbusy

theorem inStep_mytimeStart {m : Globals} {heap : Heap} (h : InStep m)
    (hharmless : m.mytimeState = .idle → heap (fileList m).length = none → fileList m = []) :
    InStep (mytimeStart m heap) := by
  by_cases hidle : m.mytimeState = .idle
  · have hnone : m.timerFile = none → ramList m = [] := by
      intro hfile
      cases h with
      | inl hsame => exact hsame.trans (fileList_of_none hfile)
      | inr hempty => exact hempty.2
    exact Or.inl ((ramList_mytimeStart hidle (hharmless hidle) hnone).trans
      (fileList_congr (timerFile_mytimeStart m heap)).symm)
  · unfold mytimeStart
    rw [if_pos hidle]
    exact h

theorem inStep_colinkUtcStr [AtoiBeyond] {m m' : Globals} {timestr : Bytes} {tick : UInt32}
    {sent : List Message} (h : InStep m)
    (hnext : colinkUtcStr m timestr tick = some (m', sent)) : InStep m' := by
  unfold colinkUtcStr at hnext
  obtain ⟨value, -, hnext⟩ := Option.bind_eq_some_iff.mp hnext
  split at hnext
  · cases hnext
    exact h
  · dsimp only at hnext
    split at hnext
    case isTrue hsntping =>
      cases hnext
      apply h.frame
      · rfl
      · rfl
      · rfl
      · intro hidle
        exact absurd (hidle.symm.trans hsntping) (by decide)
    case isFalse =>
      cases hnext
      exact h.frame rfl rfl rfl id

theorem inStep_step [AtoiBeyond] {m m' : Globals} {event : Event} (h : InStep m)
    (hharmless : Harmless m event) (hnext : step m event = some m') : InStep m' := by
  cases event with
  | recvUpdate heap jsonRoot =>
    obtain ⟨result, hresult, rfl⟩ := Option.map_eq_some_iff.mp hnext
    exact inStep_recvUpdate h hharmless hresult
  | devStatus status =>
    cases hnext
    exact inStep_eventDevStatus h hharmless
  | upTimer ticks => exact inStep_eventUpTimer h hnext
  | delayTimer =>
    cases hnext
    exact h.frame rfl rfl rfl id
  | setting =>
    cases hnext
    exact inStep_mytimeCleanDelay m
  | connect heap =>
    cases hnext
    exact inStep_mytimeStart h hharmless
  | utc timestr tick =>
    obtain ⟨result, hresult, rfl⟩ := Option.map_eq_some_iff.mp hnext
    exact inStep_colinkUtcStr h hresult
  | reboot =>
    cases hnext
    exact Or.inr ⟨rfl, rfl⟩

/-- In a run of harmless steps the two lists agree after every event, whatever
the file held at first. -/
theorem agree_of_run [AtoiBeyond] {timerFile : Option (List ColinkAppTimer)}
    {events : List Event} {m : Globals}
    (hrun : Run step Harmless (powerOn timerFile) events m) : Agree m := by
  have hinv : InStep m := hrun.invariant (I := InStep) (Or.inr ⟨rfl, rfl⟩)
    fun s event t hs hharmless hnext => inStep_step hs hharmless hnext
  exact hinv.agree

/-! ### An unregistered device -/

local instance : AtoiBeyond := saturating

/-- A cloud update with one lamp, on a device that was just started. -/
def lampUpdate : Event :=
  .recvUpdate (evenHeap true) (some (cloudRoot [lampEntry]))

def lampStored : Globals :=
  stored started [timerOf lampEntry] 1

theorem lampStored_run : Run step Harmless (powerOn none)
    [.connect (evenHeap true), lampUpdate] lampStored := by
  have hconnect : Run step Harmless (powerOn none) [.connect (evenHeap true)] started :=
    Run.nil.snoc (fun _ _ => rfl) rfl
  apply hconnect.snoc
  · intro _ hnone
    cases hnone
  · decide

theorem agree_of_run_lampStored : Agree lampStored := agree_of_run lampStored_run

/-- The device is unregistered: the lamp is still in memory, and gone after the
next start. -/
theorem unregistered_disagrees :
    Run step anyStep (powerOn none)
        [.connect (evenHeap true), lampUpdate, .devStatus deviceUnregistered]
        (eventDevStatus lampStored deviceUnregistered) ∧
      ramList (eventDevStatus lampStored deviceUnregistered) = [timerOf lampEntry] ∧
      fileList (eventDevStatus lampStored deviceUnregistered) = [] ∧
      ¬ Agree (eventDevStatus lampStored deviceUnregistered) := by
  have hrun : Run step anyStep (powerOn none) [.connect (evenHeap true), lampUpdate] lampStored :=
    lampStored_run.mono fun _ _ _ => trivial
  have hram : ramList (eventDevStatus lampStored deviceUnregistered) = [timerOf lampEntry] := rfl
  have hfile : fileList (eventDevStatus lampStored deviceUnregistered) = [] := rfl
  refine ⟨hrun.snoc trivial rfl, hram, hfile, ?_⟩
  intro hagree
  have hstarted : (eventDevStatus lampStored deviceUnregistered).mytimeState ≠ .idle := by
    decide
  have hsame := (hagree hstarted).1
  rw [hram, hfile] at hsame
  cases hsame

end Sv6x66.Colink.StoreAgreement
