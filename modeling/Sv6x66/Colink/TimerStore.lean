import Sv6x66.Colink.Mytime

/-! The two copies of the schedule: the block behind `ap_timer_list` with
`timer_num` entries, and the timer file a start of the device loads. -/
namespace Sv6x66.Colink.TimerStore
open Sv6x66.Colink.MinTime
open Sv6x66.Colink.Mytime

/-- What `OS_MemAlloc` answers to a request for so many entries: a block with
whatever the memory holds, or `none` for `NULL`. -/
abbrev Heap := (slots : Nat) → Option (Vector ColinkAppTimer slots)

def mytimeGetBuffer (m : Globals) (heap : Heap) (slots : Nat) : Globals :=
  { m with
    timerNum := slots
    apTimerList := (heap slots).map Vector.toList }

def colinkSaveTimer (m : Globals) (buffer : List ColinkAppTimer) : Globals :=
  { m with timerFile := some buffer }

/-- The file decides the size of the buffer; the buffer may be `NULL`. -/
def colinkLoadTimer (m : Globals) (heap : Heap) : Globals :=
  match m.timerFile with
  | none => m
  | some entries =>
    let m := mytimeGetBuffer m heap entries.length
    { m with apTimerList := m.apTimerList.map fun _ => entries }

def colinkDeleteTimer (m : Globals) : Globals := { m with timerFile := none }

def mytimeStart (m : Globals) (heap : Heap) : Globals :=
  if m.mytimeState ≠ .idle then m
  else
    { colinkLoadTimer m heap with
      mytimeState := .sntping
      mytimeDelayTimer := some ⟨24 * 3600 * 1000, false⟩ }

/-- The static variables as the start of the device leaves them. -/
def powerOn (timerFile : Option (List ColinkAppTimer)) : Globals where
  apTimerList := none
  timerNum := 0
  prevTick := 0
  realtimeOffset := 1514764800
  mytimeState := .idle
  doSwitch := 0
  mytimeDelayTimer := none
  timerFile := timerFile

/-- The list `mytime.c` works on. -/
def ramList (m : Globals) : List ColinkAppTimer :=
  match m.apTimerList with
  | none => []
  | some apTime => apTime.take m.timerNum.toNat

/-- The list a start of the device finds. -/
def fileList (m : Globals) : List ColinkAppTimer := m.timerFile.getD []

theorem ramList_of_some {m : Globals} {apTime : List ColinkAppTimer}
    (hlist : m.apTimerList = some apTime) (hnum : m.timerNum = apTime.length) :
    ramList m = apTime := by
  unfold ramList
  rw [hlist, hnum, Int.toNat_natCast]
  exact List.take_length

theorem ramList_of_none {m : Globals} (hlist : m.apTimerList = none) : ramList m = [] := by
  unfold ramList
  rw [hlist]

@[simp] theorem ramList_mytimeCleanDelay (m : Globals) : ramList (mytimeCleanDelay m) = [] := rfl

@[simp] theorem fileList_mytimeCleanDelay (m : Globals) : fileList (mytimeCleanDelay m) = [] := rfl

theorem fileList_of_none {m : Globals} (hfile : m.timerFile = none) : fileList m = [] := by
  unfold fileList
  rw [hfile]
  rfl

theorem fileList_of_some {m : Globals} {entries : List ColinkAppTimer}
    (hfile : m.timerFile = some entries) : fileList m = entries := by
  unfold fileList
  rw [hfile]
  rfl

theorem timerFile_colinkLoadTimer (m : Globals) (heap : Heap) :
    (colinkLoadTimer m heap).timerFile = m.timerFile := by
  unfold colinkLoadTimer
  cases hfile : m.timerFile with
  | none => exact hfile
  | some entries => exact hfile

/-- Loading brings the list of the file into memory, unless there is no block for
it. -/
theorem ramList_colinkLoadTimer {m : Globals} {heap : Heap}
    (hheap : heap (fileList m).length = none → fileList m = [])
    (hnone : m.timerFile = none → ramList m = []) :
    ramList (colinkLoadTimer m heap) = fileList m := by
  unfold colinkLoadTimer
  cases hfile : m.timerFile with
  | none => exact (hnone hfile).trans (fileList_of_none hfile).symm
  | some entries =>
    rw [fileList_of_some hfile] at hheap ⊢
    unfold mytimeGetBuffer
    cases hblock : heap entries.length with
    | none =>
      have hempty := hheap hblock
      refine (ramList_of_none ?_).trans hempty.symm
      simp only [hblock, Option.map_none]
    | some block =>
      apply ramList_of_some
      · simp only [hblock, Option.map_some]
      · rfl

theorem ramList_congr {m m' : Globals} (hlist : m'.apTimerList = m.apTimerList)
    (hnum : m'.timerNum = m.timerNum) : ramList m' = ramList m := by
  unfold ramList
  rw [hlist, hnum]

theorem fileList_congr {m m' : Globals} (hfile : m'.timerFile = m.timerFile) :
    fileList m' = fileList m := by
  unfold fileList
  rw [hfile]

theorem ramList_mytimeStart {m : Globals} {heap : Heap} (hidle : m.mytimeState = .idle)
    (hheap : heap (fileList m).length = none → fileList m = [])
    (hnone : m.timerFile = none → ramList m = []) :
    ramList (mytimeStart m heap) = fileList m := by
  unfold mytimeStart
  rw [if_neg (not_not_intro hidle)]
  exact (ramList_congr rfl rfl).trans (ramList_colinkLoadTimer hheap hnone)

theorem timerFile_mytimeStart (m : Globals) (heap : Heap) :
    (mytimeStart m heap).timerFile = m.timerFile := by
  unfold mytimeStart
  split
  · rfl
  · exact timerFile_colinkLoadTimer m heap

end Sv6x66.Colink.TimerStore
