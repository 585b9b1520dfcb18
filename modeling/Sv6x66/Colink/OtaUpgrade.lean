import Sv6x66.Colink.OtaDownload
import Sv6x66.Lib.Run

/-! The firmware upgrade: requests from the server, the tasks they create, and
the timer that installs `ota.bin`. The tasks and the timer share the file, the
digest, the file length and the timer handle. -/
namespace Sv6x66.Colink.OtaUpgrade

open Sv6x66.Lib Sv6x66.Lib.CString Sv6x66.Lib.ByteFile OtaDownload

/-- Where an `upgrade_task` stands. In `hash`, `size` is the argument of
`verifyFlashData`, `buffer` the memory at `read_flash_buffer` and `hashed` what
SHA-256 has been fed with. -/
inductive Pc where
  | removeFile
  | download
  | openFile (size : Nat)
  | hash (size i : Nat) (buffer hashed : Bytes)
  | compare (size : Nat) (hashed : Bytes)
  | createTimer
  | startTimer
  | done
deriving DecidableEq

/-- `timers` have been created and not deleted, `running` are started.
`verified` records each content that `verifyFlashData` found to have the digest
it was compared with. -/
structure Sys where
  otaBin : Option Bytes
  digest : Bytes
  fileLength : Nat
  tasks : List Pc
  timers : List Nat
  running : List Nat
  upgradeTimer : Option Nat
  conut : Nat
  verified : List (Bytes × Bytes)

/-- A step of a task, with what the system returns in it. `read` brings at most
`got` bytes into the buffer. -/
inductive Action where
  | remove (removed : Bool)
  | setFileLength (binFileSize : Nat)
  | flash (fs : FsCalls) (sector : Nat) (src : Bytes)
  | downloaded (ret : Int)
  | openFile (malloc opened : Bool) (buffer : Bytes)
  | read (sought : Bool) (got : Nat)
  | compare
  | createTimer (created : Bool) (handle : Option Nat)
  | startTimer

/-- `request` carries `file_num` and `name` and `digest` of `file_list[1]`. -/
inductive Event where
  | request (fileNum : Nat) (name digest : Bytes) (created : Bool)
  | task (id : Nat) (action : Action)
  | fire (timer : Nat) (opened : Bool)

def hexDigit (digit : Nat) : UInt8 :=
  if digit < 10 then UInt8.ofNat (48 + digit) else UInt8.ofNat (87 + digit)

/-- `"%02x"` of each byte. -/
def digestHex (digest : Bytes) : Bytes :=
  digest.flatMap fun byte => [hexDigit (byte.toNat / 16), hexDigit (byte.toNat % 16)]

/-- The read buffer after `FS_read` of `len` bytes of a sector. -/
def readSector (otaBin : Option Bytes) (sought : Bool) (got i len : Nat) (buffer : Bytes) :
    Bytes :=
  if sought then overlay buffer (((otaBin.getD []).drop (spiFlashSecSize * i)).take (min len got))
  else buffer

/-- The body of the loop of `verifyFlashData`: a sector that cannot be sought
is left out. -/
def hashSector (s : Sys) (size i : Nat) (buffer hashed : Bytes) (sought : Bool) (got : Nat) : Pc :=
  let buffer := readSector s.otaBin sought got i spiFlashSecSize buffer
  .hash size ((i + 1) % 2 ^ 16) buffer
    (if sought then hashed ++ buffer.take spiFlashSecSize else hashed)

/-- The part of a sector after the loop is hashed in any case. -/
def hashRest (s : Sys) (size i : Nat) (buffer hashed : Bytes) (sought : Bool) (got : Nat) : Pc :=
  let rest := size % spiFlashSecSize
  .compare size (hashed ++ (readSector s.otaBin sought got i rest buffer).take rest)

/-- `OS_TimerCreate(&upgrade_timer, …)`: what a failed call leaves in the
handle is not known. -/
def osTimerCreate (s : Sys) (created : Bool) (handle : Option Nat) : Sys :=
  { s with
    upgradeTimer := handle
    timers := if created then handle.toList ++ s.timers else s.timers }

/-- `OS_TimerStart(upgrade_timer)`, whoever created it. -/
def osTimerStart (s : Sys) : Sys :=
  { s with running := (s.upgradeTimer.toList.filter (· ∈ s.timers)) ++ s.running }

def osTimerDelete (s : Sys) : Sys :=
  { s with
    timers := s.timers.filter fun timer => s.upgradeTimer ≠ some timer
    running := s.running.filter fun timer => s.upgradeTimer ≠ some timer }

section Steps

variable (sha256 : Bytes → Bytes)

/-- One step of `upgrade_task`. A new timer gets a handle of its own. -/
def taskStep (s : Sys) : Pc → Action → Option (Sys × Pc)
  | .removeFile, .remove removed =>
    some ({ s with otaBin := if removed then none else s.otaBin }, .download)
  | .download, .setFileLength binFileSize => some ({ s with fileLength := binFileSize }, .download)
  | .download, .flash fs sector src =>
    some ({ s with otaBin := (flashOneSector fs s.otaBin sector src).2 }, .download)
  | .download, .downloaded ret => some (s, if ret = 0 then .openFile s.fileLength else .done)
  | .openFile size, .openFile malloc opened buffer =>
    some (s, if malloc && opened && s.otaBin.isSome then .hash size 0 buffer [] else .done)
  | .hash size i buffer hashed, .read sought got =>
    some (s, if i < size / spiFlashSecSize then hashSector s size i buffer hashed sought got
      else hashRest s size i buffer hashed sought got)
  | .compare _ hashed, .compare =>
    if digestHex (sha256 hashed) = s.digest then
      some ({ s with verified := (hashed, s.digest) :: s.verified }, .createTimer)
    else some (s, .done)
  | .createTimer, .createTimer created handle =>
    if created ∧ (handle = none ∨ ∃ timer ∈ s.timers, handle = some timer) then none
    else some (osTimerCreate s created handle, .startTimer)
  | .startTimer, .startTimer => some (osTimerStart s, .done)
  | _, _ => none

def colinkUpgradeRequest (s : Sys) (fileNum : Nat) (name digest : Bytes) (created : Bool) : Sys :=
  if fileNum ≠ 2 then s
  else if name = ofString "user2.bin" then
    { s with digest := digest, tasks := s.tasks ++ if created then [.removeFile] else [] }
  else s

/-- The second component says that `ota_update` is called. -/
def cb2UpgradeTimer (s : Sys) (opened : Bool) : Sys × Bool :=
  let next := { s with conut := (s.conut + 1) % 2 ^ 8 }
  if s.conut < 2 then (next, false) else (osTimerDelete next, opened)

def step (s : Sys) : Event → Option Sys
  | .request fileNum name digest created => some (colinkUpgradeRequest s fileNum name digest created)
  | .task id action =>
    s.tasks[id]?.bind fun pc =>
      (taskStep sha256 s pc action).map fun result =>
        { result.1 with tasks := s.tasks.set id result.2 }
  | .fire timer opened => if timer ∈ s.running then some (cb2UpgradeTimer s opened).1 else none

end Steps

/-- This event calls `ota_update`. -/
def CallsUpdate (s : Sys) (event : Event) : Prop :=
  ∃ timer opened, event = .fire timer opened ∧ timer ∈ s.running ∧
    (cb2UpgradeTimer s opened).2 = true

/-- The content of `ota.bin` is one that was found to have the digest now held. -/
def Verified (s : Sys) : Prop :=
  ∃ content, s.otaBin = some content ∧ (content, s.digest) ∈ s.verified

/-- After a reset: only the file has survived. -/
structure Boot (s : Sys) : Prop where
  tasks : s.tasks = []
  timers : s.timers = []
  running : s.running = []
  conut : s.conut = 0
  verified : s.verified = []

section Digests

variable {sha256 : Bytes → Bytes} {s : Sys}

theorem taskStep_verified {t : Sys} {pc next : Pc} {action : Action}
    (h : taskStep sha256 s pc action = some (t, next)) :
    t.verified = s.verified ∨ ∃ hashed, digestHex (sha256 hashed) = s.digest ∧
      t.verified = (hashed, s.digest) :: s.verified := by
  unfold taskStep at h
  split at h
  case h_7 size hashed =>
    split at h
    case isTrue hdigest =>
      cases h
      exact Or.inr ⟨hashed, hdigest, rfl⟩
    case isFalse =>
      cases h
      exact Or.inl rfl
  case h_8 =>
    split at h
    · cases h
    · cases h
      exact Or.inl rfl
  case h_10 => cases h
  all_goals
    cases h
    exact Or.inl rfl

theorem step_verified {t : Sys} {event : Event} (h : step sha256 s event = some t) :
    t.verified = s.verified ∨ ∃ hashed, digestHex (sha256 hashed) = s.digest ∧
      t.verified = (hashed, s.digest) :: s.verified := by
  cases event with
  | request fileNum name digest created =>
    cases h
    left
    unfold colinkUpgradeRequest
    split
    · rfl
    · split <;> rfl
  | task id action =>
    obtain ⟨pc, -, hnext⟩ := Option.bind_eq_some_iff.mp h
    obtain ⟨⟨u, next⟩, htask, rfl⟩ := Option.map_eq_some_iff.mp hnext
    have hverified := taskStep_verified htask
    exact hverified
  | fire timer opened =>
    simp only [step] at h
    split at h
    · cases h
      left
      unfold cb2UpgradeTimer
      simp only
      split <;> rfl
    · cases h

/-- Whatever the order of the steps, a recorded content has the recorded digest. -/
theorem verified_digest_of_run {start : Sys} (hstart : Boot start) {events : List Event}
    (hrun : Run (step sha256) anyStep start events s) :
    ∀ entry ∈ s.verified, digestHex (sha256 entry.1) = entry.2 := by
  refine hrun.invariant (I := fun s => ∀ entry ∈ s.verified, digestHex (sha256 entry.1) = entry.2)
    ?_ ?_
  · rw [hstart.verified]
    intro entry hentry
    cases hentry
  · intro s event t hs _ hnext entry hentry
    rcases step_verified hnext with hsame | ⟨hashed, hdigest, hcons⟩
    · rw [hsame] at hentry
      exact hs entry hentry
    · rw [hcons] at hentry
      rcases List.mem_cons.mp hentry with rfl | hold
      · exact hdigest
      · exact hs entry hold

end Digests

section Download

variable (sha256 : Bytes → Bytes) {os : Os} {network : Network} {s : Sys} {id : Nat}

/-- The task stands in its download, with the shared variables as the download
sees them. -/
structure Downloading (id : Nat) (s : Sys) (d : Download) : Prop where
  pc : s.tasks[id]? = some .download
  otaBin : s.otaBin = d.otaBin
  fileLength : s.fileLength = d.fileLength

theorem getElem?_set_some {tasks : List Pc} {pc next : Pc} (h : tasks[id]? = some pc) :
    (tasks.set id next)[id]? = some next := by
  obtain ⟨hlt, -⟩ := List.getElem?_eq_some_iff.mp h
  rw [List.getElem?_set_self hlt]

/-- One turn of the download is a few steps of the task. -/
theorem turn_run {d e : Download} (hd : Downloading id s d)
    (h : LeadsTo (turn os network d) e) :
    ∃ events t, Run (step sha256) anyStep s events t ∧ Downloading id t e := by
  let t : Sys := { s with fileLength := e.fileLength, tasks := s.tasks.set id .download }
  have hlength : step sha256 s (.task id (.setFileLength e.fileLength)) = some t := by
    simp only [step, hd.pc, Option.bind_some, taskStep, Option.map_some]
    rfl
  have hpc : t.tasks[id]? = some .download := getElem?_set_some hd.pc
  have hrun : Run (step sha256) anyStep s [.task id (.setFileLength e.fileLength)] t :=
    Run.nil.snoc trivial hlength
  obtain hsame | ⟨src, -, hflash⟩ := leadsTo_turn h
  · exact ⟨_, t, hrun, hpc, hd.otaBin.trans hsame.symm, rfl⟩
  · have hsector : step sha256 t (.task id (.flash (os.fs d.requests) (sectorStart + d.sectorIndex) src)) =
        some { t with otaBin := e.otaBin, tasks := t.tasks.set id .download } := by
      simp only [step, hpc, Option.bind_some, taskStep, Option.map_some, hflash, ← hd.otaBin]
      rfl
    exact ⟨_, _, hrun.snoc trivial hsector, getElem?_set_some hpc, rfl, rfl⟩

/-- A download that returns is a run of the task up to its result, so what
holds of all runs holds of those with real downloads. -/
theorem download_run {d e : Download} {ret : Int} (hd : Downloading id s d)
    (h : Returns (turn os network) d (.returned ret e)) :
    ∃ events t, Run (step sha256) anyStep s events t ∧ t.otaBin = e.otaBin ∧
      t.tasks[id]? = some (if ret = 0 then .openFile e.fileLength else .done) := by
  obtain ⟨f, ⟨before, t, hbefore, hf⟩, hstop⟩ := h.invariant
    (I := fun f => ∃ events t, Run (step sha256) anyStep s events t ∧ Downloading id t f)
    ⟨[], s, .nil, hd⟩ (by
      rintro f g ⟨before, t, hbefore, hf⟩ hagain
      obtain ⟨events, u, hevents, hu⟩ := turn_run sha256 hf (Or.inl hagain)
      exact ⟨_, u, hbefore.trans hevents, hu⟩)
  obtain ⟨events, u, hevents, hu⟩ := turn_run sha256 hf (Or.inr ⟨ret, hstop⟩)
  have hreturn : step sha256 u (.task id (.downloaded ret)) = some { u with
      tasks := u.tasks.set id (if ret = 0 then .openFile u.fileLength else .done) } := by
    simp only [step, hu.pc, Option.bind_some, taskStep, Option.map_some]
  refine ⟨_, _, (hbefore.trans hevents).snoc trivial hreturn, hu.otaBin, ?_⟩
  rw [← hu.fileLength]
  exact getElem?_set_some hu.pc

end Download

end Sv6x66.Colink.OtaUpgrade
