import Sv6x66.Colink.OtaUpgrade

/-! What the upgrade timer installs. Between the hashing and the last tick of
the timer nothing keeps another request or task from the digest and the file. -/
namespace Sv6x66.Colink.OtaAuthentic

open Sv6x66.Lib Sv6x66.Lib.CString Sv6x66.Lib.ByteFile OtaDownload OtaUpgrade

def file (s : Sys) : Bytes := s.otaBin.getD []

/-- The task has opened the file and not yet started the timer. -/
def verifying : Pc → Bool
  | .hash .. => true
  | .compare .. => true
  | .createTimer => true
  | .startTimer => true
  | _ => false

/-- The comparison has succeeded and the timer is not yet started. -/
def approved : Pc → Bool
  | .createTimer => true
  | .startTimer => true
  | _ => false

def FileInUse (s : Sys) : Prop := s.running ≠ [] ∨ ∃ pc ∈ s.tasks, verifying pc = true

def DigestInUse (s : Sys) : Prop := s.running ≠ [] ∨ ∃ pc ∈ s.tasks, approved pc = true

section Allowed

variable (sha256 : Bytes → Bytes)

/-- The steps of a task that leave what others rely on, read a file of the
expected length without an error, and approve no other file. -/
def Careful (s : Sys) (pc : Pc) : Action → Prop
  | .remove removed => removed = true → FileInUse s → s.otaBin = none
  | .flash fs sector src => FileInUse s → (flashOneSector fs s.otaBin sector src).2 = s.otaBin
  | .read sought got =>
    match pc with
    | .hash size .. => (file s).length = size → sought = true ∧ spiFlashSecSize ≤ got
    | _ => True
  | .compare =>
    match pc with
    | .compare size hashed => digestHex (sha256 hashed) = s.digest → (file s).length = size
    | _ => True
  | _ => True

def Allowed (s : Sys) : Event → Prop
  | .request fileNum name digest _ =>
    fileNum = 2 → name = ofString "user2.bin" → DigestInUse s → digest = s.digest
  | .task id action => ∀ pc ∈ s.tasks[id]?, Careful sha256 s pc action
  | .fire .. => True

instance (s : Sys) : Decidable (FileInUse s) :=
  inferInstanceAs (Decidable (s.running ≠ [] ∨ ∃ pc ∈ s.tasks, verifying pc = true))

instance (s : Sys) : Decidable (DigestInUse s) :=
  inferInstanceAs (Decidable (s.running ≠ [] ∨ ∃ pc ∈ s.tasks, approved pc = true))

instance (s : Sys) (pc : Pc) (action : Action) : Decidable (Careful sha256 s pc action) := by
  unfold Careful
  split <;> [skip; skip; split; split; skip] <;> infer_instance

instance (s : Sys) (event : Event) : Decidable (Allowed sha256 s event) := by
  unfold Allowed
  split <;> infer_instance

end Allowed

/-- What the locals of a task say about the shared variables. -/
def Knows (s : Sys) : Pc → Prop
  | .hash size i _ hashed => s.otaBin.isSome ∧ i < 2 ^ 16 ∧
    (size / spiFlashSecSize < 2 ^ 16 → (file s).length = size →
      i ≤ size / spiFlashSecSize ∧ hashed = (file s).take (spiFlashSecSize * i))
  | .compare size hashed => s.otaBin.isSome ∧ ((file s).length = size → hashed = file s)
  | .createTimer => Verified s
  | .startTimer => Verified s
  | _ => True

structure Inv (s : Sys) : Prop where
  tasks : ∀ pc ∈ s.tasks, Knows s pc
  timers : s.running ≠ [] → Verified s

theorem verified_frame {s t : Sys} (h : Verified s) (hfile : t.otaBin = s.otaBin)
    (hdigest : t.digest = s.digest) (hverified : s.verified ⊆ t.verified) : Verified t := by
  obtain ⟨content, hcontent, hmem⟩ := h
  refine ⟨content, hfile.trans hcontent, ?_⟩
  rw [hdigest]
  exact hverified hmem

theorem knows_frame {s t : Sys} {pc : Pc} (h : Knows s pc)
    (hfile : verifying pc = true → t.otaBin = s.otaBin)
    (hdigest : approved pc = true → t.digest = s.digest) (hverified : s.verified ⊆ t.verified) :
    Knows t pc := by
  cases pc with
  | hash size i buffer hashed =>
    unfold Knows file at h ⊢
    rw [hfile rfl]
    exact h
  | compare size hashed =>
    unfold Knows file at h ⊢
    rw [hfile rfl]
    exact h
  | createTimer => exact verified_frame h (hfile rfl) (hdigest rfl) hverified
  | startTimer => exact verified_frame h (hfile rfl) (hdigest rfl) hverified
  | _ => trivial

/-- A step that changes the file and the digest only while nobody relies on
them keeps what the tasks and the timers know. -/
theorem Inv.frame {s t : Sys} (h : Inv s) (hfile : FileInUse s → t.otaBin = s.otaBin)
    (hdigest : DigestInUse s → t.digest = s.digest) (hverified : s.verified ⊆ t.verified) :
    (∀ pc ∈ s.tasks, Knows t pc) ∧ (s.running ≠ [] → Verified t) := by
  constructor
  · intro pc hpc
    apply knows_frame (h.tasks pc hpc)
    · intro hverifying
      exact hfile (Or.inr ⟨pc, hpc, hverifying⟩)
    · intro happroved
      exact hdigest (Or.inr ⟨pc, hpc, happroved⟩)
    · exact hverified
  · intro hrunning
    exact verified_frame (h.timers hrunning) (hfile (Or.inl hrunning)) (hdigest (Or.inl hrunning))
      hverified

section Hash

theorem take_readSector {otaBin : Option Bytes} {got i len : Nat} (buffer : Bytes)
    (hgot : len ≤ got) (hlen : spiFlashSecSize * i + len ≤ (otaBin.getD []).length) :
    (readSector otaBin true got i len buffer).take len =
      ((otaBin.getD []).drop (spiFlashSecSize * i)).take len := by
  have hread := take_overlay buffer
    (((otaBin.getD []).drop (spiFlashSecSize * i)).take (min len got))
  rw [Nat.min_eq_left hgot, List.length_take, List.length_drop,
    Nat.min_eq_left (by omega)] at hread
  unfold readSector
  rw [if_pos rfl, Nat.min_eq_left hgot, hread]

theorem knows_hashSector {s : Sys} {size i : Nat} {buffer hashed : Bytes} {sought : Bool} {got : Nat}
    (h : Knows s (.hash size i buffer hashed)) (hi : i < size / spiFlashSecSize)
    (hread : (file s).length = size → sought = true ∧ spiFlashSecSize ≤ got) :
    Knows s (hashSector s size i buffer hashed sought got) := by
  obtain ⟨hsome, hwidth, hhashed⟩ := h
  refine ⟨hsome, Nat.mod_lt _ (by decide), ?_⟩
  intro hsectors hsize
  obtain ⟨-, heq⟩ := hhashed hsectors hsize
  obtain ⟨rfl, hgot⟩ := hread hsize
  have hindex : (i + 1) % 2 ^ 16 = i + 1 := Nat.mod_eq_of_lt (by omega)
  have hsector : spiFlashSecSize * i + spiFlashSecSize ≤ (s.otaBin.getD []).length := by
    unfold file at hsize
    unfold spiFlashSecSize at hi ⊢
    omega
  rw [hindex]
  refine ⟨hi, ?_⟩
  rw [if_pos rfl, take_readSector buffer hgot hsector, heq, Nat.mul_succ, List.take_add]
  rfl

theorem knows_hashRest {s : Sys} {size i : Nat} {buffer hashed : Bytes} {sought : Bool} {got : Nat}
    (h : Knows s (.hash size i buffer hashed)) (hi : ¬ i < size / spiFlashSecSize)
    (hread : (file s).length = size → sought = true ∧ spiFlashSecSize ≤ got) :
    Knows s (hashRest s size i buffer hashed sought got) := by
  obtain ⟨hsome, hwidth, hhashed⟩ := h
  refine ⟨hsome, ?_⟩
  intro hsize
  obtain ⟨hle, heq⟩ := hhashed (by omega) hsize
  obtain ⟨rfl, hgot⟩ := hread hsize
  have hindex : i = size / spiFlashSecSize := by omega
  have hrest : spiFlashSecSize * i + size % spiFlashSecSize = size := by
    rw [hindex]
    exact Nat.div_add_mod size spiFlashSecSize
  have hlt : size % spiFlashSecSize < spiFlashSecSize := Nat.mod_lt _ (by decide)
  have hlength : (s.otaBin.getD []).length = size := hsize
  rw [take_readSector buffer (by omega) (by omega), heq]
  unfold file
  rw [← List.take_add, hrest, List.take_of_length_le (by omega)]

end Hash

section Step

variable {sha256 : Bytes → Bytes} {s : Sys}

/-- What one step of a task does. -/
structure Progress (s t : Sys) (next : Pc) : Prop where
  tasks : t.tasks = s.tasks
  file : FileInUse s → t.otaBin = s.otaBin
  digest : t.digest = s.digest
  verified : s.verified ⊆ t.verified
  running : t.running ≠ [] → s.running ≠ [] ∨ Verified t
  knows : Knows t next

/-- A step that changes nothing but the place of the task. -/
theorem Progress.stay {next : Pc} (h : Knows s next) : Progress s s next where
  tasks := rfl
  file := fun _ => rfl
  digest := rfl
  verified := List.Subset.refl _
  running := Or.inl
  knows := h

theorem taskStep_progress {t : Sys} {pc next : Pc} {action : Action} (hknows : Knows s pc)
    (hcareful : Careful sha256 s pc action) (h : taskStep sha256 s pc action = some (t, next)) :
    Progress s t next := by
  unfold taskStep at h
  split at h
  case h_1 removed =>
    cases h
    refine ⟨rfl, fun hfile => ?_, rfl, List.Subset.refl _, Or.inl, trivial⟩
    cases removed with
    | false => rfl
    | true => exact (hcareful rfl hfile).symm
  case h_2 =>
    cases h
    exact ⟨rfl, fun _ => rfl, rfl, List.Subset.refl _, Or.inl, trivial⟩
  case h_3 =>
    cases h
    exact ⟨rfl, hcareful, rfl, List.Subset.refl _, Or.inl, trivial⟩
  case h_4 ret =>
    cases h
    apply Progress.stay
    split <;> trivial
  case h_5 size malloc opened buffer =>
    cases h
    apply Progress.stay
    split
    case isTrue hopened =>
      rw [Bool.and_eq_true] at hopened
      exact ⟨hopened.2, by decide, fun _ _ => ⟨Nat.zero_le _, rfl⟩⟩
    case isFalse => trivial
  case h_6 size i buffer hashed sought got =>
    cases h
    apply Progress.stay
    split
    case isTrue hi => exact knows_hashSector hknows hi hcareful
    case isFalse hi => exact knows_hashRest hknows hi hcareful
  case h_7 size hashed =>
    obtain ⟨hsome, hhashed⟩ := hknows
    split at h
    case isTrue hdigest =>
      cases h
      obtain ⟨content, hcontent⟩ := Option.isSome_iff_exists.mp hsome
      have hfile : hashed = content := by
        rw [hhashed (hcareful hdigest), file, hcontent, Option.getD_some]
      refine ⟨rfl, fun _ => rfl, rfl, List.subset_cons_self _ _, Or.inl, content, hcontent, ?_⟩
      rw [hfile]
      exact List.mem_cons_self
    case isFalse =>
      cases h
      exact Progress.stay trivial
  case h_8 created handle =>
    split at h
    case isTrue => cases h
    case isFalse =>
      cases h
      exact ⟨rfl, fun _ => rfl, rfl, List.Subset.refl _, Or.inl, hknows⟩
  case h_9 =>
    cases h
    exact ⟨rfl, fun _ => rfl, rfl, List.Subset.refl _, fun _ => Or.inr hknows, trivial⟩
  case h_10 => cases h

theorem inv_task {t : Sys} {id : Nat} {action : Action} (hinv : Inv s)
    (hallowed : Allowed sha256 s (.task id action))
    (h : step sha256 s (.task id action) = some t) : Inv t := by
  obtain ⟨pc, hpc, hnext⟩ := Option.bind_eq_some_iff.mp h
  obtain ⟨⟨u, next⟩, htask, rfl⟩ := Option.map_eq_some_iff.mp hnext
  have hmem : pc ∈ s.tasks := List.mem_of_getElem? hpc
  have hprogress := taskStep_progress (hinv.tasks pc hmem) (hallowed pc hpc) htask
  obtain ⟨htasks, htimers⟩ := hinv.frame hprogress.file (fun _ => hprogress.digest) hprogress.verified
  constructor
  · intro other hother
    rcases List.mem_or_eq_of_mem_set hother with hother | rfl
    · exact htasks other hother
    · exact hprogress.knows
  · intro hrunning
    rcases hprogress.running hrunning with hbefore | hverified
    · exact htimers hbefore
    · exact hverified

theorem inv_request {fileNum : Nat} {name digest : Bytes} {created : Bool} (hinv : Inv s)
    (hallowed : Allowed sha256 s (.request fileNum name digest created)) :
    Inv (colinkUpgradeRequest s fileNum name digest created) := by
  unfold colinkUpgradeRequest
  split
  case isTrue => exact hinv
  case isFalse hnum =>
    split
    case isFalse => exact hinv
    case isTrue hname =>
      obtain ⟨htasks, htimers⟩ := hinv.frame (t := { s with
          digest := digest, tasks := s.tasks ++ if created then [.removeFile] else [] })
        (fun _ => rfl) (hallowed (not_not.mp hnum) hname) (List.Subset.refl _)
      refine ⟨?_, htimers⟩
      intro pc hpc
      rcases List.mem_append.mp hpc with hold | hnew
      · exact htasks pc hold
      · cases created with
        | false => cases hnew
        | true =>
          rw [List.mem_singleton.mp hnew]
          trivial

theorem inv_fire (hinv : Inv s) (opened : Bool) : Inv (cb2UpgradeTimer s opened).1 := by
  unfold cb2UpgradeTimer
  simp only
  split
  case isTrue => exact ⟨hinv.tasks, hinv.timers⟩
  case isFalse =>
    refine ⟨hinv.tasks, fun hrunning => hinv.timers ?_⟩
    intro hnone
    apply hrunning
    unfold osTimerDelete
    simp only [hnone, List.filter_nil]

theorem inv_step {t : Sys} {event : Event} (hinv : Inv s) (hallowed : Allowed sha256 s event)
    (h : step sha256 s event = some t) : Inv t := by
  cases event with
  | request fileNum name digest created =>
    cases h
    exact inv_request hinv hallowed
  | task id action => exact inv_task hinv hallowed h
  | fire timer opened =>
    simp only [step] at h
    split at h
    · cases h
      exact inv_fire hinv opened
    · cases h

theorem inv_boot (h : Boot s) : Inv s := by
  constructor
  · rw [h.tasks]
    intro pc hpc
    cases hpc
  · intro hrunning
    exact absurd h.running hrunning

end Step

theorem callsUpdate_running {s : Sys} {event : Event} (h : CallsUpdate s event) :
    s.running ≠ [] := by
  obtain ⟨timer, opened, -, hmem, -⟩ := h
  exact List.ne_nil_of_mem hmem

/-- In a run of allowed steps the timer installs only what was verified. -/
theorem update_verified_of_run {sha256 : Bytes → Bytes} {start : Sys} (hstart : Boot start)
    {events : List Event} {s : Sys} (hrun : Run (step sha256) (Allowed sha256) start events s)
    {event : Event} (hcall : CallsUpdate s event) : Verified s := by
  have hinv : Inv s := hrun.invariant (inv_boot hstart)
    fun _ _ _ hinv hallowed hnext => inv_step hinv hallowed hnext
  exact hinv.timers (callsUpdate_running hcall)

/-- The firmware `"a"`, with the SHA-256 digest it has. -/
def digestOfA : Bytes :=
  [202, 151, 129, 18, 202, 27, 189, 202, 250, 194, 49, 179, 154, 35, 220, 77,
   167, 134, 239, 248, 20, 124, 78, 114, 185, 128, 119, 133, 175, 238, 72, 187]

def bootState : Sys where
  otaBin := none
  digest := []
  fileLength := 0
  tasks := []
  timers := []
  running := []
  upgradeTimer := none
  conut := 0
  verified := []

/-- One upgrade from the request to the second tick of the timer. -/
def upgradeToSecondTick : List Event :=
  [.request 2 (ofString "user2.bin") (digestHex digestOfA) true,
   .task 0 (.remove true),
   .task 0 (.setFileLength 1),
   .task 0 (.flash ⟨true, fun _ offset => offset, fun length => length⟩ 0 (ofString "a")),
   .task 0 (.downloaded 0),
   .task 0 (.openFile true true []),
   .task 0 (.read true 4096),
   .task 0 .compare,
   .task 0 (.createTimer true (some 0)),
   .task 0 .startTimer,
   .fire 0 true,
   .fire 0 true]

theorem update_verified_of_run_once : ∃ s,
    Run (step fun _ => digestOfA) (Allowed fun _ => digestOfA) bootState upgradeToSecondTick s ∧
      CallsUpdate s (.fire 0 true) ∧ Verified s := by
  have hexec : (exec (guarded (step fun _ => digestOfA)
      fun s event => decide (Allowed (fun _ => digestOfA) s event)) bootState
        upgradeToSecondTick).any
      (fun s => decide (0 ∈ s.running ∧ (cb2UpgradeTimer s true).2 = true)) = true := by
    decide
  obtain ⟨s, hs, hcall⟩ := (Option.any_eq_true _ _).mp hexec
  obtain ⟨hrunning, hupdate⟩ := of_decide_eq_true hcall
  have hrun : Run (step fun _ => digestOfA) (Allowed fun _ => digestOfA) bootState
      upgradeToSecondTick s :=
    (Run.of_exec_guarded hs).mono fun _ _ h => of_decide_eq_true h
  have hcalls : CallsUpdate s (.fire 0 true) := ⟨0, true, rfl, hrunning, hupdate⟩
  exact ⟨s, hrun, hcalls, update_verified_of_run ⟨rfl, rfl, rfl, rfl, rfl⟩ hrun hcalls⟩

/-- A second request between the second and the third tick: the timer installs
the first image under the digest of the second. -/
theorem update_unverified : ∃ s,
    Run (step fun _ => digestOfA) anyStep bootState (upgradeToSecondTick ++
      [.request 2 (ofString "user2.bin") (ofString "the digest of another image") true]) s ∧
      CallsUpdate s (.fire 0 true) ∧ ¬ Verified s := by
  have hexec : (exec (step fun _ => digestOfA) bootState (upgradeToSecondTick ++
      [.request 2 (ofString "user2.bin") (ofString "the digest of another image") true])).any
      (fun s => decide ((0 ∈ s.running ∧ (cb2UpgradeTimer s true).2 = true) ∧
        ∀ entry ∈ s.verified, entry.2 ≠ s.digest)) = true := by
    decide
  obtain ⟨s, hs, hcall⟩ := (Option.any_eq_true _ _).mp hexec
  obtain ⟨⟨hrunning, hupdate⟩, hother⟩ := of_decide_eq_true hcall
  refine ⟨s, Run.of_exec hs, ⟨0, true, rfl, hrunning, hupdate⟩, ?_⟩
  rintro ⟨content, -, hmem⟩
  exact hother _ hmem rfl

end Sv6x66.Colink.OtaAuthentic
