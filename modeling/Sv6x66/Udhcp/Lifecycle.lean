import Mathlib.Data.Fintype.Basic
import Mathlib.Logic.Function.Basic
import Sv6x66.Lib.Run

/-! Starting and stopping the DHCP server of `dhcpd.c`. A start is a message in the queue of
the dhcpd task and a flag the task sets later; a stop looks at the flag alone. -/
namespace Sv6x66.Udhcp.Lifecycle
open Sv6x66.Lib Function

variable {τ : Type*}

/-- Where a task stands that calls `udhcpd_start`, `udhcpd_stop`, `clearlease_bymac` or
`dhcpd_lease_get_api`. -/
inductive Caller where
  | idle
  /-- `dhcpd_start` was `false`. -/
  | startRun
  | startAlloc (times : Nat)
  | startEnqueue
  | startWait (times : Nat)
  | startFail
  /-- `dhcpd_start` was `true`. -/
  | stopRun
  | stopWait (times : Nat)
  /-- `find_lease_by_mac` at the condition of its loop. -/
  | searching (i : Nat)
  | comparing (i : Nat)
  /-- An entry of this table was found. -/
  | found (table : Option Nat)
  /-- `dhcpd_lease_get_api` at the condition of its loop. -/
  | listing (i : Nat)
  | reading (i : Nat)
  | copying (i : Nat)
  deriving DecidableEq

/-- Where the dhcpd task stands. -/
inductive TaskPc where
  | waiting
  | dequeued
  /-- In `udhcpd_run`, in front of the allocation of the table. -/
  | config
  | listen
  | allocPacket
  /-- At the condition of the loop. -/
  | loop
  | serving
  | freeTable
  | nullTable
  | markStopped
  deriving DecidableEq

/-- Tables are numbered; `table` is the one in memory and `gLeases` what the pointer holds.
`queue` counts the messages of `udhcpd_start`, and `quiet` records that a stop returned 0
and no start was called since. -/
structure Dhcpd (τ : Type*) where
  dhcpdStart : Bool
  dhcpdRun : Bool
  queue : Nat
  maxLeases : Nat
  gLeases : Option Nat
  table : Option Nat
  tables : Nat
  task : TaskPc
  caller : τ → Caller
  quiet : Bool

def qlength : Nat := 4

/-- The steps of a caller. -/
inductive CallStep where
  | udhcpdStart
  | setRun
  /-- `OS_MemAlloc` of the message. -/
  | alloc (ok : Bool)
  | enqueue
  | pollStarted
  | fail
  | udhcpdStop
  | clearRun
  | pollStopped
  | clearleaseBymac
  /-- `i < server_config.max_leases`, in both loops. -/
  | test
  | compare (found : Bool)
  | clear
  | dhcpdLeaseGetApi (valid : Bool)
  | read (used : Bool)
  /-- With `full` the loop ends in front of the copy. -/
  | copy (full : Bool)
  deriving DecidableEq

/-- The steps of the dhcpd task. -/
inductive TaskStep where
  | dequeue
  | markStarted
  /-- Any write of `server_config.max_leases` before the table is allocated. -/
  | config (maxLeases : Nat)
  | allocTable (ok : Bool)
  | listen (ok : Bool)
  | allocPacket (ok : Bool)
  | testRun
  | serve
  | freeTable
  | nullTable
  | markStopped
  deriving DecidableEq

inductive Event (τ : Type*) where
  | call (t : τ) (step : CallStep)
  | task (step : TaskStep)
  deriving DecidableEq

def setCaller [DecidableEq τ] (s : Dhcpd τ) (t : τ) (caller : Caller) : Dhcpd τ :=
  { s with caller := update s.caller t caller }

def callStep [DecidableEq τ] (s : Dhcpd τ) (t : τ) (step : CallStep) : Option (Dhcpd τ) :=
  match s.caller t, step with
  | .idle, .udhcpdStart =>
    let s := { s with quiet := false }
    some (if s.dhcpdStart then s else setCaller s t .startRun)
  | .startRun, .setRun => some (setCaller { s with dhcpdRun := true } t (.startAlloc 10))
  | .startAlloc times, .alloc ok =>
    some (setCaller s t (if ok then .startEnqueue
      else if times - 1 = 0 then .startFail else .startAlloc (times - 1)))
  | .startEnqueue, .enqueue =>
    some (setCaller { s with queue := if s.queue < qlength then s.queue + 1 else s.queue } t
      (.startWait 100))
  | .startWait times, .pollStarted =>
    some (setCaller s t (if s.dhcpdStart then .idle
      else if times - 1 = 0 then .startFail else .startWait (times - 1)))
  | .startFail, .fail => some (setCaller { s with dhcpdRun := false } t .idle)
  | .idle, .udhcpdStop =>
    some (if s.dhcpdStart then setCaller s t .stopRun else { s with quiet := true })
  | .stopRun, .clearRun => some (setCaller { s with dhcpdRun := false } t (.stopWait 100))
  | .stopWait times, .pollStopped =>
    some (if s.dhcpdStart then
        setCaller s t (if times - 1 = 0 then .idle else .stopWait (times - 1))
      else setCaller { s with quiet := true } t .idle)
  | .idle, .clearleaseBymac => some (setCaller s t (.searching 0))
  | .searching i, .test => some (setCaller s t (if i < s.maxLeases then .comparing i else .idle))
  | .comparing i, .compare found =>
    some (setCaller s t (if found then .found s.gLeases else .searching (i + 1)))
  | .found _, .clear => some (setCaller s t .idle)
  | .idle, .dhcpdLeaseGetApi valid =>
    some (setCaller s t (if s.gLeases.isSome ∧ valid then .listing 0 else .idle))
  | .listing i, .test => some (setCaller s t (if i < s.maxLeases then .reading i else .idle))
  | .reading i, .read used => some (setCaller s t (if used then .copying i else .listing (i + 1)))
  | .copying i, .copy full => some (setCaller s t (if full then .idle else .listing (i + 1)))
  | _, _ => none

def taskStep (s : Dhcpd τ) (step : TaskStep) : Option (Dhcpd τ) :=
  match s.task, step with
  | .waiting, .dequeue =>
    if s.queue = 0 then none else some { s with queue := s.queue - 1, task := .dequeued }
  | .dequeued, .markStarted => some { s with dhcpdStart := true, task := .config }
  | .config, .config maxLeases => some { s with maxLeases }
  | .config, .allocTable ok =>
    if ok then some { s with
      gLeases := some s.tables
      table := some s.tables
      tables := s.tables + 1
      task := .listen }
    else some { s with gLeases := none, task := .markStopped }
  | .listen, .listen ok => some { s with task := if ok then .allocPacket else .freeTable }
  | .allocPacket, .allocPacket ok =>
    -- without a packet the pointer keeps its value
    some (if ok then { s with task := .loop } else { s with table := none, task := .markStopped })
  | .loop, .testRun => some { s with task := if s.dhcpdRun then .serving else .freeTable }
  | .serving, .serve => some { s with task := .loop }
  | .freeTable, .freeTable =>
    some { s with table := if s.gLeases.isSome then none else s.table, task := .nullTable }
  | .nullTable, .nullTable => some { s with gLeases := none, task := .markStopped }
  | .markStopped, .markStopped => some { s with dhcpdStart := false, task := .waiting }
  | _, _ => none

def step [DecidableEq τ] (s : Dhcpd τ) : Event τ → Option (Dhcpd τ)
  | .call t step => callStep s t step
  | .task step => taskStep s step

def dhcpdInit : Dhcpd τ where
  dhcpdStart := false
  dhcpdRun := false
  queue := 0
  maxLeases := 0
  gLeases := none
  table := none
  tables := 0
  task := .waiting
  caller := fun _ => .idle
  quiet := false

/-- The table the step reads or writes. -/
def access (s : Dhcpd τ) : Event τ → Option (Option Nat)
  | .call t step =>
    match s.caller t, step with
    | .comparing _, .compare _ => some s.gLeases
    | .found table, .clear => some table
    | .reading _, .read _ => some s.gLeases
    | .copying _, .copy full => if full then none else some s.gLeases
    | _, _ => none
  | .task .serve => if s.task = .serving then some s.gLeases else none
  | .task _ => none

/-- The table that is accessed is the one in memory, and `g_leases` points to it. -/
def SafeAccess (s : Dhcpd τ) (event : Event τ) : Prop :=
  ∀ pointer ∈ access s event,
    ∃ table, pointer = some table ∧ s.gLeases = some table ∧ s.table = some table

/-- Once a stop returned 0 no loop serves until the next start. -/
def Stopped (s : Dhcpd τ) : Prop := s.quiet = true → s.task ≠ .serving

/-- A start that has not put its message into the queue. -/
def Caller.isStarting : Caller → Bool
  | .startRun => true
  | .startAlloc _ => true
  | .startEnqueue => true
  | _ => false

/-- The table is allocated and not yet freed. -/
def TaskPc.hasTable : TaskPc → Bool
  | .listen => true
  | .allocPacket => true
  | .loop => true
  | .serving => true
  | .freeTable => true
  | _ => false

/-- Nothing is left of the starts: none is about to set `dhcpd_run`, and if it is set no
message waits or will be enqueued. -/
def Settled (s : Dhcpd τ) : Prop :=
  (∀ t, s.caller t ≠ .startRun) ∧
    (s.dhcpdRun = false ∨
      s.queue = 0 ∧ s.task = .waiting ∧ ∀ t, (s.caller t).isStarting = false)

/-- The step returns 0 from `udhcpd_stop`. -/
def returnsStopped (s : Dhcpd τ) : Event τ → Bool
  | .call t .udhcpdStop => s.caller t = .idle ∧ s.dhcpdStart = false
  | .call _ .pollStopped => s.dhcpdStart = false
  | _ => false

/-- A stop returns 0 only where nothing is left of the starts, and the calls of other tasks
look at the table only while the dhcpd task has it, the one they found an entry in. -/
def Careful (s : Dhcpd τ) (event : Event τ) : Prop :=
  (returnsStopped s event = true → Settled s) ∧
    ∀ pointer ∈ access s event, s.task.hasTable = true ∧ pointer = s.gLeases

variable {s u : Dhcpd τ} {t : τ}

/-! ### The table -/

/-- The flag and the table go with the place of the dhcpd task. -/
structure Inv (s : Dhcpd τ) : Prop where
  started : s.dhcpdStart = true ↔ s.task ≠ .waiting ∧ s.task ≠ .dequeued
  table : s.table.isSome = s.task.hasTable
  held : ∀ table, s.table = some table → s.gLeases = some table

theorem inv_dhcpdInit : Inv (dhcpdInit : Dhcpd τ) where
  started := iff_of_false Bool.false_ne_true fun h => h.1 rfl
  table := rfl
  held := fun _ htable => by cases htable

theorem Inv.taskStep {step : TaskStep} (h : Inv s) (hstep : taskStep s step = some u) :
    Inv u := by
  obtain ⟨hstarted, htable, hheld⟩ := h
  unfold Lifecycle.taskStep at hstep
  split at hstep
  · rename_i htask
    rw [htask] at hstarted htable
    split_ifs at hstep
    cases hstep
    exact ⟨by simpa using hstarted, htable, hheld⟩
  · rename_i htask
    rw [htask] at htable
    cases hstep
    exact ⟨by simp, htable, hheld⟩
  · cases hstep
    exact ⟨hstarted, htable, hheld⟩
  · rename_i htask
    rw [htask] at hstarted htable
    split_ifs at hstep <;> cases hstep
    · exact ⟨by simpa using hstarted, rfl, fun _ heq => heq⟩
    · refine ⟨by simpa using hstarted, htable, fun table heq => ?_⟩
      dsimp only at heq
      rw [heq] at htable
      cases htable
  · rename_i ok htask
    rw [htask] at hstarted htable
    cases hstep
    cases ok <;> exact ⟨by simpa using hstarted, htable, hheld⟩
  · rename_i ok htask
    rw [htask] at hstarted htable
    cases hstep
    cases ok
    · exact ⟨by simpa using hstarted, rfl, fun _ heq => by cases heq⟩
    · exact ⟨by simpa using hstarted, htable, hheld⟩
  · rename_i htask
    rw [htask] at hstarted htable
    cases hstep
    cases s.dhcpdRun <;> exact ⟨by simpa using hstarted, htable, hheld⟩
  · rename_i htask
    rw [htask] at hstarted htable
    cases hstep
    exact ⟨by simpa using hstarted, htable, hheld⟩
  · rename_i htask
    rw [htask] at hstarted htable
    cases hstep
    obtain ⟨table, heq⟩ := Option.isSome_iff_exists.mp htable
    rw [hheld table heq]
    exact ⟨by simpa using hstarted, rfl, fun _ heq => by cases heq⟩
  · rename_i htask
    rw [htask] at hstarted htable
    cases hstep
    refine ⟨by simpa using hstarted, htable, fun table heq => ?_⟩
    dsimp only at heq
    rw [heq] at htable
    cases htable
  · rename_i htask
    rw [htask] at htable
    cases hstep
    exact ⟨by simp, htable, hheld⟩
  · cases hstep

/-- An access is safe exactly while the dhcpd task has the table that is accessed. -/
theorem safe_iff (h : Inv s) (pointer : Option Nat) :
    (∃ table, pointer = some table ∧ s.gLeases = some table ∧ s.table = some table) ↔
      s.task.hasTable = true ∧ pointer = s.gLeases := by
  rw [← h.table]
  constructor
  · rintro ⟨table, rfl, hleases, htable⟩
    rw [htable, hleases]
    exact ⟨rfl, rfl⟩
  · rintro ⟨hsome, rfl⟩
    obtain ⟨table, htable⟩ := Option.isSome_iff_exists.mp hsome
    exact ⟨table, h.held table htable, h.held table htable, htable⟩

theorem safeAccess_of_careful {event : Event τ} (hinv : Inv s) (h : Careful s event) :
    SafeAccess s event := fun pointer haccess =>
  (safe_iff hinv pointer).mpr (h.2 pointer haccess)

/-! ### Stopping -/

/-- Clearing `dhcpd_run` keeps what is settled so. -/
theorem Settled.clearRun (h : Settled s) : Settled { s with dhcpdRun := false } :=
  ⟨h.1, .inl rfl⟩

theorem Settled.dhcpdRun_eq_false (h : Settled s)
    (hbusy : s.queue ≠ 0 ∨ s.task ≠ .waiting ∨ (s.caller t).isStarting = true) :
    s.dhcpdRun = false := by
  rcases h.2 with hrun | ⟨hqueue, htask, hcaller⟩
  · exact hrun
  · exact absurd hbusy (by simp [hqueue, htask, hcaller])

theorem Inv.waiting_or_dequeued (h : Inv s) (hstart : s.dhcpdStart = false) :
    s.task = .waiting ∨ s.task = .dequeued := by
  by_contra hne
  have htrue := h.started.mpr (not_or.mp hne)
  rw [hstart] at htrue
  cases htrue

/-- What a stop that returned 0 found stays so until the next start. -/
structure Quiet (s : Dhcpd τ) : Prop where
  settled : s.quiet = true → Settled s
  stopped : Stopped s

theorem Quiet.of_not_quiet (h : s.quiet = false) : Quiet s where
  settled := fun hquiet => absurd hquiet (by simp [h])
  stopped := fun hquiet => absurd hquiet (by simp [h])

theorem Quiet.clearRun (h : Quiet s) : Quiet { s with dhcpdRun := false } where
  settled := fun hquiet => (h.settled hquiet).clearRun
  stopped := h.stopped

/-- Where a caller is on its way to the queue while a stop is in force, `dhcpd_run` is
clear, and a step that does not set it changes nothing. -/
theorem Quiet.of_starting (h : Quiet s) (hcaller : (s.caller t).isStarting = true)
    (hquiet : u.quiet = s.quiet) (hrun : u.dhcpdRun = s.dhcpdRun) (htask : u.task = s.task)
    (hcallers : ∀ other, u.caller other = .startRun → s.caller other = .startRun) : Quiet u where
  settled := fun htrue => by
    have hsettled := h.settled (hquiet ▸ htrue)
    exact ⟨fun other heq => hsettled.1 other (hcallers other heq),
      .inl (hrun.trans (hsettled.dhcpdRun_eq_false (.inr (.inr hcaller))))⟩
  stopped := fun htrue => by
    rw [htask]
    exact h.stopped (hquiet ▸ htrue)

/-- A stop that returns 0 found the flag clear, so the loop is not running. -/
theorem Quiet.of_returns (hinv : Inv s) (hstart : s.dhcpdStart = false) (hsettled : Settled s) :
    Quiet { s with quiet := true } where
  settled := fun _ => hsettled
  stopped := fun _ hserving => by
    have htrue : s.dhcpdStart = true := by
      rw [hinv.started]
      dsimp only at hserving
      rw [hserving]
      exact ⟨by decide, by decide⟩
    rw [hstart] at htrue
    cases htrue

/-- What the dhcpd task leaves alone. It has a message to handle, and serves only where
`dhcpd_run` is set. -/
structure SameCalls (s u : Dhcpd τ) : Prop where
  busy : s.queue ≠ 0 ∨ s.task ≠ .waiting
  quiet : u.quiet = s.quiet
  caller : u.caller = s.caller
  dhcpdRun : u.dhcpdRun = s.dhcpdRun
  serving : u.task = .serving → s.dhcpdRun = true

theorem sameCalls_taskStep {step : TaskStep} (h : taskStep s step = some u) : SameCalls s u := by
  unfold taskStep at h
  split at h
  · split_ifs at h with hqueue
    cases h
    exact ⟨.inl hqueue, rfl, rfl, rfl, fun htask => by cases htask⟩
  · rename_i htask
    cases h
    exact ⟨.inr (by simp [htask]), rfl, rfl, rfl, by simp⟩
  · rename_i htask
    cases h
    exact ⟨.inr (by simp [htask]), rfl, rfl, rfl, by simp [htask]⟩
  · rename_i htask
    split_ifs at h <;> cases h
    all_goals exact ⟨.inr (by simp [htask]), rfl, rfl, rfl, by simp⟩
  · rename_i ok htask
    cases h
    cases ok <;> exact ⟨.inr (by simp [htask]), rfl, rfl, rfl, by simp⟩
  · rename_i ok htask
    cases h
    cases ok <;> exact ⟨.inr (by simp [htask]), rfl, rfl, rfl, by simp⟩
  -- the condition of the loop
  · rename_i htask
    cases h
    refine ⟨.inr (by simp [htask]), rfl, rfl, rfl, fun hserving => ?_⟩
    by_contra hrun
    simp [hrun] at hserving
  · rename_i htask
    cases h
    exact ⟨.inr (by simp [htask]), rfl, rfl, rfl, by simp⟩
  · rename_i htask
    cases h
    exact ⟨.inr (by simp [htask]), rfl, rfl, rfl, by simp⟩
  · rename_i htask
    cases h
    exact ⟨.inr (by simp [htask]), rfl, rfl, rfl, by simp⟩
  · rename_i htask
    cases h
    exact ⟨.inr (by simp [htask]), rfl, rfl, rfl, by simp⟩
  · cases h

theorem Quiet.taskStep {step : TaskStep} (h : Quiet s) (hstep : taskStep s step = some u) :
    Quiet u := by
  have hsame := sameCalls_taskStep hstep
  have hclear (hquiet : u.quiet = true) : Settled s ∧ s.dhcpdRun = false := by
    have hsettled := h.settled (hsame.quiet ▸ hquiet)
    refine ⟨hsettled, hsettled.2.elim id fun ⟨hqueue, htask, _⟩ => ?_⟩
    exact absurd hsame.busy (by simp [hqueue, htask])
  refine ⟨fun hquiet => ⟨?_, .inl (hsame.dhcpdRun.trans (hclear hquiet).2)⟩,
    fun hquiet htask => ?_⟩
  · rw [hsame.caller]
    exact (hclear hquiet).1.1
  · have hfalse := (hclear hquiet).2
    rw [hsame.serving htask] at hfalse
    cases hfalse

/-! ### The callers -/

variable [DecidableEq τ]

@[simp] theorem setCaller_self (s : Dhcpd τ) (t : τ) (caller : Caller) :
    (setCaller s t caller).caller t = caller := by
  simp [setCaller]

theorem setCaller_of_ne (s : Dhcpd τ) {t other : τ} (h : other ≠ t) (caller : Caller) :
    (setCaller s t caller).caller other = s.caller other := by
  simp [setCaller, h]

/-- A property of places that the new place has only if all had it. -/
theorem of_setCaller {p : Caller → Prop} {caller : Caller} {other : τ} (hcaller : ¬ p caller)
    (h : p ((setCaller s t caller).caller other)) : p (s.caller other) := by
  by_cases hother : other = t
  · rw [hother, setCaller_self] at h
    exact absurd h hcaller
  · rwa [setCaller_of_ne s hother] at h

theorem Settled.setCaller (h : Settled s) (t : τ) {caller : Caller}
    (hcaller : caller.isStarting = false) : Settled (setCaller s t caller) := by
  have hne : caller ≠ .startRun := fun heq => by
    rw [heq] at hcaller
    cases hcaller
  have hstarting : ¬ caller.isStarting = true := by simp [hcaller]
  refine ⟨fun other heq => h.1 other (of_setCaller (p := (· = .startRun)) hne heq), ?_⟩
  refine h.2.imp_right fun ⟨hqueue, htask, hcallers⟩ => ⟨hqueue, htask, fun other => ?_⟩
  by_contra heq
  have htrue : (s.caller other).isStarting = true :=
    of_setCaller (p := (Caller.isStarting · = true)) hstarting (eq_true_of_ne_false heq)
  rw [hcallers other] at htrue
  cases htrue

/-- What a caller leaves alone. -/
structure SameServer (s u : Dhcpd τ) : Prop where
  dhcpdStart : u.dhcpdStart = s.dhcpdStart
  gLeases : u.gLeases = s.gLeases
  table : u.table = s.table
  task : u.task = s.task

theorem sameServer_callStep {step : CallStep} (h : callStep s t step = some u) :
    SameServer s u := by
  unfold callStep at h
  split at h <;> cases h
  all_goals first
    | exact ⟨rfl, rfl, rfl, rfl⟩
    | split <;> exact ⟨rfl, rfl, rfl, rfl⟩

theorem Inv.callStep {step : CallStep} (h : Inv s) (hstep : callStep s t step = some u) :
    Inv u := by
  have hsame := sameServer_callStep hstep
  refine ⟨?_, ?_, ?_⟩
  · rw [hsame.dhcpdStart, hsame.task]
    exact h.started
  · rw [hsame.table, hsame.task]
    exact h.table
  · rw [hsame.table, hsame.gLeases]
    exact h.held

theorem Inv.step {event : Event τ} (h : Inv s) (hstep : step s event = some u) : Inv u := by
  cases event with
  | call t step => exact h.callStep hstep
  | task step => exact h.taskStep hstep

/-- A caller that is not on its way to the queue goes on to another such place. -/
theorem Quiet.setCaller (h : Quiet s) (t : τ) {caller : Caller}
    (hcaller : caller.isStarting = false) : Quiet (setCaller s t caller) where
  settled := fun hquiet => (h.settled hquiet).setCaller t hcaller
  stopped := h.stopped

theorem Quiet.callStep {step : CallStep} (hinv : Inv s) (h : Quiet s)
    (hreturns : returnsStopped s (.call t step) = true → Settled s)
    (hstep : callStep s t step = some u) : Quiet u := by
  unfold Lifecycle.callStep at hstep
  split at hstep
  -- `udhcpd_start` ends what a stop promised
  · cases hstep
    refine Quiet.of_not_quiet ?_
    split <;> rfl
  · rename_i hcaller
    cases hstep
    exact .of_not_quiet (eq_false_of_ne_true fun hquiet => (h.settled hquiet).1 t hcaller)
  -- up to the queue
  · rename_i hcaller
    cases hstep
    refine h.of_starting (t := t) (by rw [hcaller]; rfl) rfl rfl rfl fun other =>
      of_setCaller (p := (· = .startRun)) ?_
    split_ifs <;> simp
  · rename_i hcaller
    cases hstep
    exact h.of_starting (t := t) (by rw [hcaller]; rfl) rfl rfl rfl fun other =>
      of_setCaller (p := (· = .startRun)) Caller.noConfusion
  · cases hstep
    refine h.setCaller t ?_
    split_ifs <;> rfl
  · cases hstep
    exact h.clearRun.setCaller t rfl
  -- `udhcpd_stop`
  · rename_i hcaller
    cases hstep
    by_cases hstart : s.dhcpdStart = true
    · rw [if_pos hstart]
      exact h.setCaller t rfl
    · rw [if_neg hstart]
      have hstart : s.dhcpdStart = false := eq_false_of_ne_true hstart
      exact .of_returns hinv hstart (hreturns (by simp [returnsStopped, hcaller, hstart]))
  · cases hstep
    exact h.clearRun.setCaller t rfl
  · cases hstep
    by_cases hstart : s.dhcpdStart = true
    · rw [if_pos hstart]
      refine h.setCaller t ?_
      split_ifs <;> rfl
    · rw [if_neg hstart]
      have hstart : s.dhcpdStart = false := eq_false_of_ne_true hstart
      exact (Quiet.of_returns hinv hstart
        (hreturns (by simp [returnsStopped, hstart]))).setCaller t rfl
  -- the lease table
  · cases hstep
    exact h.setCaller t rfl
  · cases hstep
    refine h.setCaller t ?_
    split_ifs <;> rfl
  · cases hstep
    refine h.setCaller t ?_
    split_ifs <;> rfl
  · cases hstep
    exact h.setCaller t rfl
  · cases hstep
    refine h.setCaller t ?_
    split_ifs <;> rfl
  · cases hstep
    refine h.setCaller t ?_
    split_ifs <;> rfl
  · cases hstep
    refine h.setCaller t ?_
    split_ifs <;> rfl
  · cases hstep
    refine h.setCaller t ?_
    split_ifs <;> rfl
  · cases hstep

theorem quiet_of_run {events : List (Event τ)}
    (hrun : Run step Careful dhcpdInit events s) : Inv s ∧ Quiet s := by
  refine hrun.invariant (I := fun s => Inv s ∧ Quiet s)
    ⟨inv_dhcpdInit, .of_not_quiet rfl⟩ fun s event u ⟨hinv, h⟩ hcareful hstep => ?_
  refine ⟨hinv.step hstep, ?_⟩
  cases event with
  | call t step => exact h.callStep hinv hcareful.1 hstep
  | task step => exact h.taskStep hstep

theorem run_safeAccess {events : List (Event τ)}
    (hrun : Run step Careful dhcpdInit events s) : Run step SafeAccess dhcpdInit events s := by
  induction hrun with
  | nil => exact .nil
  | snoc hbefore hcareful hstep ih =>
    exact ih.snoc (safeAccess_of_careful (quiet_of_run hbefore).1 hcareful) hstep

/-- Where every stop that returns 0 leaves nothing of the starts behind, and the table is
looked at only while the dhcpd task has it, no loop serves between a stop and the next
start, and every access is to the table in memory. -/
theorem lifecycle_of_careful (events : List (Event τ)) (s : Dhcpd τ)
    (hrun : Run step Careful dhcpdInit events s) :
    Stopped s ∧ Run step SafeAccess dhcpdInit events s :=
  ⟨(quiet_of_run hrun).2.stopped, run_safeAccess hrun⟩

instance [Fintype τ] (s : Dhcpd τ) : Decidable (Settled s) :=
  inferInstanceAs (Decidable ((∀ t, s.caller t ≠ .startRun) ∧ (s.dhcpdRun = false ∨
    s.queue = 0 ∧ s.task = .waiting ∧ ∀ t, (s.caller t).isStarting = false)))

instance [Fintype τ] (s : Dhcpd τ) (event : Event τ) : Decidable (Careful s event) :=
  inferInstanceAs (Decidable ((returnsStopped s event = true → Settled s) ∧
    ∀ pointer ∈ access s event, s.task.hasTable = true ∧ pointer = s.gLeases))

/-- A start, a lease cleared while the loop serves, and a stop. -/
def startAndStop : List (Event Bool) :=
  [.call false .udhcpdStart, .call false .setRun, .call false (.alloc true), .call false .enqueue,
    .task .dequeue, .task .markStarted, .task (.config 10), .task (.allocTable true),
    .task (.listen true), .task (.allocPacket true), .task .testRun, .call false .pollStarted,
    .call true .clearleaseBymac, .call true .test, .call true (.compare true),
    .call true .clear, .call true .udhcpdStop, .call true .clearRun, .task .serve, .task .testRun, .task .freeTable,
    .task .nullTable, .task .markStopped, .call true .pollStopped]

theorem lifecycle_startAndStop : ∃ s : Dhcpd Bool, s.quiet = true ∧
    Stopped s ∧ Run step SafeAccess dhcpdInit startAndStop s := by
  obtain ⟨s, hexec, hquiet⟩ : ∃ s : Dhcpd Bool,
      exec (guarded step fun s event => decide (Careful s event)) dhcpdInit startAndStop = some s ∧
        s.quiet = true := ⟨_, rfl, rfl⟩
  refine ⟨s, hquiet, lifecycle_of_careful startAndStop s ?_⟩
  exact (Run.of_exec_guarded hexec).mono fun _ _ h => of_decide_eq_true h

/-! ### Calls made and finished inside one run of the server -/

/-- A call of another task that goes through the table. -/
def Caller.looks : Caller → Bool
  | .searching _ => true
  | .comparing _ => true
  | .found _ => true
  | .listing _ => true
  | .reading _ => true
  | .copying _ => true
  | _ => false

/-- The two calls are made while the dhcpd task has the table, and it frees the table once
they have returned. -/
def CallsInside (s : Dhcpd τ) : Event τ → Prop
  | .call _ .clearleaseBymac => s.task.hasTable = true
  | .call _ (.dhcpdLeaseGetApi _) => s.task.hasTable = true
  | .task (.allocPacket false) => ∀ t, (s.caller t).looks = false
  | .task .freeTable => ∀ t, (s.caller t).looks = false
  | _ => True

/-- The table of a call under way is the one the dhcpd task has. -/
def Looking (s : Dhcpd τ) : Prop :=
  ∀ t, (s.caller t).looks = true →
    s.task.hasTable = true ∧ ∀ table, s.caller t = .found table → table = s.gLeases

omit [DecidableEq τ] in
/-- A step that does not free the table of a call under way keeps it. -/
theorem keepsTable_taskStep {step : TaskStep} (hstep : taskStep s step = some u)
    (hinside : CallsInside s (.task step)) (hlooks : (s.caller t).looks = true)
    (htask : s.task.hasTable = true) : u.task.hasTable = true ∧ u.gLeases = s.gLeases := by
  have hnone : ¬ ∀ t, (s.caller t).looks = false := fun h => by
    rw [h t] at hlooks
    cases hlooks
  unfold Lifecycle.taskStep at hstep
  split at hstep
  · rename_i hplace
    rw [hplace] at htask
    cases htask
  · rename_i hplace
    rw [hplace] at htask
    cases htask
  · rename_i hplace
    rw [hplace] at htask
    cases htask
  · rename_i hplace
    rw [hplace] at htask
    cases htask
  · rename_i ok hplace
    cases hstep
    cases ok <;> exact ⟨rfl, rfl⟩
  · rename_i ok hplace
    cases hstep
    cases ok
    · exact absurd hinside hnone
    · exact ⟨rfl, rfl⟩
  · cases hstep
    exact ⟨by dsimp only; split <;> rfl, rfl⟩
  · cases hstep
    exact ⟨rfl, rfl⟩
  · exact absurd hinside hnone
  · rename_i hplace
    rw [hplace] at htask
    cases htask
  · rename_i hplace
    rw [hplace] at htask
    cases htask
  · cases hstep

omit [DecidableEq τ] in
theorem Looking.taskStep {step : TaskStep} (h : Looking s) (hinside : CallsInside s (.task step))
    (hstep : taskStep s step = some u) : Looking u := by
  intro t hlooks
  rw [(sameCalls_taskStep hstep).caller] at hlooks ⊢
  obtain ⟨htask, hfound⟩ := h t hlooks
  obtain ⟨htask', hleases⟩ := keepsTable_taskStep hstep hinside hlooks htask
  exact ⟨htask', fun table heq => (hfound table heq).trans hleases.symm⟩

/-- Where a call comes to: it begins or goes on, and finds an entry through `g_leases`. -/
structure Goes (s u : Dhcpd τ) (t : τ) (step : CallStep) : Prop where
  other : ∀ other ≠ t, u.caller other = s.caller other
  looks : (u.caller t).looks = true → (s.caller t).looks = true ∨ step = .clearleaseBymac ∨
    ∃ valid, step = .dhcpdLeaseGetApi valid
  found : ∀ table, u.caller t = .found table → table = s.gLeases

theorem goes_setCaller {s' : Dhcpd τ} (hsame : s'.caller = s.caller) {step : CallStep}
    {caller : Caller}
    (hlooks : caller.looks = true → (s.caller t).looks = true ∨ step = .clearleaseBymac ∨
      ∃ valid, step = .dhcpdLeaseGetApi valid)
    (hfound : ∀ table, caller = .found table → table = s.gLeases) :
    Goes s (setCaller s' t caller) t step where
  other := fun other hne => by rw [setCaller_of_ne s' hne, hsame]
  looks := by rwa [setCaller_self]
  found := by rwa [setCaller_self]

theorem goes_callStep {step : CallStep} (hstep : callStep s t step = some u) :
    Goes s u t step := by
  unfold Lifecycle.callStep at hstep
  split at hstep
  case h_1 hcaller =>
    cases hstep
    dsimp only
    split_ifs
    · exact ⟨fun _ _ => rfl, by simp [hcaller, Caller.looks], by simp [hcaller]⟩
    · refine goes_setCaller ?_ ?_ ?_
      · rfl
      · simp [Caller.looks]
      · simp
  case h_7 hcaller =>
    cases hstep
    split_ifs
    · exact goes_setCaller rfl (by simp [Caller.looks]) (by simp)
    · exact ⟨fun _ _ => rfl, by simp [hcaller, Caller.looks], by simp [hcaller]⟩
  case h_9 hcaller =>
    cases hstep
    split_ifs
    all_goals
      refine goes_setCaller ?_ ?_ ?_
      · rfl
      · simp [Caller.looks]
      · simp
  case h_18 => cases hstep
  all_goals
    rename_i hcaller
    cases hstep
    refine goes_setCaller ?_ ?_ ?_
    · rfl
    · grind [Caller.looks]
    · grind

theorem Looking.callStep {step : CallStep} (h : Looking s)
    (hinside : CallsInside s (.call t step)) (hstep : callStep s t step = some u) :
    Looking u := by
  obtain ⟨hother, hlooks, hfound⟩ := goes_callStep hstep
  obtain ⟨-, hleases, -, htask⟩ := sameServer_callStep hstep
  intro other hlooking
  rw [htask, hleases]
  by_cases heq : other = t
  · subst heq
    refine ⟨?_, hfound⟩
    rcases hlooks hlooking with hbefore | rfl | ⟨valid, rfl⟩
    · exact (h other hbefore).1
    · exact hinside
    · exact hinside
  · rw [hother other heq] at hlooking ⊢
    exact h other hlooking

omit [DecidableEq τ] in
/-- Every access is made by a call under way, or by the server itself. -/
theorem Looking.access {event : Event τ} (h : Looking s) {pointer : Option Nat}
    (haccess : access s event = some pointer) :
    s.task.hasTable = true ∧ pointer = s.gLeases := by
  cases event with
  | call t step =>
    have hlooking := h t
    unfold Lifecycle.access at haccess
    dsimp only at haccess
    split at haccess
    · rename_i hcaller
      cases haccess
      exact ⟨(hlooking (by rw [hcaller]; rfl)).1, rfl⟩
    · rename_i hcaller
      cases haccess
      obtain ⟨htask, hfound⟩ := hlooking (by rw [hcaller]; rfl)
      exact ⟨htask, hfound _ hcaller⟩
    · rename_i hcaller
      cases haccess
      exact ⟨(hlooking (by rw [hcaller]; rfl)).1, rfl⟩
    · rename_i hcaller
      split_ifs at haccess
      cases haccess
      exact ⟨(hlooking (by rw [hcaller]; rfl)).1, rfl⟩
    · cases haccess
  | task step =>
    unfold Lifecycle.access at haccess
    split at haccess
    · rename_i heq
      cases heq
    · split_ifs at haccess with hserving
      cases haccess
      exact ⟨by rw [hserving]; rfl, rfl⟩
    · cases haccess

/-- Where every stop that returns 0 leaves nothing of the starts behind, and the two calls
that go through the table are made and finished while the dhcpd task has it, no loop serves
between a stop and the next start, and every access is to the table in memory. -/
theorem lifecycle_of_callsInside {events : List (Event τ)}
    (hrun : Run step (fun s event =>
      (returnsStopped s event = true → Settled s) ∧ CallsInside s event) dhcpdInit events s) :
    Stopped s ∧ Run step SafeAccess dhcpdInit events s := by
  have hcareful : Looking s ∧ Run step Careful dhcpdInit events s := by
    induction hrun with
    | nil =>
      refine ⟨fun t hlooks => ?_, .nil⟩
      cases hlooks
    | @snoc _ _ event _ _ hallowed hstep ih =>
      obtain ⟨hlooking, hcareful⟩ := ih
      refine ⟨?_, hcareful.snoc ⟨hallowed.1, fun _ haccess => hlooking.access haccess⟩ hstep⟩
      cases event with
      | call t step => exact hlooking.callStep hallowed.2 hstep
      | task step => exact hlooking.taskStep hallowed.2 hstep
  exact ⟨(quiet_of_run hcareful.2).2.stopped, run_safeAccess hcareful.2⟩

/-! ### What a stop leaves behind -/

/-- The loop serves after steps that do not call `udhcpd_start`. -/
def Serves (s : Dhcpd τ) : Prop :=
  ∃ events u, Run step (fun _ event => ∀ t, event ≠ .call t .udhcpdStart) s events u ∧
    u.task = .serving

theorem Serves.of_step (event : Event τ) (hevent : ∀ t, event ≠ .call t .udhcpdStart)
    (hstep : step s event = some u) (h : Serves u) : Serves s := by
  obtain ⟨events, v, hrun, hserving⟩ := h
  exact ⟨[event] ++ events, v, (Run.nil.snoc hevent hstep).trans hrun, hserving⟩

theorem Serves.of_taskStep (step : TaskStep) (hstep : Lifecycle.taskStep s step = some u)
    (h : Serves u) : Serves s :=
  h.of_step (.task step) (fun _ heq => by cases heq) hstep

theorem Serves.of_callStep (t : τ) {step : CallStep} (hne : step ≠ .udhcpdStart)
    (hstep : Lifecycle.callStep s t step = some u) (h : Serves u) : Serves s :=
  h.of_step (.call t step) (fun _ heq => hne (by cases heq; rfl)) hstep

theorem serves_of_dequeued (htask : s.task = .dequeued) (hrun : s.dhcpdRun = true) :
    Serves s := by
  cases s
  cases htask
  cases hrun
  have hlast {s : Dhcpd τ} (htask : s.task = .serving) : Serves s := ⟨[], s, .nil, htask⟩
  exact .of_taskStep .markStarted rfl <| .of_taskStep (.allocTable true) rfl <|
    .of_taskStep (.listen true) rfl <| .of_taskStep (.allocPacket true) rfl <|
    .of_taskStep .testRun rfl <| hlast rfl

theorem serves_of_queue (hinv : Inv s) (hstart : s.dhcpdStart = false) (hqueue : s.queue ≠ 0)
    (hrun : s.dhcpdRun = true) : Serves s := by
  rcases hinv.waiting_or_dequeued hstart with htask | htask
  · have hstep : Lifecycle.taskStep s .dequeue =
        some { s with queue := s.queue - 1, task := .dequeued } := by
      unfold Lifecycle.taskStep
      rw [htask]
      exact if_neg hqueue
    exact .of_taskStep .dequeue hstep (serves_of_dequeued rfl hrun)
  · exact serves_of_dequeued htask hrun

/-- A caller in front of the queue. -/
theorem serves_of_enqueue (hinv : Inv s) (hstart : s.dhcpdStart = false)
    (hrun : s.dhcpdRun = true) (hcaller : s.caller t = .startEnqueue) : Serves s := by
  have hstep : Lifecycle.callStep s t .enqueue = some (setCaller { s with
      queue := if s.queue < qlength then s.queue + 1 else s.queue } t (.startWait 100)) := by
    unfold Lifecycle.callStep
    rw [hcaller]
  refine .of_callStep t (by decide) hstep (serves_of_queue (hinv.callStep hstep) hstart ?_ hrun)
  simp only [setCaller]
  split_ifs with hfull
  · exact Nat.succ_ne_zero _
  · exact fun hzero => hfull (hzero ▸ by decide)

/-- A caller that has set `dhcpd_run` and waits for the memory of its message. -/
theorem serves_of_alloc (hinv : Inv s) (hstart : s.dhcpdStart = false)
    (hrun : s.dhcpdRun = true) {times : Nat} (hcaller : s.caller t = .startAlloc times) :
    Serves s := by
  have hstep : Lifecycle.callStep s t (.alloc true) =
      some (setCaller s t .startEnqueue) := by
    unfold Lifecycle.callStep
    rw [hcaller]
    rfl
  exact .of_callStep t (by decide) hstep
    (serves_of_enqueue (hinv.callStep hstep) hstart hrun (setCaller_self ..))

/-- `Settled` says no more than it has to: where it fails while `dhcpd_start` is clear, the
loop can serve without another start. -/
theorem serves_of_not_settled (hinv : Inv s) (hstart : s.dhcpdStart = false)
    (h : ¬ Settled s) : Serves s := by
  by_cases hstarting : ∃ t, s.caller t = .startRun
  · obtain ⟨t, hcaller⟩ := hstarting
    have hstep : Lifecycle.callStep s t .setRun =
        some (setCaller { s with dhcpdRun := true } t (.startAlloc 10)) := by
      unfold Lifecycle.callStep
      rw [hcaller]
    exact .of_callStep t (by decide) hstep
      (serves_of_alloc (hinv.callStep hstep) hstart rfl (setCaller_self ..))
  have hnone : ∀ t, s.caller t ≠ .startRun := fun t heq => hstarting ⟨t, heq⟩
  have hrun : s.dhcpdRun = true := by
    by_contra hrun
    exact h ⟨hnone, .inl (eq_false_of_ne_true hrun)⟩
  by_cases hqueue : s.queue = 0
  · rcases hinv.waiting_or_dequeued hstart with htask | htask
    · obtain ⟨t, hcaller⟩ : ∃ t, (s.caller t).isStarting = true := by
        by_contra hcallers
        exact h ⟨hnone, .inr ⟨hqueue, htask, fun t => by simpa using fun heq => hcallers ⟨t, heq⟩⟩⟩
      cases hplace : s.caller t with
      | startRun => exact absurd hplace (hnone t)
      | startAlloc times => exact serves_of_alloc hinv hstart hrun hplace
      | startEnqueue => exact serves_of_enqueue hinv hstart hrun hplace
      | _ =>
        rw [hplace] at hcaller
        cases hcaller
    · exact serves_of_dequeued htask hrun
  · exact serves_of_queue hinv hstart hqueue hrun

/-! ### A stop between the message and the flag, and a table that is gone -/

def stopInWindow : List (Event Bool) :=
  [.call false .udhcpdStart, .call false .setRun, .call false (.alloc true), .call false .enqueue,
    .call true .udhcpdStop, .task .dequeue, .task .markStarted, .task (.allocTable true),
    .task (.listen true), .task (.allocPacket true), .task .testRun]

/-- The table of ten entries is freed without a packet, and its pointer kept. -/
def clearAfterRun : List (Event Bool) :=
  [.call false .udhcpdStart, .call false .setRun, .call false (.alloc true), .call false .enqueue,
    .task .dequeue, .task .markStarted, .task (.config 10), .task (.allocTable true),
    .task (.listen true), .task (.allocPacket false), .call true .clearleaseBymac,
    .call true .test]

theorem stop_in_window_serves :
    ¬ (∀ (events : List (Event Bool)) (s : Dhcpd Bool),
      Run step anyStep dhcpdInit events s → Stopped s) ∧
    ¬ ∀ (events : List (Event Bool)) (s : Dhcpd Bool) (event : Event Bool),
      Run step anyStep dhcpdInit events s → SafeAccess s event := by
  constructor
  · intro hall
    obtain ⟨s, hexec, hquiet, hserving⟩ : ∃ s : Dhcpd Bool,
        exec step dhcpdInit stopInWindow = some s ∧ s.quiet = true ∧ s.task = .serving :=
      ⟨_, rfl, rfl, rfl⟩
    exact hall stopInWindow s (Run.of_exec hexec) hquiet hserving
  · intro hall
    obtain ⟨s, hexec, haccess, htable⟩ : ∃ s : Dhcpd Bool,
        exec step dhcpdInit clearAfterRun = some s ∧
          access s (.call true (.compare true)) = some (some 0) ∧ s.table = none :=
      ⟨_, rfl, rfl, rfl⟩
    obtain ⟨table, -, -, hsome⟩ := hall clearAfterRun s _ (Run.of_exec hexec) _ haccess
    rw [htable] at hsome
    cases hsome

end Sv6x66.Udhcp.Lifecycle
