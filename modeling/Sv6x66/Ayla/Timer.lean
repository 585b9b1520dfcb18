import Mathlib.Data.Fintype.Card
import Sv6x66.Lib.Agenda
import Sv6x66.Lib.PointerList
import Sv6x66.Lib.Run
import Sv6x66.Lib.Serial

/-! The timers of the Ayla client, a list in the order in which they are due, and what
`timer_advance` makes of it. The list keeps the lower half of a time, where 0 stands for a
timer that is not set. -/
namespace Sv6x66.Ayla.Timer
open Sv6x66.Lib Sv6x66.Lib.PointerList Function

variable {α η : Type}

def timerDelayMax : UInt32 := 0x7fffffff

/-- `(int)(a - b) > 0`. -/
def clockGt (a b : UInt32) : Bool := 0 < (a - b).toBitVec.toInt

/-- The members of every `struct timer`, and the `first` of the `struct timer_head`. -/
structure Timers (α η : Type) extends Links α where
  timeMs : α → UInt32
  handler : α → Option η

def timerActive (s : Timers α η) (timer : α) : Bool := s.timeMs timer ≠ 0

variable [DecidableEq α]

def setTime (s : Timers α η) (timer : α) (time : UInt32) : Timers α η :=
  { s with timeMs := update s.timeMs timer time }

def timerInit (s : Timers α η) (timer : α) (handler : Option η) : Timers α η :=
  { next := update s.next timer none
    first := s.first
    timeMs := update s.timeMs timer 0
    handler := update s.handler timer handler }

variable [Fintype α]

/-- A walk that takes more turns than there are timers goes on for ever. -/
def walk (s : Timers α η) (stop : α → Bool) : Option (Option α) :=
  seek s.toLinks stop (Fintype.card α + 1) none

def timerCancel (s : Timers α η) (timer : α) : Option (Timers α η) :=
  (walk s fun node => node = timer).map fun prev =>
    match s.get prev with
    | none => s
    | some node => setTime { s with toLinks := s.set prev (s.next node) } node 0

/-- What `timer_set` makes of the delay: no more than the maximum, and not 0, which is
stepped back over. -/
def deadline (now : UInt64) (ms : UInt32) : UInt64 :=
  let ms := if ms > timerDelayMax then timerDelayMax else ms
  let time := now + ms.toUInt64
  if time = 0 then time - 1 else time

def timerSet (s : Timers α η) (now : UInt64) (timer : α) (ms : UInt32) :
    Option (Timers α η) := do
  let time := deadline now ms
  let s ← (if timerActive s timer then timerCancel s timer else some s)
  let s := setTime s timer time.toUInt32
  let prev ← walk s fun node => clockGt (s.timeMs node) time.toUInt32
  let node := s.get prev
  some { s with toLinks := (s.set prev (some timer)).set (some timer) node }

def timerReset (s : Timers α η) (now : UInt64) (timer : α) (handler : Option η) (ms : UInt32) :
    Option (Timers α η) := do
  let s ← (if timerActive s timer then timerCancel s timer else some s)
  timerSet (timerInit s timer handler) now timer ms

omit [Fintype α] [DecidableEq α] in
def timerDelayGetMs (s : Timers α η) (now : UInt64) (timer : α) : UInt32 :=
  if s.timeMs timer = 0 then 0 else ((s.timeMs timer).toUInt64 - now).toUInt32

omit [Fintype α] [DecidableEq α] in
def timerDeltaGet (s : Timers α η) (now : UInt64) : Int :=
  match s.first with
  | none => -1
  | some timer =>
    if s.timeMs timer = 0 then -1
    else max 0 ((s.timeMs timer).toUInt64 - now).toUInt32.toBitVec.toInt

/-- `timer_run` without the handler. -/
def timerRun (s : Timers α η) (timer : α) : Timers α η :=
  setTime { s with toLinks := s.set (some timer) none } timer 0

/-- What a turn of the loop of `timer_advance` comes to. -/
inductive Turn (α : Type) where
  | returned (delay : Int)
  | ran (timer : α)

omit [Fintype α] [DecidableEq α] in
def turn (s : Timers α η) (now : UInt64) : Turn α :=
  match s.first with
  | none => .returned (-1)
  | some node =>
    if clockGt (s.timeMs node) now.toUInt32 then
      .returned ((s.timeMs node).toUInt64 - now).toUInt32.toBitVec.toInt
    else .ran node

/-- The turn that runs the first timer: it is unlinked before its handler is called. -/
def advance (s : Timers α η) : Option (α × Timers α η) :=
  s.first.map fun node => (node, timerRun { s with first := s.next node } node)

def alAdaTimerSet (s : Timers α η) (now : UInt64) (timer : α) (ms : UInt32) :
    Option (Timers α η) :=
  -- the assertion on the delay
  if ms &&& 0x80000000 = 0 then timerSet s now timer ms else none

/-! ### Runs -/

/-- What the delay is a delay until. -/
def dueTime (now : UInt64) (ms : UInt32) : Int :=
  let time := now.toNat + min ms.toNat timerDelayMax.toNat
  if time = 0 then -1 else time

/-- `now` is what `al_clock_get_total_ms` returns, and `running` the timer whose handler is
called. `agenda` and `fired` record what was set and run. -/
structure World (α η : Type) where
  timers : Timers α η
  now : UInt64
  running : Option α
  agenda : Agenda α
  fired : List α

omit [DecidableEq α] [Fintype α] in
def start (now : UInt64) : World α η where
  timers := { first := none, next := fun _ => none, timeMs := fun _ => 0, handler := fun _ => none }
  now := now
  running := none
  agenda := .empty
  fired := []

/-- The time that passes, the calls of the client and of the handlers, and the turns of
`timer_advance`. -/
inductive Event (α η : Type) where
  | clock (now : UInt64)
  | init (timer : α) (handler : Option η)
  | set (timer : α) (ms : UInt32)
  | reset (timer : α) (handler : Option η) (ms : UInt32)
  | cancel (timer : α)
  | turn
  | handlerReturns

def step (w : World α η) : Event α η → Option (World α η)
  | .clock now => some { w with now }
  | .init timer handler => some { w with timers := timerInit w.timers timer handler }
  | .set timer ms => (alAdaTimerSet w.timers w.now timer ms).map fun timers =>
    { w with timers, agenda := w.agenda.set timer (dueTime w.now ms) }
  | .reset timer handler ms => (timerReset w.timers w.now timer handler ms).map fun timers =>
    { w with timers, agenda := w.agenda.set timer (dueTime w.now ms) }
  | .cancel timer => (timerCancel w.timers timer).map fun timers =>
    { w with timers, agenda := w.agenda.cancel timer }
  | .turn =>
    if w.running.isSome then none
    else
      match turn w.timers w.now, advance w.timers with
      | .ran _, some (timer, timers) => some { w with
        timers
        running := if (timers.handler timer).isSome then some timer else none
        agenda := w.agenda.cancel timer
        fired := w.fired ++ [timer] }
      | _, _ => some w
  | .handlerReturns => if w.running.isSome then some { w with running := none } else none

/-- Nothing else is due so much earlier or later that the order of the lower halves is
another one. -/
def Near (g : Agenda α) (timer : α) (due : Int) : Prop :=
  ∀ other, other ≠ timer → ∀ a ∈ g.armed other, due ≤ a.due + 2 ^ 31 ∧ a.due < due + 2 ^ 31

instance (g : Agenda α) (timer : α) (due : Int) : Decidable (Near g timer due) := by
  unfold Near
  infer_instance

/-- The clock does not go back and leaves no timer overdue for 2^31 ms, no timer is set for
a multiple of 2^32 ms, and none is initialised while it is set. -/
def Calm (w : World α η) : Event α η → Prop
  | .clock now => w.now ≤ now ∧ now.toNat < 2 ^ 63 ∧
      ∀ timer, ∀ a ∈ w.agenda.armed timer, now.toNat ≤ a.due + 2 ^ 31
  | .init timer _ => w.agenda.armed timer = none
  | .set timer ms | .reset timer _ ms =>
    ¬ 2 ^ 32 ∣ dueTime w.now ms ∧ Near w.agenda timer (dueTime w.now ms)
  | _ => True

/-! ### Times and their lower halves -/

theorem deadline_toUInt32 {now : UInt64} (hnow : now.toNat < 2 ^ 63) (ms : UInt32) :
    (deadline now ms).toUInt32 = UInt32.ofInt (dueTime now ms) := by
  have hmax : timerDelayMax.toNat = 2 ^ 31 - 1 := rfl
  have hms : (if ms > timerDelayMax then timerDelayMax else ms).toNat =
      min ms.toNat timerDelayMax.toNat := by
    split_ifs with hgt
    · exact (min_eq_right (UInt32.lt_iff_toNat_lt.mp hgt).le).symm
    · exact (min_eq_left (UInt32.le_iff_toNat_le.mp (UInt32.not_lt.mp hgt))).symm
  unfold deadline dueTime
  dsimp only
  rw [← hms]
  generalize (if ms > timerDelayMax then timerDelayMax else ms) = delay at hms
  have hsum : (now + delay.toUInt64).toNat = now.toNat + delay.toNat := by
    rw [UInt64.toNat_add, UInt32.toNat_toUInt64]
    omega
  by_cases hzero : now + delay.toUInt64 = 0
  · have hnat : now.toNat + delay.toNat = 0 := by
      rw [← hsum, hzero]
      rfl
    rw [if_pos hzero, if_pos hnat, hzero]
    rfl
  · have hnat : now.toNat + delay.toNat ≠ 0 := by
      intro hnat
      exact hzero (UInt64.toNat_inj.mp (hsum.trans hnat))
    rw [if_neg hzero, if_neg hnat, Serial.toUInt32_eq, hsum]

theorem dueTime_bounds (now : UInt64) (ms : UInt32) :
    now.toNat - 1 ≤ dueTime now ms ∧ dueTime now ms < now.toNat + 2 ^ 31 := by
  have hmax : timerDelayMax.toNat = 2 ^ 31 - 1 := rfl
  unfold dueTime
  dsimp only
  rw [hmax]
  split_ifs <;> omega

/-! ### The list -/

/-- The list is the agenda in its order, with the lower halves of its times. -/
structure Holds (s : Timers α η) (g : Agenda α) (nodes : List α) : Prop where
  list : IsList s.toLinks nodes
  lists : g.Lists nodes
  time : ∀ timer, s.timeMs timer = (g.armed timer).elim 0 fun a => UInt32.ofInt a.due
  nonzero : ∀ timer, ∀ a ∈ g.armed timer, UInt32.ofInt a.due ≠ 0

variable {s : Timers α η} {g : Agenda α} {nodes front back : List α} {timer : α}

omit [Fintype α] [DecidableEq α] in
theorem Holds.time_eq (h : Holds s g nodes) {a : Alarm} (ha : a ∈ g.armed timer) :
    s.timeMs timer = UInt32.ofInt a.due := by
  rw [h.time, show g.armed timer = some a from ha]
  rfl

omit [Fintype α] [DecidableEq α] in
theorem Holds.time_eq_zero (h : Holds s g nodes) (hnone : g.armed timer = none) :
    s.timeMs timer = 0 := by
  rw [h.time, hnone]
  rfl

omit [Fintype α] [DecidableEq α] in
theorem Holds.timerActive_eq (h : Holds s g nodes) (timer : α) :
    timerActive s timer = (g.armed timer).isSome := by
  unfold timerActive
  cases ha : g.armed timer with
  | none =>
    rw [h.time_eq_zero ha]
    rfl
  | some a =>
    rw [h.time_eq ha]
    exact decide_eq_true (h.nonzero timer a ha)

omit [Fintype α] [DecidableEq α] in
theorem Holds.not_mem (h : Holds s g nodes) (hnone : g.armed timer = none) : timer ∉ nodes := by
  rw [h.lists.mem_iff, hnone]
  exact Bool.false_ne_true

omit [DecidableEq α] in
theorem walk_eq {stop : α → Bool} (h : IsList s.toLinks (front ++ back))
    (hfront : ∀ y ∈ front, stop y = false) (hback : ∀ y ∈ back.head?, stop y = true) :
    walk s stop = some front.getLast? := by
  have hlength := h.nodup.length_le_card
  rw [List.length_append] at hlength
  exact h.seek_eq hfront hback (by omega)

theorem Holds.timerCancel (h : Holds s g nodes) (timer : α) : ∃ s' nodes',
    timerCancel s timer = some s' ∧ Holds s' (g.cancel timer) nodes' := by
  cases harmed : g.armed timer with
  | none =>
    have hstop : ∀ y ∈ nodes, decide (y = timer) = false := by
      rintro y hy
      refine decide_eq_false ?_
      rintro rfl
      exact h.not_mem harmed hy
    have hend : IsList s.toLinks (nodes ++ []) := by
      rw [List.append_nil]
      exact h.list
    refine ⟨s, nodes, ?_, ?_⟩
    · rw [Timer.timerCancel, walk_eq hend hstop (by simp), Option.map_some, hend.get_getLast?]
      rfl
    · rw [Agenda.cancel_of_not_armed harmed]
      exact h
  | some a =>
    have hmem : timer ∈ nodes := (h.lists.mem_iff timer).mpr (harmed ▸ rfl)
    obtain ⟨front, back, rfl⟩ := List.append_of_mem hmem
    have hstop : ∀ y ∈ front, decide (y = timer) = false := by
      rintro y hy
      refine decide_eq_false ?_
      rintro rfl
      have hnodup := List.nodup_cons.mp (List.perm_middle.nodup_iff.mp h.list.nodup)
      exact hnodup.1 (List.mem_append_left back hy)
    refine ⟨setTime { s with toLinks := s.set front.getLast? (s.next timer) } timer 0,
      front ++ back, ?_, ?_⟩
    · rw [Timer.timerCancel, walk_eq h.list hstop (by simp), Option.map_some,
        h.list.get_getLast?]
      rfl
    · refine ⟨h.list.remove, h.lists.cancel, fun y => ?_, fun y b hb => ?_⟩
      · by_cases hy : y = timer
        · subst hy
          rw [Agenda.cancel_self]
          exact update_self ..
        · rw [Agenda.cancel_of_ne hy, ← h.time]
          exact update_of_ne hy ..
      · exact h.nonzero y b (Agenda.armed_of_cancel hb).2

/-- The first step of `timer_set` and of `timer_reset`. -/
theorem Holds.inactive (h : Holds s g nodes) (timer : α) : ∃ s' nodes',
    (if timerActive s timer then Timer.timerCancel s timer else some s) = some s' ∧
      Holds s' (g.cancel timer) nodes' := by
  rw [h.timerActive_eq]
  cases harmed : g.armed timer with
  | none =>
    refine ⟨s, nodes, rfl, ?_⟩
    rw [Agenda.cancel_of_not_armed harmed]
    exact h
  | some a => exact h.timerCancel timer

omit [Fintype α] in
theorem Holds.timerInit (h : Holds s g nodes) (hnone : g.armed timer = none)
    (handler : Option η) : Holds (timerInit s timer handler) g nodes where
  list := by
    refine h.list.congr rfl fun y hy => update_of_ne ?_ ..
    rintro rfl
    exact h.not_mem hnone hy
  lists := h.lists
  time := by
    intro y
    by_cases hy : y = timer
    · subst hy
      rw [hnone]
      exact update_self ..
    · rw [← h.time]
      exact update_of_ne hy ..
  nonzero := h.nonzero

/-- The timer is linked where the timers get later. -/
theorem Holds.link (h : Holds s g nodes) (hnone : g.armed timer = none) {due : Int}
    (hnonzero : ¬ 2 ^ 32 ∣ due) (hnear : Near g timer due) :
    ∃ prev nodes', walk (setTime s timer (UInt32.ofInt due)) (fun node =>
        clockGt ((setTime s timer (UInt32.ofInt due)).timeMs node) (UInt32.ofInt due)) =
          some prev ∧
      Holds { setTime s timer (UInt32.ofInt due) with
        toLinks := (s.set prev (some timer)).set (some timer) (s.get prev) }
          (g.set timer due) nodes' := by
  obtain ⟨front, back, rfl, hfront, hback⟩ := h.lists.split due
  have hother : ∀ y ∈ front ++ back, y ≠ timer := by
    rintro y hy rfl
    exact h.not_mem hnone hy
  have hgt : ∀ y ∈ front ++ back, ∀ a ∈ g.armed y,
      (clockGt ((setTime s timer (UInt32.ofInt due)).timeMs y) (UInt32.ofInt due) = true ↔
        due < a.due) := by
    intro y hy a ha
    have htime : (setTime s timer (UInt32.ofInt due)).timeMs y = UInt32.ofInt a.due :=
      (update_of_ne (hother y hy) ..).trans (h.time_eq ha)
    obtain ⟨hlow, hhigh⟩ := hnear y (hother y hy) a ha
    rw [htime, clockGt, decide_eq_true_iff, Serial.sub_pos_iff hlow hhigh]
  refine ⟨front.getLast?, front ++ timer :: back, walk_eq h.list ?_ ?_, ?_, ?_, ?_, ?_⟩
  · intro y hy
    obtain ⟨a, ha⟩ := h.lists.armed_of_mem (List.mem_append_left back hy)
    rw [Bool.eq_false_iff, ne_eq, hgt y (List.mem_append_left back hy) a ha]
    exact (hfront y hy a ha).not_gt
  · intro y hy
    have hmem := List.mem_of_head? hy
    obtain ⟨a, ha⟩ := h.lists.armed_of_mem (List.mem_append_right front hmem)
    exact (hgt y (List.mem_append_right front hmem) a ha).mpr (hback y hmem a ha)
  · rw [h.list.get_getLast?]
    exact h.list.insert (h.not_mem hnone)
  · exact h.lists.insert hnone hfront hback
  · intro y
    by_cases hy : y = timer
    · subst hy
      rw [Agenda.set_self]
      exact update_self ..
    · rw [Agenda.set_of_ne hy, ← h.time]
      exact update_of_ne hy ..
  · intro y a ha
    by_cases hy : y = timer
    · subst hy
      rw [Agenda.set_self] at ha
      cases ha
      exact Serial.ofInt_ne_zero hnonzero
    · rw [Agenda.set_of_ne hy] at ha
      exact h.nonzero y a ha

omit [Fintype α] in
theorem Near.cancel {due : Int} (h : Near g timer due) : Near (g.cancel timer) timer due := by
  intro other hother a ha
  rw [Agenda.cancel_of_ne hother] at ha
  exact h other hother a ha

theorem Holds.timerSet (h : Holds s g nodes) {now : UInt64} (hnow : now.toNat < 2 ^ 63)
    {ms : UInt32} (hnonzero : ¬ 2 ^ 32 ∣ dueTime now ms)
    (hnear : Near g timer (dueTime now ms)) : ∃ s' nodes',
      timerSet s now timer ms = some s' ∧ Holds s' (g.set timer (dueTime now ms)) nodes' := by
  obtain ⟨s₁, nodes₁, hinactive, h₁⟩ := h.inactive timer
  obtain ⟨prev, nodes', hwalk, hlinked⟩ :=
    h₁.link (Agenda.cancel_self ..) hnonzero hnear.cancel
  rw [Agenda.set_cancel] at hlinked
  refine ⟨_, nodes', ?_, hlinked⟩
  unfold Timer.timerSet
  dsimp only
  rw [hinactive, deadline_toUInt32 hnow]
  dsimp only [Option.bind_eq_bind, Option.bind_some]
  rw [hwalk]
  rfl

theorem Holds.timerReset (h : Holds s g nodes) {now : UInt64} (hnow : now.toNat < 2 ^ 63)
    (handler : Option η) {ms : UInt32} (hnonzero : ¬ 2 ^ 32 ∣ dueTime now ms)
    (hnear : Near g timer (dueTime now ms)) : ∃ s' nodes',
      timerReset s now timer handler ms = some s' ∧
        Holds s' (g.set timer (dueTime now ms)) nodes' := by
  obtain ⟨s₁, nodes₁, hinactive, h₁⟩ := h.inactive timer
  obtain ⟨s', nodes', hset, h'⟩ :=
    (h₁.timerInit (Agenda.cancel_self ..) handler).timerSet hnow hnonzero hnear.cancel
  rw [Agenda.set_cancel] at h'
  refine ⟨s', nodes', ?_, h'⟩
  unfold Timer.timerReset
  rw [hinactive]
  exact hset

omit [Fintype α] in
theorem Holds.advance (h : Holds s g (timer :: nodes)) : ∃ s',
    advance s = some (timer, s') ∧ Holds s' (g.cancel timer) nodes := by
  have hfresh := (List.nodup_cons.mp h.list.nodup).1
  have hlist : IsList s.toLinks ([] ++ timer :: nodes) := h.list
  have hlists : g.Lists ([] ++ timer :: nodes) := h.lists
  refine ⟨timerRun { s with first := s.next timer } timer, ?_, ?_,
    hlists.cancel, ?_, ?_⟩
  · rw [Timer.advance, h.list.first_eq]
    rfl
  · refine hlist.remove.congr rfl fun y hy => update_of_ne ?_ ..
    rintro rfl
    exact hfresh hy
  · intro y
    by_cases hy : y = timer
    · subst hy
      rw [Agenda.cancel_self]
      exact update_self ..
    · rw [Agenda.cancel_of_ne hy, ← h.time]
      exact update_of_ne hy ..
  · exact fun y b hb => h.nonzero y b (Agenda.armed_of_cancel hb).2

/-! ### Every run -/

/-- What a turn of `timer_advance` is to do: run the next timer if it is due, and return how
long it is until the next one is. -/
def TurnRight (g : Agenda α) (now : UInt64) : Turn α → Prop
  | .returned delay => (∀ timer, g.armed timer = none) ∧ delay = -1 ∨
      ∃ timer a, g.IsNext timer a ∧ now.toNat < a.due ∧ delay = a.due - now.toNat
  | .ran timer => ∃ a, g.IsNext timer a ∧ a.due ≤ now.toNat

/-- The list holds the armed timers in the order in which they are due, every function says
of it what is true of them, and every walk of it ends. -/
structure Punctual (w : World α η) : Prop where
  sorted : ∃ nodes, IsList w.timers.toLinks nodes ∧ w.agenda.Lists nodes
  active : ∀ timer, timerActive w.timers timer = (w.agenda.armed timer).isSome
  turn : TurnRight w.agenda w.now (turn w.timers w.now)
  delay : ∀ timer, timerDelayGetMs w.timers w.now timer =
    (w.agenda.armed timer).elim 0 fun a => UInt32.ofInt (a.due - w.now.toNat)
  delta : (∀ timer, w.agenda.armed timer = none) ∧ timerDeltaGet w.timers w.now = -1 ∨
    ∃ timer a, w.agenda.IsNext timer a ∧
      timerDeltaGet w.timers w.now = max 0 (a.due - w.now.toNat)
  cancelReturns : ∀ timer, (timerCancel w.timers timer).isSome
  setReturns : ∀ timer ms, Calm w (.set timer ms) → (timerSet w.timers w.now timer ms).isSome
  resetReturns : ∀ timer handler ms, Calm w (.reset timer handler ms) →
    (timerReset w.timers w.now timer handler ms).isSome

structure Inv (w : World α η) : Prop where
  holds : ∃ nodes, Holds w.timers w.agenda nodes
  now : w.now.toNat < 2 ^ 63
  window : ∀ timer, ∀ a ∈ w.agenda.armed timer,
    w.now.toNat ≤ a.due + 2 ^ 31 ∧ a.due < w.now.toNat + 2 ^ 31

variable {w w' : World α η}

omit [DecidableEq α] [Fintype α] in
theorem inv_start {now : UInt64} (hnow : now.toNat < 2 ^ 63) : Inv (start now : World α η) where
  holds := ⟨[], .empty _, .empty, fun _ => rfl, by
    intro timer a ha
    cases ha⟩
  now := hnow
  window := by
    intro timer a ha
    cases ha

omit [Fintype α] in
theorem Inv.set_window (h : Inv w) (timer : α) (ms : UInt32) :
    ∀ y, ∀ a ∈ (w.agenda.set timer (dueTime w.now ms)).armed y,
      w.now.toNat ≤ a.due + 2 ^ 31 ∧ a.due < w.now.toNat + 2 ^ 31 := by
  intro y a ha
  by_cases hy : y = timer
  · subst hy
    rw [Agenda.set_self] at ha
    cases ha
    have hbounds := dueTime_bounds w.now ms
    dsimp only
    omega
  · rw [Agenda.set_of_ne hy] at ha
    exact h.window y a ha

omit [Fintype α] in
theorem Inv.cancel_window (h : Inv w) (timer : α) :
    ∀ y, ∀ a ∈ (w.agenda.cancel timer).armed y,
      w.now.toNat ≤ a.due + 2 ^ 31 ∧ a.due < w.now.toNat + 2 ^ 31 := by
  intro y a ha
  exact h.window y a (Agenda.armed_of_cancel ha).2

omit [DecidableEq α] [Fintype α] in
/-- The first timer of the list decides. -/
theorem Inv.turn_right (h : Inv w) : TurnRight w.agenda w.now (turn w.timers w.now) := by
  obtain ⟨nodes, hholds⟩ := h.holds
  unfold turn
  rw [hholds.list.first_eq]
  cases nodes with
  | nil => exact .inl ⟨hholds.lists.none_armed, rfl⟩
  | cons timer nodes =>
    obtain ⟨a, hnext⟩ := hholds.lists.isNext
    obtain ⟨hlow, hhigh⟩ := h.window timer a hnext.armed
    have hgt := Serial.sub_pos_iff hlow hhigh
    dsimp only [List.head?_cons]
    rw [hholds.time_eq hnext.armed, Serial.toUInt32_sub_eq]
    by_cases hlater : w.now.toNat < a.due
    · rw [if_pos (by rw [clockGt, Serial.toUInt32_eq, decide_eq_true_iff, hgt]; exact hlater)]
      refine .inr ⟨timer, a, hnext, hlater, ?_⟩
      rw [Serial.toInt_ofInt (by omega) (by omega)]
    · rw [if_neg (by rw [clockGt, Serial.toUInt32_eq, decide_eq_true_iff, hgt]; exact hlater)]
      exact ⟨a, hnext, not_lt.mp hlater⟩

theorem Inv.toPunctual (h : Inv w) : Punctual w where
  sorted := by
    obtain ⟨nodes, hholds⟩ := h.holds
    exact ⟨nodes, hholds.list, hholds.lists⟩
  active := by
    obtain ⟨nodes, hholds⟩ := h.holds
    exact hholds.timerActive_eq
  turn := h.turn_right
  delay := by
    obtain ⟨nodes, hholds⟩ := h.holds
    intro timer
    unfold timerDelayGetMs
    cases harmed : w.agenda.armed timer with
    | none =>
      rw [if_pos (hholds.time_eq_zero harmed)]
      rfl
    | some a =>
      rw [hholds.time_eq harmed, if_neg (hholds.nonzero timer a harmed), Serial.toUInt32_sub_eq]
      rfl
  delta := by
    obtain ⟨nodes, hholds⟩ := h.holds
    unfold timerDeltaGet
    rw [hholds.list.first_eq]
    cases nodes with
    | nil => exact .inl ⟨hholds.lists.none_armed, rfl⟩
    | cons timer nodes =>
      obtain ⟨a, hnext⟩ := hholds.lists.isNext
      obtain ⟨hlow, hhigh⟩ := h.window timer a hnext.armed
      dsimp only [List.head?_cons]
      rw [hholds.time_eq hnext.armed, if_neg (hholds.nonzero timer a hnext.armed),
        Serial.toUInt32_sub_eq]
      refine .inr ⟨timer, a, hnext, ?_⟩
      by_cases hedge : a.due - w.now.toNat = - 2 ^ 31
      · rw [hedge]
        rfl
      · rw [Serial.toInt_ofInt (by omega) (by omega)]
  cancelReturns := by
    obtain ⟨nodes, hholds⟩ := h.holds
    intro timer
    obtain ⟨s', -, hcancel, -⟩ := hholds.timerCancel timer
    rw [hcancel]
    rfl
  setReturns := by
    obtain ⟨nodes, hholds⟩ := h.holds
    rintro timer ms ⟨hnonzero, hnear⟩
    obtain ⟨s', -, hset, -⟩ := hholds.timerSet h.now hnonzero hnear
    rw [hset]
    rfl
  resetReturns := by
    obtain ⟨nodes, hholds⟩ := h.holds
    rintro timer handler ms ⟨hnonzero, hnear⟩
    obtain ⟨s', -, hreset, -⟩ := hholds.timerReset h.now handler hnonzero hnear
    rw [hreset]
    rfl

/-- A turn runs the first timer or changes nothing. -/
theorem step_turn (h : Inv w) (hstep : step w .turn = some w') :
    (∃ delay, turn w.timers w.now = .returned delay ∧ w' = w) ∨
      ∃ timer timers nodes, turn w.timers w.now = .ran timer ∧
        Holds timers (w.agenda.cancel timer) nodes ∧ w' = { w with
          timers
          running := if (timers.handler timer).isSome then some timer else none
          agenda := w.agenda.cancel timer
          fired := w.fired ++ [timer] } := by
  obtain ⟨nodes, hholds⟩ := h.holds
  dsimp only [step] at hstep
  split_ifs at hstep
  cases hturn : turn w.timers w.now with
  | returned delay =>
    rw [hturn] at hstep
    exact .inl ⟨delay, rfl, (Option.some.inj hstep).symm⟩
  | ran timer =>
    have hfirst := hholds.list.first_eq
    cases nodes with
    | nil =>
      rw [turn, hfirst] at hturn
      cases hturn
    | cons first nodes =>
      have hran : first = timer := by
        rw [turn, hfirst] at hturn
        dsimp only [List.head?_cons] at hturn
        split_ifs at hturn
        cases hturn
        rfl
      subst hran
      obtain ⟨timers, hadvance, hholds'⟩ := hholds.advance
      rw [hturn, hadvance] at hstep
      exact .inr ⟨first, timers, nodes, rfl, hholds', (Option.some.inj hstep).symm⟩

theorem inv_step {event : Event α η} (h : Inv w) (hcalm : Calm w event)
    (hstep : step w event = some w') : Inv w' := by
  obtain ⟨nodes, hholds⟩ := h.holds
  cases event with
  | clock now =>
    cases hstep
    obtain ⟨hlater, hfar, hlate⟩ := hcalm
    refine ⟨h.holds, hfar, fun timer a ha => ⟨hlate timer a ha, ?_⟩⟩
    have hwindow := (h.window timer a ha).2
    have hmono : w.now.toNat ≤ now.toNat := hlater
    dsimp only
    omega
  | init timer handler =>
    cases hstep
    exact ⟨⟨nodes, hholds.timerInit hcalm handler⟩, h.now, h.window⟩
  | set timer ms =>
    obtain ⟨s', hset, rfl⟩ := Option.map_eq_some_iff.mp hstep
    obtain ⟨s'', nodes', hset', hholds'⟩ := hholds.timerSet h.now hcalm.1 hcalm.2
    unfold alAdaTimerSet at hset
    split_ifs at hset
    cases hset'.symm.trans hset
    exact ⟨⟨nodes', hholds'⟩, h.now, h.set_window timer ms⟩
  | reset timer handler ms =>
    obtain ⟨s', hreset, rfl⟩ := Option.map_eq_some_iff.mp hstep
    obtain ⟨s'', nodes', hreset', hholds'⟩ := hholds.timerReset h.now handler hcalm.1 hcalm.2
    cases hreset'.symm.trans hreset
    exact ⟨⟨nodes', hholds'⟩, h.now, h.set_window timer ms⟩
  | cancel timer =>
    obtain ⟨s', hcancel, rfl⟩ := Option.map_eq_some_iff.mp hstep
    obtain ⟨s'', nodes', hcancel', hholds'⟩ := hholds.timerCancel timer
    cases hcancel'.symm.trans hcancel
    exact ⟨⟨nodes', hholds'⟩, h.now, h.cancel_window timer⟩
  | turn =>
    obtain ⟨-, -, rfl⟩ | ⟨timer, timers, nodes', -, hholds', rfl⟩ := step_turn h hstep
    · exact h
    · exact ⟨⟨nodes', hholds'⟩, h.now, h.cancel_window timer⟩
  | handlerReturns =>
    dsimp only [step] at hstep
    split_ifs at hstep
    cases hstep
    exact ⟨h.holds, h.now, h.window⟩

/-- In every state of a calm run a turn runs the timer that is due first, if its time has
come, and says how long it is until the next one otherwise. -/
theorem punctual {now : UInt64} (hnow : now.toNat < 2 ^ 63) {events : List (Event α η)}
    (hrun : Run step Calm (start now) events w) : Punctual w :=
  (hrun.invariant (inv_start hnow) fun _ _ _ h hcalm hstep => inv_step h hcalm hstep).toPunctual

/-! ### A call of `timer_advance` -/

/-- The timer that a call sets or cancels. -/
def Event.target : Event α η → Option α
  | .set timer _ | .reset timer _ _ | .cancel timer => some timer
  | _ => none

/-- The time stands still, and nothing is set to be due at once. -/
def Steady : Event α η → Prop
  | .clock _ => False
  | .set _ ms | .reset _ _ ms => ms ≠ 0
  | _ => True

/-- What happened since `w`: the timers of `ran` were due and ran in their order, and those
still due were not touched. -/
structure Burst (w w' : World α η) (ran : List α) : Prop where
  now : w'.now = w.now
  fired : w'.fired = w.fired ++ ran
  kept : ∀ timer, ∀ a ∈ w'.agenda.armed timer, a.due ≤ w.now.toNat → a ∈ w.agenda.armed timer
  wasDue : ∀ timer ∈ ran, ∃ a ∈ w.agenda.armed timer, a.due ≤ w.now.toNat ∧
    ∀ y, ∀ b ∈ w'.agenda.armed y, b.due ≤ w.now.toNat → a.Before b
  sorted : ran.Pairwise fun x y =>
    ∀ a ∈ w.agenda.armed x, ∀ b ∈ w.agenda.armed y, a.Before b

omit [DecidableEq α] [Fintype α] in
theorem Burst.refl (w : World α η) : Burst w w [] where
  now := rfl
  fired := (List.append_nil _).symm
  kept := fun _ _ ha _ => ha
  wasDue := by simp
  sorted := .nil

omit [DecidableEq α] [Fintype α] in
/-- Nothing new is due. -/
theorem Burst.mono {ran : List α} (h : Burst w w' ran) {w'' : World α η}
    (hnow : w''.now = w'.now) (hfired : w''.fired = w'.fired)
    (hkept : ∀ timer, ∀ a ∈ w''.agenda.armed timer, a.due ≤ w.now.toNat →
      a ∈ w'.agenda.armed timer) : Burst w w'' ran where
  now := hnow.trans h.now
  fired := hfired.trans h.fired
  kept := fun timer a ha hdue => h.kept timer a (hkept timer a ha hdue) hdue
  wasDue := by
    intro timer hmem
    obtain ⟨a, ha, hdue, hbefore⟩ := h.wasDue timer hmem
    exact ⟨a, ha, hdue, fun y b hb hb' => hbefore y b (hkept y b hb hb') hb'⟩
  sorted := h.sorted

theorem lt_dueTime {now : UInt64} {ms : UInt32} (hms : ms ≠ 0) : now.toNat < dueTime now ms := by
  have hmax : timerDelayMax.toNat = 2 ^ 31 - 1 := rfl
  have hpos : ms.toNat ≠ 0 := fun hzero => hms (UInt32.toNat_inj.mp hzero)
  unfold dueTime
  dsimp only
  rw [hmax]
  split_ifs <;> omega

omit [Fintype α] in
/-- What is set later is not due. -/
theorem armed_of_set {timer y : α} {now : UInt64} {ms : UInt32} (hms : ms ≠ 0) {a : Alarm}
    (ha : a ∈ (g.set timer (dueTime now ms)).armed y) (hdue : a.due ≤ now.toNat) :
    a ∈ g.armed y := by
  by_cases hy : y = timer
  · subst hy
    rw [Agenda.set_self] at ha
    cases ha
    exact absurd hdue (lt_dueTime hms).not_ge
  · rwa [Agenda.set_of_ne hy] at ha

omit [Fintype α] in
theorem Burst.turn {ran : List α} (h : Burst w w' ran) {timer : α} {a : Alarm}
    (hnext : w'.agenda.IsNext timer a) (hdue : a.due ≤ w'.now.toNat) {w'' : World α η}
    (hnow : w''.now = w'.now) (hagenda : w''.agenda = w'.agenda.cancel timer)
    (hfired : w''.fired = w'.fired ++ [timer]) : Burst w w'' (ran ++ [timer]) := by
  rw [h.now] at hdue
  have hfirst := h.kept timer a hnext.armed hdue
  refine ⟨hnow.trans h.now, ?_, ?_, ?_, ?_⟩
  · rw [hfired, h.fired, List.append_assoc]
  · intro y b hb hb'
    rw [hagenda] at hb
    exact h.kept y b (Agenda.armed_of_cancel hb).2 hb'
  · intro y hy
    obtain hy | rfl := (List.mem_append.mp hy).imp_right List.mem_singleton.mp
    · obtain ⟨b, hb, hb', hbefore⟩ := h.wasDue y hy
      refine ⟨b, hb, hb', fun z c hc hc' => ?_⟩
      rw [hagenda] at hc
      exact hbefore z c (Agenda.armed_of_cancel hc).2 hc'
    · refine ⟨a, hfirst, hdue, fun z c hc _ => ?_⟩
      rw [hagenda] at hc
      obtain ⟨hne, hc⟩ := Agenda.armed_of_cancel hc
      exact hnext.first z c hne hc
  · refine List.pairwise_append.mpr ⟨h.sorted, List.pairwise_singleton .., ?_⟩
    intro x hx y hy b hb c hc
    rw [List.mem_singleton.mp hy] at hc
    cases hfirst.symm.trans hc
    obtain ⟨b', hb₁, -, hbefore⟩ := h.wasDue x hx
    cases hb₁.symm.trans hb
    exact hbefore timer a hnext.armed hdue

theorem burst_step {event : Event α η} {ran : List α} (hinv : Inv w') (h : Burst w w' ran)
    (hsteady : Steady event) {w'' : World α η} (hstep : step w' event = some w'') :
    ∃ more, Burst w w'' (ran ++ more) ∧ ∀ timer, event.target ≠ some timer →
      ∀ a ∈ w'.agenda.armed timer, timer ∈ more ∨ a ∈ w''.agenda.armed timer := by
  have hnone {w'' : World α η} (hb : Burst w w'' ran)
      (hkeeps : ∀ timer, event.target ≠ some timer → ∀ a ∈ w'.agenda.armed timer,
        a ∈ w''.agenda.armed timer) :
      ∃ more, Burst w w'' (ran ++ more) ∧ ∀ timer, event.target ≠ some timer →
        ∀ a ∈ w'.agenda.armed timer, timer ∈ more ∨ a ∈ w''.agenda.armed timer := by
    refine ⟨[], ?_, fun timer htarget a ha => .inr (hkeeps timer htarget a ha)⟩
    rwa [List.append_nil]
  have htarget {timer y : α} {event : Event α η} (he : event.target = some timer)
      (hy : event.target ≠ some y) : y ≠ timer := by
    rintro rfl
    exact hy he
  cases event with
  | clock now => cases hsteady
  | init timer handler =>
    cases hstep
    exact hnone (h.mono rfl rfl fun _ _ ha _ => ha) fun _ _ _ ha => ha
  | set timer ms =>
    obtain ⟨s', -, rfl⟩ := Option.map_eq_some_iff.mp hstep
    refine hnone (h.mono rfl rfl fun y a ha hdue => armed_of_set hsteady ha ?_) fun y hy a ha => ?_
    · rwa [h.now]
    · dsimp only
      rwa [Agenda.set_of_ne (htarget rfl hy)]
  | reset timer handler ms =>
    obtain ⟨s', -, rfl⟩ := Option.map_eq_some_iff.mp hstep
    refine hnone (h.mono rfl rfl fun y a ha hdue => armed_of_set hsteady ha ?_) fun y hy a ha => ?_
    · rwa [h.now]
    · dsimp only
      rwa [Agenda.set_of_ne (htarget rfl hy)]
  | cancel timer =>
    obtain ⟨s', -, rfl⟩ := Option.map_eq_some_iff.mp hstep
    refine hnone (h.mono rfl rfl fun y a ha _ => (Agenda.armed_of_cancel ha).2) fun y hy a ha => ?_
    dsimp only
    rwa [Agenda.cancel_of_ne (htarget rfl hy)]
  | turn =>
    obtain ⟨-, -, rfl⟩ | ⟨timer, timers, nodes, hturn, -, rfl⟩ := step_turn hinv hstep
    · exact hnone h fun _ _ _ ha => ha
    · have hright := hinv.turn_right
      rw [hturn] at hright
      obtain ⟨a, hnext, hdue⟩ := hright
      refine ⟨[timer], h.turn hnext hdue rfl rfl rfl, fun y _ b hb => ?_⟩
      by_cases hy : y = timer
      · exact .inl (List.mem_singleton.mpr hy)
      · refine .inr ?_
        dsimp only
        rwa [Agenda.cancel_of_ne hy]
  | handlerReturns =>
    dsimp only [step] at hstep
    split_ifs at hstep
    cases hstep
    exact hnone (h.mono rfl rfl fun _ _ ha _ => ha) fun _ _ _ ha => ha

/-- The part of a run in which the time stands still. -/
theorem burst {later : List (Event α η)} (hinv : Inv w)
    (hrun : Run step (fun w event => Calm w event ∧ Steady event) w later w') :
    Inv w' ∧ ∃ ran, Burst w w' ran ∧ ∀ timer, (∀ event ∈ later, event.target ≠ some timer) →
      ∀ a ∈ w.agenda.armed timer, timer ∈ ran ∨ a ∈ w'.agenda.armed timer := by
  induction hrun with
  | nil => exact ⟨hinv, [], .refl w, fun _ _ _ ha => .inr ha⟩
  | @snoc events w₁ event w₂ _ hallowed hstep ih =>
    obtain ⟨hinv₁, ran, hburst, hleft⟩ := ih
    obtain ⟨more, hburst', hleft'⟩ := burst_step hinv₁ hburst hallowed.2 hstep
    refine ⟨inv_step hinv₁ hallowed.1 hstep, ran ++ more, hburst', fun timer hother a ha => ?_⟩
    have hevents : ∀ event ∈ events, event.target ≠ some timer := fun event hevent =>
      hother event (List.mem_append_left _ hevent)
    rcases hleft timer hevents a ha with hran | ha₁
    · exact .inl (List.mem_append_left _ hran)
    · rcases hleft' timer (hother event (by simp)) a ha₁ with hmore | ha₂
      · exact .inl (List.mem_append_right _ hmore)
      · exact .inr ha₂

omit [DecidableEq α] [Fintype α] in
theorem Burst.nodup {ran : List α} (h : Burst w w' ran) : ran.Nodup := by
  refine List.Pairwise.imp_of_mem ?_ h.sorted
  rintro x y hx - hbefore rfl
  obtain ⟨a, ha, -⟩ := h.wasDue x hx
  exact a.not_before_self (hbefore a ha a ha)

/-- While the time stands still and the handlers set nothing to be due at once, the turns
run only timers that were due, each once and in their order, and when a turn returns all of
them have run that no handler set or cancelled. -/
theorem advance_runs_due {now : UInt64} (hnow : now.toNat < 2 ^ 63)
    {events later : List (Event α η)} (hrun : Run step Calm (start now) events w)
    (hlater : Run step (fun w event => Calm w event ∧ Steady event) w later w') :
    ∃ ran, w'.fired = w.fired ++ ran ∧ ran.Nodup ∧
      (∀ timer ∈ ran, ∃ a ∈ w.agenda.armed timer, a.due ≤ w.now.toNat) ∧
      (ran.Pairwise fun x y => ∀ a ∈ w.agenda.armed x, ∀ b ∈ w.agenda.armed y, a.Before b) ∧
      ∀ delay, turn w'.timers w'.now = .returned delay → ∀ timer,
        (∀ event ∈ later, event.target ≠ some timer) → ∀ a ∈ w.agenda.armed timer,
          a.due ≤ w.now.toNat → timer ∈ ran := by
  have hinv : Inv w :=
    hrun.invariant (inv_start hnow) fun _ _ _ h hcalm hstep => inv_step h hcalm hstep
  obtain ⟨hinv', ran, hburst, hleft⟩ := burst hinv hlater
  refine ⟨ran, hburst.fired, hburst.nodup, fun timer hmem => ?_, hburst.sorted, ?_⟩
  · obtain ⟨a, ha, hdue, -⟩ := hburst.wasDue timer hmem
    exact ⟨a, ha, hdue⟩
  · intro delay hturn timer hother a ha hdue
    refine (hleft timer hother a ha).resolve_right fun ha' => ?_
    have hright := hinv'.turn_right
    rw [hturn] at hright
    rcases hright with ⟨hnone, -⟩ | ⟨first, b, hnext, hlate, -⟩
    · cases (hnone timer).symm.trans ha'
    · have hfirst := hnext.due_le ha'
      rw [hburst.now] at hlate
      omega

/-! ### Two timers -/

instance (w : World α η) : DecidablePred (Calm w)
  | .clock now => inferInstanceAs (Decidable (w.now ≤ now ∧ now.toNat < 2 ^ 63 ∧
      ∀ timer, ∀ a ∈ w.agenda.armed timer, now.toNat ≤ a.due + 2 ^ 31))
  | .init timer _ => decidable_of_iff (w.agenda.armed timer).isNone Option.isNone_iff_eq_none
  | .set timer ms | .reset timer _ ms => inferInstanceAs (Decidable
      (¬ 2 ^ 32 ∣ dueTime w.now ms ∧ Near w.agenda timer (dueTime w.now ms)))
  | .cancel _ | .turn | .handlerReturns => .isTrue trivial

instance : DecidablePred (Steady : Event α η → Prop)
  | .clock _ => .isFalse id
  | .set _ ms | .reset _ _ ms => inferInstanceAs (Decidable (ms ≠ 0))
  | .init _ _ | .cancel _ | .turn | .handlerReturns => .isTrue trivial

/-- The second timer is set for an earlier time, and both are due when the clock is read. -/
def twoTimers : List (Event Bool Unit) :=
  [.init true (some ()), .init false (some ()), .set true 10, .set false 5, .clock 12]

/-- A handler sets its timer again. -/
def bothRun : List (Event Bool Unit) :=
  [.turn, .set false 100, .handlerReturns, .turn, .handlerReturns]

theorem run_calm {start w : World α η} {events : List (Event α η)}
    (h : exec (guarded step fun w event => decide (Calm w event)) start events = some w) :
    Run step Calm start events w :=
  (Run.of_exec_guarded h).mono fun _ _ hcalm => of_decide_eq_true hcalm

theorem run_steady {start w : World α η} {events : List (Event α η)}
    (h : exec (guarded step fun w event => decide (Calm w event ∧ Steady event)) start events =
      some w) : Run step (fun w event => Calm w event ∧ Steady event) start events w :=
  (Run.of_exec_guarded h).mono fun _ _ hcalm => of_decide_eq_true hcalm

theorem punctual_twoTimers : ∃ w, exec step (start 0) twoTimers = some w ∧ Punctual w := by
  have hsome : (exec (guarded step fun w event => decide (Calm w event)) (start 0)
      twoTimers).isSome := by decide
  obtain ⟨w, hw⟩ := Option.isSome_iff_exists.mp hsome
  have hrun := run_calm hw
  exact ⟨w, hrun.exec_eq, punctual (by decide) hrun⟩

theorem advance_runs_twoTimers : ∃ (w w' : World Bool Unit) (ran : List Bool),
    exec step (start 0) twoTimers = some w ∧ exec step w bothRun = some w' ∧
      w'.fired = w.fired ++ ran ∧ ran.Nodup := by
  have hsome : ((exec (guarded step fun w event => decide (Calm w event)) (start 0)
      twoTimers).bind fun w => exec (guarded step fun w event =>
        decide (Calm w event ∧ Steady event)) w bothRun).isSome := by decide
  obtain ⟨w', hw'⟩ := Option.isSome_iff_exists.mp hsome
  obtain ⟨w, hw, hlater⟩ := Option.bind_eq_some_iff.mp hw'
  have hrun := run_calm hw
  have hrun' := run_steady hlater
  obtain ⟨ran, hfired, hnodup, -⟩ := advance_runs_due (by decide) hrun hrun'
  exact ⟨w, w', ran, hrun.exec_eq, hrun'.exec_eq, hfired, hnodup⟩

end Sv6x66.Ayla.Timer
