import Sv6x66.Colink.MinTime

/-! The instants at which a timer acts, and when `get_min_time` finds the next
one. The `DURATION` branch compares the end of the current on-phase with the
running minimum without asking whether that end is already past, it puts up
nothing at all in the second `at_time` itself, and it looks only at the end of
the current cycle. The exact condition below names these three situations. -/
namespace Sv6x66.Colink.TimerEvents
open Sv6x66.Lib
open Sv6x66.Colink.MinTime

def period (t : ColinkAppTimer) : Nat := t.cycle.toNat * 60
def onPhase (t : ColinkAppTimer) : Nat := t.delay.toNat * 60

/-- The cycles of a `DURATION` timer completed at `curTime`. -/
def cyclesDone (curTime : Nat) (t : ColinkAppTimer) : Nat :=
  (curTime - t.atTime.toNat) / period t

/-- `Event t m action`: the timer performs `action` at the instant `m`. Day 0 of
the calendar, 1970-01-01, was a Thursday. -/
inductive Event (t : ColinkAppTimer) : Nat → UInt8 → Prop where
  | once : t.type = colinkTypeOnce → Event t t.atTime.toNat t.startDo
  | weekday (day : Nat) : t.type = colinkTypeRepeat →
      MinTime.weekday t ((day + week197011) % 7) →
      Event t (day * daySecond + dayTime t) t.startDo
  | start (k : Nat) : t.type = colinkTypeDuration →
      Event t (t.atTime.toNat + k * period t) t.startDo
  | stop (k : Nat) : t.type = colinkTypeDuration →
      Event t (t.atTime.toNat + k * period t + onPhase t) t.endDo

structure Valid (t : ColinkAppTimer) : Prop where
  clock : t.type = colinkTypeRepeat → t.cron.hour.toNat < 24 ∧ t.cron.min.toNat < 60
  cycle : t.type = colinkTypeDuration → 0 < t.cycle.toNat

/-- The candidate instants of a timer stay below `0xFFFFFFFF`. -/
structure Fits (curTime : Nat) (t : ColinkAppTimer) : Prop where
  once : t.type = colinkTypeOnce → t.atTime.toNat < maxTime
  weekday : t.type = colinkTypeRepeat → (∃ wday < 7, MinTime.weekday t wday) →
    ∃ m action, Event t m action ∧ curTime < m ∧ m < maxTime
  duration : t.type = colinkTypeDuration → t.atTime.toNat < maxTime ∧
    (t.atTime.toNat ≤ curTime →
      boundary curTime t + onPhase t < maxTime ∧ boundary curTime t + period t < maxTime)

structure IsNext (curTime : Nat) (timers : List ColinkAppTimer) (m : Nat) : Prop where
  later : curTime < m
  least : ∀ t ∈ timers, ∀ m' action, Event t m' action → curTime < m' → m ≤ m'

/-- What the result of `get_min_time` is meant to be. -/
structure Correct (curTime : Nat) (timers : List ColinkAppTimer) (result : Result) : Prop where
  none_iff : result.offTime = maxTime ↔
    ∀ t ∈ timers, ∀ m action, Event t m action → m ≤ curTime
  next : result.offTime ≠ maxTime → IsNext curTime timers result.offTime ∧
    ∃ t ∈ timers, Event t result.offTime result.doSwitch

/-! ### The condition -/

/-- The on-phase of the current cycle is over. -/
def PastOnPhase (curTime : Nat) (t : ColinkAppTimer) : Prop :=
  t.type = colinkTypeDuration ∧ t.atTime.toNat < curTime ∧
    boundary curTime t + onPhase t ≤ curTime

/-- An upcoming event that the code does not put up: any event in the second
`at_time`, and the end of an earlier cycle that outlasts its own cycle. -/
def Overlooked (curTime : Nat) (t : ColinkAppTimer) (m : Nat) : Prop :=
  t.type = colinkTypeDuration ∧ curTime < m ∧
    ((t.atTime.toNat = curTime ∧ ∃ action, Event t m action) ∨
      ∃ k < cyclesDone curTime t, m = t.atTime.toNat + k * period t + onPhase t)

/-- An upcoming event of any other kind. -/
def Considered (curTime : Nat) (t : ColinkAppTimer) (m : Nat) : Prop :=
  curTime < m ∧
    ((t.type ≠ colinkTypeDuration ∧ ∃ action, Event t m action) ∨
      (t.type = colinkTypeDuration ∧ t.atTime.toNat ≠ curTime ∧
        ((∃ k, m = t.atTime.toNat + k * period t) ∨
          ∃ k, cyclesDone curTime t ≤ k ∧ m = t.atTime.toNat + k * period t + onPhase t)))

/-- No timer is past its on-phase, and every overlooked event comes after, or
together with, one that is not. -/
def Safe (curTime : Nat) (timers : List ColinkAppTimer) : Prop :=
  (∀ t ∈ timers, ¬ PastOnPhase curTime t) ∧
    ∀ t ∈ timers, ∀ m, Overlooked curTime t m →
      ∃ s ∈ timers, ∃ m', Considered curTime s m' ∧ m' ≤ m

theorem considered_or_overlooked {curTime m : Nat} {t : ColinkAppTimer} {action : UInt8}
    (hevent : Event t m action) (hlater : curTime < m) :
    Considered curTime t m ∨ Overlooked curTime t m := by
  by_cases hduration : t.type = colinkTypeDuration
  · by_cases hat : t.atTime.toNat = curTime
    · exact Or.inr ⟨hduration, hlater, Or.inl ⟨hat, action, hevent⟩⟩
    · cases hevent with
      | once htype => simp [hduration, colinkTypeOnce, colinkTypeDuration] at htype
      | weekday day htype => simp [hduration, colinkTypeRepeat, colinkTypeDuration] at htype
      | start k => exact Or.inl ⟨hlater, Or.inr ⟨hduration, hat, Or.inl ⟨k, rfl⟩⟩⟩
      | stop k =>
        by_cases hk : k < cyclesDone curTime t
        · exact Or.inr ⟨hduration, hlater, Or.inr ⟨k, hk, rfl⟩⟩
        · exact Or.inl ⟨hlater, Or.inr ⟨hduration, hat, Or.inr ⟨k, by omega, rfl⟩⟩⟩
  · exact Or.inl ⟨hlater, Or.inl ⟨hduration, action, hevent⟩⟩

theorem Considered.event {curTime m : Nat} {t : ColinkAppTimer} (h : Considered curTime t m) :
    ∃ action, Event t m action := by
  obtain ⟨-, ⟨-, hevent⟩ | ⟨htype, -, ⟨k, rfl⟩ | ⟨k, -, rfl⟩⟩⟩ := h
  · exact hevent
  · exact ⟨_, Event.start k htype⟩
  · exact ⟨_, Event.stop k htype⟩

theorem Overlooked.event {curTime m : Nat} {t : ColinkAppTimer} (h : Overlooked curTime t m) :
    ∃ action, Event t m action := by
  obtain ⟨htype, -, ⟨-, hevent⟩ | ⟨k, -, rfl⟩⟩ := h
  · exact hevent
  · exact ⟨_, Event.stop k htype⟩

/-! ### The weekday search -/

/-- The timer acts on this day, later than `curTime`. -/
def Hit (curTime : Nat) (t : ColinkAppTimer) (day : Nat) : Prop :=
  MinTime.weekday t ((day + week197011) % 7) ∧ curTime < day * daySecond + dayTime t

theorem dayTime_lt {t : ColinkAppTimer} (hvalid : Valid t) (htype : t.type = colinkTypeRepeat) :
    dayTime t < daySecond := by
  have := hvalid.clock htype
  simp only [dayTime, daySecond]
  omega

theorem firstDay_eq {curTime curDay day : Nat} {t : ColinkAppTimer} (hhit : Hit curTime t day)
    (hfirst : ∀ d, curDay ≤ d → d < day → ¬ Hit curTime t d)
    (hfit : day * daySecond + dayTime t < 2 ^ 32) (left j : Nat)
    (hj : curDay + j ≤ day) (hleft : day < curDay + j + left) :
    firstDay curTime curDay ((curDay + week197011) % 7) t left
      ((curDay + week197011) % 7 + j) = [(day * daySecond + dayTime t, t.startDo)] := by
  induction left generalizing j with
  | zero => omega
  | succ left ih =>
    have hindex : ((curDay + week197011) % 7 + j) % 7 = (curDay + j + week197011) % 7 := by
      omega
    have hdays : curDay + ((curDay + week197011) % 7 + j) - (curDay + week197011) % 7 =
        curDay + j := by omega
    have hvalue : u32 (daySecond * (curDay + j) + dayTime t) =
        (curDay + j) * daySecond + dayTime t := by
      have hday : (curDay + j) * daySecond ≤ day * daySecond := Nat.mul_le_mul_right _ hj
      rw [Nat.mul_comm daySecond]
      exact Nat.mod_eq_of_lt (by omega)
    rw [firstDay]
    simp only [hindex, hdays, hvalue]
    by_cases heq : curDay + j = day
    · rw [heq, if_pos ⟨hhit.1, hhit.2⟩]
    · have hmiss := hfirst (curDay + j) (by omega) (by omega)
      rw [if_neg fun h => hmiss ⟨h.1, h.2⟩]
      exact ih (j + 1) (by omega) (by omega)

theorem firstDay_eq_nil {curTime curDay wday : Nat} {t : ColinkAppTimer}
    (hnone : ∀ d < 7, ¬ MinTime.weekday t d) (left i : Nat) :
    firstDay curTime curDay wday t left i = [] := by
  induction left generalizing i with
  | zero => rfl
  | succ left ih =>
    rw [firstDay, if_neg fun h => hnone (i % 7) (Nat.mod_lt _ (by decide)) h.1]
    exact ih (i + 1)

/-- Within the eight days the search visits, every selected weekday occurs
after `curTime`. -/
theorem exists_hit (curTime : Nat) {wday : Nat} {t : ColinkAppTimer} (hwday : wday < 7)
    (hselected : MinTime.weekday t wday) :
    ∃ day, curTime / daySecond ≤ day ∧ day < curTime / daySecond + 8 ∧ Hit curTime t day := by
  have hcur : curTime < (curTime / daySecond + 1) * daySecond := by
    simp only [daySecond]
    omega
  generalize curTime / daySecond = curDay at *
  obtain ⟨j, hlow, hhigh, hday⟩ : ∃ j, 1 ≤ j ∧ j ≤ 7 ∧ (curDay + j + week197011) % 7 = wday := by
    refine ⟨(wday + 6 - (curDay + week197011) % 7) % 7 + 1, ?_, ?_, ?_⟩ <;> omega
  refine ⟨curDay + j, by omega, by omega, ?_, ?_⟩
  · rw [hday]
    exact hselected
  · have : (curDay + 1) * daySecond ≤ (curDay + j) * daySecond :=
      Nat.mul_le_mul_right _ (by omega)
    omega

theorem Event.hit {curTime m : Nat} {t : ColinkAppTimer} {action : UInt8} (hvalid : Valid t)
    (htype : t.type = colinkTypeRepeat) (hevent : Event t m action) (hlater : curTime < m) :
    ∃ day, curTime / daySecond ≤ day ∧ Hit curTime t day ∧ m = day * daySecond + dayTime t := by
  have hclock := dayTime_lt hvalid htype
  cases hevent with
  | once h => rw [htype] at h; exact absurd h (by decide)
  | weekday day _ hbit =>
    refine ⟨day, ?_, ⟨hbit, hlater⟩, rfl⟩
    simp only [daySecond] at *
    omega
  | start k h => rw [htype] at h; exact absurd h (by decide)
  | stop k h => rw [htype] at h; exact absurd h (by decide)

theorem exists_first_hit (curTime : Nat) {wday : Nat} {t : ColinkAppTimer} (hwday : wday < 7)
    (hselected : MinTime.weekday t wday) :
    ∃ day, curTime / daySecond ≤ day ∧ day < curTime / daySecond + 8 ∧ Hit curTime t day ∧
      ∀ d, curTime / daySecond ≤ d → Hit curTime t d → day ≤ d := by
  classical
  obtain ⟨soon, hlow, hhigh, hsoon⟩ := exists_hit curTime hwday hselected
  have hexists : ∃ day, curTime / daySecond ≤ day ∧ Hit curTime t day := ⟨soon, hlow, hsoon⟩
  obtain ⟨hday, hhit⟩ := Nat.find_spec hexists
  have hsoonest : Nat.find hexists ≤ soon := Nat.find_min' hexists ⟨hlow, hsoon⟩
  exact ⟨Nat.find hexists, hday, by omega, hhit, fun d hd h => Nat.find_min' hexists ⟨hd, h⟩⟩

theorem repeatCandidates_of_first {curTime day : Nat} {t : ColinkAppTimer}
    (hlow : curTime / daySecond ≤ day) (hhigh : day < curTime / daySecond + 8)
    (hhit : Hit curTime t day)
    (hfirst : ∀ d, curTime / daySecond ≤ d → Hit curTime t d → day ≤ d)
    (hfit : day * daySecond + dayTime t < 2 ^ 32) :
    repeatCandidates curTime t = [(day * daySecond + dayTime t, t.startDo)] := by
  have hweekBit : t.cron.weekBit ≠ 0 := by
    intro hzero
    have hbit := hhit.1
    simp [MinTime.weekday, hzero] at hbit
  unfold repeatCandidates
  rw [if_pos hweekBit]
  refine firstDay_eq hhit (fun d hd hlt h => ?_) hfit 8 0 hlow (by omega)
  have := hfirst d hd h
  omega

theorem repeatCandidates_eq_nil {curTime : Nat} {t : ColinkAppTimer}
    (hnone : ∀ d < 7, ¬ MinTime.weekday t d) : repeatCandidates curTime t = [] := by
  unfold repeatCandidates
  split
  · exact firstDay_eq_nil hnone _ _
  · rfl

/-- A `REPEAT` timer puts up its next occurrence, and nothing when no weekday
is selected. -/
theorem repeatCandidates_eq {curTime : Nat} {t : ColinkAppTimer} (hvalid : Valid t)
    (hfits : Fits curTime t) (htype : t.type = colinkTypeRepeat) :
    (repeatCandidates curTime t = [] ∧ ∀ m action, ¬ Event t m action) ∨
      ∃ m, repeatCandidates curTime t = [(m, t.startDo)] ∧ Event t m t.startDo ∧
        curTime < m ∧ m < maxTime ∧
        ∀ m' action, Event t m' action → curTime < m' → m ≤ m' := by
  by_cases hselected : ∃ wday < 7, MinTime.weekday t wday
  · right
    obtain ⟨wday, hwday, hbit⟩ := hselected
    obtain ⟨day, hlow, hhigh, hhit, hfirst⟩ := exists_first_hit curTime hwday hbit
    have hleast : ∀ m' action, Event t m' action → curTime < m' →
        day * daySecond + dayTime t ≤ m' := by
      intro m' action hevent hlater
      obtain ⟨day', hge, hhit', rfl⟩ := hevent.hit hvalid htype hlater
      have := Nat.mul_le_mul_right daySecond (hfirst day' hge hhit')
      omega
    obtain ⟨m, action, hevent, hlater, hmax⟩ := hfits.weekday htype ⟨wday, hwday, hbit⟩
    have hfit := lt_of_le_of_lt (hleast m action hevent hlater) hmax
    exact ⟨_, repeatCandidates_of_first hlow hhigh hhit hfirst (hfit.trans (by decide)),
      Event.weekday _ htype hhit.1, hhit.2, hfit, hleast⟩
  · left
    have hnone : ∀ d < 7, ¬ MinTime.weekday t d := fun d hd h => hselected ⟨d, hd, h⟩
    refine ⟨repeatCandidates_eq_nil hnone, ?_⟩
    intro m action hevent
    cases hevent with
    | once h => rw [htype] at h; exact absurd h (by decide)
    | weekday day _ hbit => exact hnone _ (Nat.mod_lt _ (by decide)) hbit
    | start k h => rw [htype] at h; exact absurd h (by decide)
    | stop k h => rw [htype] at h; exact absurd h (by decide)

/-! ### The candidates are the considered events -/

theorem period_pos {t : ColinkAppTimer} (hvalid : Valid t) (htype : t.type = colinkTypeDuration) :
    0 < period t := by
  have := hvalid.cycle htype
  simp only [period]
  omega

theorem boundary_eq (curTime : Nat) (t : ColinkAppTimer) :
    boundary curTime t = t.atTime.toNat + cyclesDone curTime t * period t := rfl

theorem boundary_le {curTime : Nat} {t : ColinkAppTimer} (hat : t.atTime.toNat ≤ curTime) :
    boundary curTime t ≤ curTime := by
  have := Nat.div_mul_le_self (curTime - t.atTime.toNat) (period t)
  rw [boundary_eq, cyclesDone]
  omega

theorem lt_boundary_add {curTime : Nat} {t : ColinkAppTimer} (hperiod : 0 < period t)
    (hat : t.atTime.toNat ≤ curTime) : curTime < boundary curTime t + period t := by
  have := Nat.lt_div_mul_add hperiod (a := curTime - t.atTime.toNat)
  rw [boundary_eq, cyclesDone]
  omega

theorem candidates_once {curTime : Nat} {t : ColinkAppTimer} (htype : t.type = colinkTypeOnce) :
    candidates curTime t = onceCandidates curTime t :=
  if_pos htype

theorem candidates_repeat {curTime : Nat} {t : ColinkAppTimer}
    (htype : t.type = colinkTypeRepeat) :
    candidates curTime t = repeatCandidates curTime t := by
  unfold candidates
  rw [htype, if_neg colinkTypes_ne.2.2.1, if_pos rfl]

theorem candidates_duration {curTime : Nat} {t : ColinkAppTimer}
    (htype : t.type = colinkTypeDuration) :
    candidates curTime t = durationCandidates curTime t := by
  unfold candidates
  rw [htype, if_neg colinkTypes_ne.2.2.2.2.1, if_neg colinkTypes_ne.2.2.2.2.2, if_pos rfl]

/-- Past `at_time` a `DURATION` timer puts up the end of the current on-phase
and the next boundary. -/
theorem durationCandidates_earlier {curTime : Nat} {t : ColinkAppTimer}
    (hfits : Fits curTime t) (htype : t.type = colinkTypeDuration)
    (hat : t.atTime.toNat < curTime) :
    durationCandidates curTime t =
      [(boundary curTime t + onPhase t, t.endDo), (boundary curTime t + period t, t.startDo)] := by
  obtain ⟨hstop, hstart⟩ := (hfits.duration htype).2 (le_of_lt hat)
  simp only [maxTime] at hstop hstart
  have hboundary : u32 (boundary curTime t) = boundary curTime t := Nat.mod_eq_of_lt (by omega)
  have hend : u32 (boundary curTime t + t.delay.toNat * 60) = boundary curTime t + onPhase t :=
    Nat.mod_eq_of_lt (by simp only [onPhase] at hstop; omega)
  have hnext : u32 (t.cycle.toNat * 60 + boundary curTime t) = boundary curTime t + period t := by
    rw [Nat.add_comm]
    exact Nat.mod_eq_of_lt (by simp only [period] at hstart; omega)
  unfold durationCandidates
  rw [if_neg (by omega), if_pos hat]
  simp only [hboundary, hend, hnext]

/-- A candidate that is a considered event and fits. -/
def Proper (curTime : Nat) (t : ColinkAppTimer) (c : Nat × UInt8) : Prop :=
  Considered curTime t c.1 ∧ Event t c.1 c.2 ∧ c.1 < maxTime

theorem onceCandidates_proper {curTime : Nat} {t : ColinkAppTimer} (hfits : Fits curTime t)
    (htype : t.type = colinkTypeOnce) : ∀ c ∈ onceCandidates curTime t, Proper curTime t c := by
  have hduration : t.type ≠ colinkTypeDuration := by
    rw [htype]
    exact colinkTypes_ne.2.1
  intro c hc
  unfold onceCandidates at hc
  split at hc
  · rename_i hlater
    rw [List.mem_singleton.mp hc]
    exact ⟨⟨hlater, Or.inl ⟨hduration, _, Event.once htype⟩⟩, Event.once htype, hfits.once htype⟩
  · cases hc

theorem repeatCandidates_proper {curTime : Nat} {t : ColinkAppTimer} (hvalid : Valid t)
    (hfits : Fits curTime t) (htype : t.type = colinkTypeRepeat) :
    ∀ c ∈ repeatCandidates curTime t, Proper curTime t c := by
  have hduration : t.type ≠ colinkTypeDuration := by
    rw [htype]
    exact colinkTypes_ne.2.2.2.1
  intro c hc
  cases repeatCandidates_eq hvalid hfits htype with
  | inl h =>
    rw [h.1] at hc
    cases hc
  | inr h =>
    obtain ⟨m, heq, hevent, hlater, hmax, -⟩ := h
    rw [heq] at hc
    rw [List.mem_singleton.mp hc]
    exact ⟨⟨hlater, Or.inl ⟨hduration, _, hevent⟩⟩, hevent, hmax⟩

/-- Before `at_time` the only candidate is `at_time`; past it, the end of an
on-phase that still lasts and the next boundary. -/
theorem durationCandidates_proper {curTime : Nat} {t : ColinkAppTimer} (hvalid : Valid t)
    (hfits : Fits curTime t) (htype : t.type = colinkTypeDuration)
    (hon : ¬ PastOnPhase curTime t) : ∀ c ∈ durationCandidates curTime t, Proper curTime t c := by
  have hperiod := period_pos hvalid htype
  obtain ⟨hatMax, hmax⟩ := hfits.duration htype
  intro c hc
  by_cases hlater : t.atTime.toNat > curTime
  · unfold durationCandidates at hc
    rw [if_pos hlater] at hc
    rw [List.mem_singleton.mp hc]
    refine ⟨⟨hlater, Or.inr ⟨htype, by omega, Or.inl ⟨0, by simp⟩⟩⟩, ?_, hatMax⟩
    simpa using Event.start (t := t) 0 htype
  · by_cases hearlier : t.atTime.toNat < curTime
    · obtain ⟨hstop, hstart⟩ := hmax (le_of_lt hearlier)
      rw [durationCandidates_earlier hfits htype hearlier] at hc
      cases hc with
      | head =>
        have hcurrent : curTime < boundary curTime t + onPhase t := by
          by_contra hpast
          exact hon ⟨htype, hearlier, by omega⟩
        exact ⟨⟨hcurrent, Or.inr ⟨htype, by omega,
          Or.inr ⟨cyclesDone curTime t, le_refl _, rfl⟩⟩⟩, Event.stop _ htype, hstop⟩
      | tail _ hc =>
        rw [List.mem_singleton.mp hc]
        have hnext := lt_boundary_add hperiod (le_of_lt hearlier)
        have hform : boundary curTime t + period t =
            t.atTime.toNat + (cyclesDone curTime t + 1) * period t := by
          rw [boundary_eq, Nat.add_mul, Nat.one_mul, Nat.add_assoc]
        refine ⟨⟨hnext, Or.inr ⟨htype, by omega, Or.inl ⟨_, hform⟩⟩⟩, ?_, hstart⟩
        simp only
        rw [hform]
        exact Event.start _ htype
    · unfold durationCandidates at hc
      rw [if_neg hlater, if_neg hearlier] at hc
      cases hc

theorem candidates_considered {curTime : Nat} {t : ColinkAppTimer} (hvalid : Valid t)
    (hfits : Fits curTime t) (hon : ¬ PastOnPhase curTime t) :
    ∀ c ∈ candidates curTime t,
      Considered curTime t c.1 ∧ Event t c.1 c.2 ∧ c.1 < maxTime := by
  intro c hc
  by_cases honce : t.type = colinkTypeOnce
  · rw [candidates_once honce] at hc
    exact onceCandidates_proper hfits honce c hc
  · by_cases hrepeat : t.type = colinkTypeRepeat
    · rw [candidates_repeat hrepeat] at hc
      exact repeatCandidates_proper hvalid hfits hrepeat c hc
    · by_cases hduration : t.type = colinkTypeDuration
      · rw [candidates_duration hduration] at hc
        exact durationCandidates_proper hvalid hfits hduration hon c hc
      · unfold candidates at hc
        rw [if_neg honce, if_neg hrepeat, if_neg hduration] at hc
        cases hc

theorem Considered.candidate {curTime m : Nat} {t : ColinkAppTimer} (hvalid : Valid t)
    (hfits : Fits curTime t) (h : Considered curTime t m) :
    ∃ c ∈ candidates curTime t, c.1 ≤ m := by
  obtain ⟨hlater, ⟨hduration, action, hevent⟩ | ⟨hduration, hne, hkind⟩⟩ := h
  · cases hevent with
    | once honce =>
      refine ⟨(t.atTime.toNat, t.startDo), ?_, le_refl _⟩
      rw [candidates_once honce, onceCandidates, if_pos hlater]
      exact List.mem_singleton_self _
    | weekday day hrepeat hbit =>
      rw [candidates_repeat hrepeat]
      cases repeatCandidates_eq hvalid hfits hrepeat with
      | inl h => exact absurd (Event.weekday day hrepeat hbit) (h.2 _ _)
      | inr h =>
        obtain ⟨next, heq, -, -, -, hleast⟩ := h
        rw [heq]
        exact ⟨_, List.mem_singleton_self _,
          hleast _ _ (Event.weekday day hrepeat hbit) hlater⟩
    | start k htype => exact absurd htype hduration
    | stop k htype => exact absurd htype hduration
  · have hperiod := period_pos hvalid hduration
    rw [candidates_duration hduration]
    by_cases hafter : t.atTime.toNat > curTime
    · refine ⟨(t.atTime.toNat, t.startDo), ?_, ?_⟩
      · unfold durationCandidates
        rw [if_pos hafter]
        exact List.mem_singleton_self _
      · obtain ⟨k, rfl⟩ | ⟨k, -, rfl⟩ := hkind <;> simp only <;> omega
    · have hearlier : t.atTime.toNat < curTime := by omega
      rw [durationCandidates_earlier hfits hduration hearlier]
      obtain ⟨k, rfl⟩ | ⟨k, hk, rfl⟩ := hkind
      · refine ⟨_, List.mem_cons_of_mem _ (List.mem_singleton_self _), ?_⟩
        have hk : cyclesDone curTime t < k := by
          by_contra hle
          have hmul := Nat.mul_le_mul_right (period t) (Nat.le_of_not_lt hle)
          have hbound := boundary_le (t := t) (le_of_lt hearlier)
          rw [boundary_eq] at hbound
          omega
        have hmul := Nat.mul_le_mul_right (period t) hk
        rw [Nat.succ_mul] at hmul
        rw [boundary_eq]
        simp only
        omega
      · refine ⟨_, List.mem_cons_self, ?_⟩
        have hmul := Nat.mul_le_mul_right (period t) hk
        rw [boundary_eq]
        simp only
        omega

theorem PastOnPhase.candidate {curTime : Nat} {t : ColinkAppTimer} (hfits : Fits curTime t)
    (h : PastOnPhase curTime t) :
    ∃ c ∈ candidates curTime t, c.1 ≤ curTime ∧ c.1 < maxTime := by
  obtain ⟨hduration, hearlier, hpast⟩ := h
  rw [candidates_duration hduration, durationCandidates_earlier hfits hduration hearlier]
  exact ⟨_, List.mem_cons_self, hpast, ((hfits.duration hduration).2 (le_of_lt hearlier)).1⟩

/-! ### The whole list -/

theorem scanTimer_isSome {curTime : Nat} {t : ColinkAppTimer} (hvalid : Valid t) (scan : Scan) :
    ∃ scan', scanTimer curTime scan t = some scan' := by
  unfold scanTimer
  dsimp only
  split
  · rename_i hduration
    have := hvalid.cycle hduration
    unfold scanDuration
    dsimp only
    split
    · exact ⟨_, rfl⟩
    · split
      · rw [if_neg (by omega)]
        exact ⟨_, rfl⟩
      · exact ⟨_, rfl⟩
  · exact ⟨_, rfl⟩

theorem foldlM_scanTimer_isSome (curTime : Nat) {timers : List ColinkAppTimer}
    (hvalid : ∀ t ∈ timers, Valid t) (scan : Scan) :
    ∃ scan', timers.foldlM (scanTimer curTime) scan = some scan' := by
  induction timers generalizing scan with
  | nil => exact ⟨scan, rfl⟩
  | cons t rest ih =>
    obtain ⟨middle, hmiddle⟩ := scanTimer_isSome (hvalid t List.mem_cons_self) scan
    obtain ⟨scan', hscan'⟩ := ih (fun s hs => hvalid s (List.mem_cons_of_mem t hs)) middle
    refine ⟨scan', ?_⟩
    rw [List.foldlM_cons, hmiddle]
    exact hscan'

theorem getMinTime_isSome {timers : List ColinkAppTimer} (hvalid : ∀ t ∈ timers, Valid t)
    (curTime : UInt32) (doSwitch : UInt8) :
    ∃ result, getMinTime curTime doSwitch timers = some result := by
  obtain ⟨scan, hscan⟩ := foldlM_scanTimer_isSome curTime.toNat hvalid
    ⟨maxTime, doSwitch, 0xFF⟩
  unfold getMinTime
  rw [hscan]
  exact ⟨_, rfl⟩

theorem getMinTime_next {curTime : UInt32} {doSwitch : UInt8} {timers : List ColinkAppTimer}
    {result : Result} (h : getMinTime curTime doSwitch timers = some result) :
    (result.offTime, result.doSwitch) =
      (timers.flatMap (candidates curTime.toNat)).foldl RunningMin.offer (maxTime, doSwitch) := by
  unfold getMinTime at h
  obtain ⟨scan, hscan, hresult⟩ := Option.bind_eq_some_iff.mp h
  cases hresult
  exact foldlM_scanTimer_next hscan

/-- The result against the candidates of the list: a lower bound of all of
them, and one of them unless nothing was put up. -/
structure LeastCandidate (curTime : Nat) (timers : List ColinkAppTimer) (result : Result) :
    Prop where
  le : ∀ t ∈ timers, ∀ c ∈ candidates curTime t, result.offTime ≤ c.1
  le_max : result.offTime ≤ maxTime
  mem : result.offTime ≠ maxTime →
    ∃ t ∈ timers, (result.offTime, result.doSwitch) ∈ candidates curTime t

theorem getMinTime_least {curTime : UInt32} {doSwitch : UInt8} {timers : List ColinkAppTimer}
    {result : Result} (h : getMinTime curTime doSwitch timers = some result) :
    LeastCandidate curTime.toNat timers result := by
  have hnext := getMinTime_next h
  have hoff := congrArg Prod.fst hnext
  simp only at hoff
  refine ⟨?_, ?_, ?_⟩
  · intro t ht c hc
    rw [hoff]
    exact RunningMin.foldl_offer_le (List.mem_flatMap.mpr ⟨t, ht, hc⟩) _
  · rw [hoff]
    exact RunningMin.foldl_offer_le_init _ (maxTime, doSwitch)
  · intro hne
    cases RunningMin.foldl_offer_mem (timers.flatMap (candidates curTime.toNat))
      (maxTime, doSwitch) with
    | inl hinit =>
      rw [hinit] at hoff
      exact absurd hoff hne
    | inr hmem =>
      rw [← hnext] at hmem
      exact List.mem_flatMap.mp hmem

theorem correct_of_safe {curTime : Nat} {timers : List ColinkAppTimer} {result : Result}
    (hvalid : ∀ t ∈ timers, Valid t) (hfits : ∀ t ∈ timers, Fits curTime t)
    (hleast : LeastCandidate curTime timers result) (hsafe : Safe curTime timers) :
    Correct curTime timers result := by
  have hbound : ∀ t ∈ timers, ∀ m action, Event t m action → curTime < m →
      result.offTime ≤ m ∧ result.offTime < maxTime := by
    intro t ht m action hevent hlater
    -- Every upcoming event is preceded by a considered one, hence by a candidate.
    obtain ⟨s, hs, m', hconsidered, hle⟩ : ∃ s ∈ timers, ∃ m', Considered curTime s m' ∧ m' ≤ m := by
      cases considered_or_overlooked hevent hlater with
      | inl h => exact ⟨t, ht, m, h, le_refl m⟩
      | inr h => exact hsafe.2 t ht m h
    obtain ⟨c, hc, hcm⟩ := hconsidered.candidate (hvalid s hs) (hfits s hs)
    have hmax := (candidates_considered (hvalid s hs) (hfits s hs) (hsafe.1 s hs) c hc).2.2
    have := hleast.le s hs c hc
    exact ⟨by omega, by omega⟩
  have hmem : result.offTime ≠ maxTime → curTime < result.offTime ∧
      ∃ t ∈ timers, Event t result.offTime result.doSwitch := by
    intro hne
    obtain ⟨t, ht, hc⟩ := hleast.mem hne
    obtain ⟨hconsidered, hevent, -⟩ :=
      candidates_considered (hvalid t ht) (hfits t ht) (hsafe.1 t ht) _ hc
    exact ⟨hconsidered.1, t, ht, hevent⟩
  constructor
  · constructor
    · intro heq t ht m action hevent
      by_contra hlater
      have := (hbound t ht m action hevent (by omega)).2
      omega
    · intro hnone
      by_contra hne
      obtain ⟨hlater, t, ht, hevent⟩ := hmem hne
      have := hnone t ht _ _ hevent
      omega
  · intro hne
    obtain ⟨hlater, hevent⟩ := hmem hne
    refine ⟨⟨hlater, ?_⟩, hevent⟩
    intro t ht m' action hevent' hlater'
    exact (hbound t ht m' action hevent' hlater').1

theorem safe_of_correct {curTime : Nat} {timers : List ColinkAppTimer} {result : Result}
    (hvalid : ∀ t ∈ timers, Valid t) (hfits : ∀ t ∈ timers, Fits curTime t)
    (hleast : LeastCandidate curTime timers result) (hcorrect : Correct curTime timers result) :
    Safe curTime timers := by
  have hon : ∀ t ∈ timers, ¬ PastOnPhase curTime t := by
    intro t ht hpast
    obtain ⟨c, hc, hle, hmax⟩ := hpast.candidate (hfits t ht)
    have hoff := hleast.le t ht c hc
    have := (hcorrect.next (by omega)).1.later
    omega
  refine ⟨hon, ?_⟩
  intro t ht m hoverlooked
  obtain ⟨action, hevent⟩ := hoverlooked.event
  have hlater := hoverlooked.2.1
  have hne : result.offTime ≠ maxTime := by
    intro heq
    have := hcorrect.none_iff.mp heq t ht m action hevent
    omega
  obtain ⟨s, hs, hc⟩ := hleast.mem hne
  have hconsidered := (candidates_considered (hvalid s hs) (hfits s hs) (hon s hs) _ hc).1
  exact ⟨s, hs, _, hconsidered, (hcorrect.next hne).1.least t ht m action hevent hlater⟩

/-- `get_min_time` returns the next event and its action exactly when the list
is safe at the current time. -/
theorem getMinTime_correct_iff (timers : List ColinkAppTimer) (curTime : UInt32)
    (doSwitch : UInt8) (hvalid : ∀ t ∈ timers, Valid t)
    (hfits : ∀ t ∈ timers, Fits curTime.toNat t) :
    (∃ result, getMinTime curTime doSwitch timers = some result ∧
      Correct curTime.toNat timers result) ↔ Safe curTime.toNat timers := by
  constructor
  · rintro ⟨result, hresult, hcorrect⟩
    exact safe_of_correct hvalid hfits (getMinTime_least hresult) hcorrect
  · intro hsafe
    obtain ⟨result, hresult⟩ := getMinTime_isSome hvalid curTime doSwitch
    exact ⟨result, hresult, correct_of_safe hvalid hfits (getMinTime_least hresult) hsafe⟩

/-- On for one minute in every ten from 2020-09-13 12:26:40 on. -/
def lamp : ColinkAppTimer where
  enable := 1
  type := colinkTypeDuration
  startDo := 1
  endDo := 0
  atTime := 1600000000
  cycle := 10
  delay := 1

theorem lamp_valid : Valid lamp := ⟨by decide, by decide⟩

theorem lamp_fits (curTime : Nat) (h : curTime < 1600000600) : Fits curTime lamp := by
  refine ⟨fun h => absurd h (by decide), fun h => absurd h (by decide),
    fun _ => ⟨by decide, fun hat => ?_⟩⟩
  have hat' : 1600000000 ≤ curTime := hat
  have hdone : cyclesDone curTime lamp = 0 := Nat.div_eq_of_lt (by
    show curTime - 1600000000 < 600
    omega)
  rw [boundary_eq, hdone]
  decide

theorem getMinTime_correct_iff_lamp :
    (∃ result, getMinTime 1600000030 0 [lamp] = some result ∧
      Correct (1600000030 : UInt32).toNat [lamp] result) ↔
      Safe (1600000030 : UInt32).toNat [lamp] :=
  getMinTime_correct_iff [lamp] 1600000030 0 (by simpa using lamp_valid)
    (by simpa using lamp_fits 1600000030 (by decide))

/-- Two minutes into the cycle the lamp has been off for one minute, and the
result is the instant it went off. -/
theorem getMinTime_lamp_stale :
    Valid lamp ∧ Fits 1600000120 lamp ∧
      getMinTime 1600000120 0 [lamp] = some ⟨1600000060, 0, none⟩ ∧
      ¬ Correct 1600000120 [lamp] ⟨1600000060, 0, none⟩ := by
  refine ⟨lamp_valid, lamp_fits _ (by decide), by decide, ?_⟩
  intro hcorrect
  have := (hcorrect.next (by decide)).1.later
  simp at this

end Sv6x66.Colink.TimerEvents
