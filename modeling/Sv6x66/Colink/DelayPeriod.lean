import Sv6x66.Colink.UpTimer

/-! The period `mytime_update_delay` programs. The remaining time is the
difference of an instant chosen at one reading of the clock and a later reading;
an instant the clock has passed meanwhile counts as one `2 ^ 32` seconds ahead. -/
namespace Sv6x66.Colink.DelayPeriod
open Sv6x66.Colink.MinTime
open Sv6x66.Colink.TimerEvents
open Sv6x66.Colink.Mytime
open Sv6x66.Colink.UpTimer

/-- The second reading of the clock. -/
def reading (m : Globals) (ticks : Ticks) : Nat :=
  u32 ((mytimeGetTime m ticks.first ticks.second).2.realtimeOffset + ticks.third.toNat / 1000)

/-- The entries `get_min_time` looks at. -/
def timers (m : Globals) : List ColinkAppTimer :=
  (m.apTimerList.getD []).take m.timerNum.toNat

/-- The call starts the delay timer with this period. -/
def Programs (m : Globals) (ticks : Ticks) (periodMs : Nat) : Prop :=
  ¬ Waiting m ∧ ∃ update, mytimeUpdateDelay m ticks = some update ∧ update.retval = 0 ∧
    update.state.mytimeDelayTimer = some ⟨periodMs, true⟩

/-- The first event of the list after `curTime`. -/
def Upcoming (curTime : Nat) (timers : List ColinkAppTimer) (next : Nat) : Prop :=
  IsNext curTime timers next ∧ ∃ t ∈ timers, ∃ action, Event t next action

/-- The period ends by the event, or within a second if it is due. -/
def InTime (now next periodMs : Nat) : Prop :=
  if now < next then periodMs ≤ (next - now) * 1000 else periodMs ≤ 1000

def NeverLate (m : Globals) (ticks : Ticks) : Prop :=
  ∀ periodMs, Programs m ticks periodMs →
    ∀ next, Upcoming (clock m ticks) (timers m) next → InTime (reading m ticks) next periodMs

/-! ### The condition -/

/-- An instant the scan compares with `off_time`. -/
def LooksAt (curTime : Nat) (timers : List ColinkAppTimer) (instant : Nat) : Prop :=
  instant < maxTime ∧ ∃ t ∈ timers, ∃ action, (instant, action) ∈ candidates curTime t

/-- The clock has passed one of these instants. -/
def Passed (curTime now : Nat) (timers : List ColinkAppTimer) : Prop :=
  ∃ instant, LooksAt curTime timers instant ∧ instant < now

/-- With the instants `turn` seconds later than they are: one of them is no later
than the event, or than a second from now if that is due, or they are all more
than ten days off and the event at least seven. -/
def Meets (curTime now next turn : Nat) (timers : List ColinkAppTimer) : Prop :=
  (∃ instant, LooksAt curTime timers instant ∧
    (instant + turn ≤ next ∨ next ≤ now ∧ instant + turn ≤ now + 1)) ∨
  now + 7 * daySecond ≤ next ∧
    ∀ instant, LooksAt curTime timers instant → now + 10 * daySecond < instant + turn

def Timely (curTime now : Nat) (timers : List ColinkAppTimer) (next : Nat) : Prop :=
  (∀ instant, ¬ LooksAt curTime timers instant) ∨
    (¬ Passed curTime now timers → Meets curTime now next 0 timers) ∧
      (Passed curTime now timers → Meets curTime now next (2 ^ 32) timers)

/-- A list `get_min_time` is right about is timely as long as its next event has
not passed at the second reading. -/
theorem timely_of_safe {curTime now next : Nat} {timers : List ColinkAppTimer}
    (hvalid : ∀ t ∈ timers, Valid t) (hfits : ∀ t ∈ timers, Fits curTime t)
    (hsafe : Safe curTime timers) (hnext : Upcoming curTime timers next) (hnow : now ≤ next) :
    Timely curTime now timers next := by
  have hevents : ∀ instant, LooksAt curTime timers instant → next ≤ instant := by
    rintro instant ⟨-, t, ht, action, hc⟩
    obtain ⟨hconsidered, hevent, -⟩ :=
      candidates_considered (hvalid t ht) (hfits t ht) (hsafe.1 t ht) _ hc
    exact hnext.1.least t ht _ _ hevent hconsidered.1
  obtain ⟨hleast, t, ht, action, hevent⟩ := hnext
  obtain ⟨s, hs, m', hconsidered, hle⟩ :
      ∃ s ∈ timers, ∃ m', Considered curTime s m' ∧ m' ≤ next := by
    cases considered_or_overlooked hevent hleast.later with
    | inl h => exact ⟨t, ht, next, h, le_refl next⟩
    | inr h => exact hsafe.2 t ht next h
  obtain ⟨c, hc, hcm⟩ := hconsidered.candidate (hvalid s hs) (hfits s hs)
  have hmax := (candidates_considered (hvalid s hs) (hfits s hs) (hsafe.1 s hs) c hc).2.2
  refine .inr ⟨fun _ => .inl ⟨c.1, ⟨hmax, s, hs, c.2, hc⟩, .inl (by omega)⟩, ?_⟩
  rintro ⟨instant, hinstant, hbefore⟩
  have := hevents instant hinstant
  omega

/-! ### The period -/

/-- Where an instant lies for a reading, modulo `2 ^ 32`. -/
def aim (now instant : Nat) : Nat := if now ≤ instant then instant else instant + 2 ^ 32

/-- What is programmed for an instant. -/
def periodFor (now instant : Nat) : Nat :=
  if aim now instant - now > 10 * daySecond then 7 * 24 * 3600 * 1000
  else (aim now instant - now) * 1000

theorem u32_sub {now instant : Nat} (hnow : now < 2 ^ 32) (hinstant : instant < 2 ^ 32) :
    u32 (instant + 2 ^ 32 - now) = aim now instant - now := by
  unfold u32 aim
  split <;> omega

theorem inTime_periodFor (now next instant : Nat) :
    InTime now next (periodFor now instant) ↔
      (aim now instant ≤ next ∨ next ≤ now ∧ aim now instant ≤ now + 1) ∨
        now + 7 * daySecond ≤ next ∧ now + 10 * daySecond < aim now instant := by
  unfold InTime periodFor daySecond
  split <;> split <;> omega

/-- The least instant looked at decides. -/
theorem timely_iff {curTime now next first : Nat} {timers : List ColinkAppTimer}
    (hlooks : LooksAt curTime timers first)
    (hleast : ∀ instant, LooksAt curTime timers instant → first ≤ instant) :
    Timely curTime now timers next ↔ InTime now next (periodFor now first) := by
  have hmeets (turn : Nat) : Meets curTime now next turn timers ↔
      (first + turn ≤ next ∨ next ≤ now ∧ first + turn ≤ now + 1) ∨
        now + 7 * daySecond ≤ next ∧ now + 10 * daySecond < first + turn := by
    refine or_congr ?_ (and_congr_right fun _ => ?_)
    · constructor
      · rintro ⟨instant, hinstant, hreach⟩
        have hle := hleast instant hinstant
        omega
      · exact fun hreach => ⟨first, hlooks, hreach⟩
    · constructor
      · exact fun hall => hall first hlooks
      · intro hfar instant hinstant
        have hle := hleast instant hinstant
        omega
  have hpassed : Passed curTime now timers ↔ first < now := by
    constructor
    · rintro ⟨instant, hinstant, hbefore⟩
      exact (hleast instant hinstant).trans_lt hbefore
    · exact fun hbefore => ⟨first, hlooks, hbefore⟩
  have hsome : ¬ ∀ instant, ¬ LooksAt curTime timers instant := fun hnone => hnone first hlooks
  rw [inTime_periodFor, Timely, or_iff_right hsome, hpassed, hmeets, hmeets]
  unfold aim
  by_cases hbefore : first < now
  · rw [if_neg (by omega)]
    simp only [hbefore, not_true, false_implies, true_implies, true_and]
  · rw [if_pos (by omega)]
    simp only [hbefore, not_false_eq_true, false_implies, true_implies, and_true, Nat.add_zero]

/-! ### The call -/

/-- The result of the scan is the least instant it looks at, or the maximum. -/
theorem looksAt_offTime {curTime : UInt32} {doSwitch : UInt8} {list : List ColinkAppTimer}
    {result : Result} (h : getMinTime curTime doSwitch list = some result) :
    (∀ instant, LooksAt curTime.toNat list instant → result.offTime ≤ instant) ∧
      (result.offTime ≠ maxTime → LooksAt curTime.toNat list result.offTime) := by
  have hleast := getMinTime_least h
  constructor
  · rintro instant ⟨-, t, ht, action, hc⟩
    exact hleast.le t ht _ hc
  · intro hne
    obtain ⟨t, ht, hc⟩ := hleast.mem hne
    exact ⟨lt_of_le_of_ne hleast.le_max hne, t, ht, _, hc⟩

theorem reading_lt (m : Globals) (ticks : Ticks) : reading m ticks < 2 ^ 32 :=
  Nat.mod_lt _ (by decide)

/-- What `mytime_update_delay` does with the result of the scan. -/
def delayUpdate (m : Globals) (now : Nat) (result : Result) : Update :=
  if result.offTime = maxTime then ⟨-1, { m with mytimeState := .sntped }, result.timerSwitch⟩
  else if u32 (result.offTime + 2 ^ 32 - now) > 10 * daySecond then
    ⟨0, startDelay m .oneWeek (7 * 24 * 3600 * 1000), result.timerSwitch⟩
  else
    ⟨0, startDelay m .delay (u32 (u32 (result.offTime + 2 ^ 32 - now) * 1000)),
      result.timerSwitch⟩

theorem mytimeUpdateDelay_of_not_waiting {m : Globals} {ticks : Ticks} (h : ¬ Waiting m) :
    mytimeUpdateDelay m ticks =
      (getMinTime (mytimeGetTime m ticks.first ticks.second).1 m.doSwitch (timers m)).map
        fun result => delayUpdate
          { (mytimeGetTime m ticks.first ticks.second).2 with doSwitch := result.doSwitch }
          (reading m ticks) result := by
  unfold Waiting at h
  simp only [not_or] at h
  obtain ⟨hlist, hnum, hidle, hsntping⟩ := h
  obtain ⟨apTime, hlist⟩ := Option.ne_none_iff_exists'.mp hlist
  have htimers : timers m = apTime.take m.timerNum.toNat := by
    rw [timers, hlist, Option.getD_some]
  rw [htimers]
  unfold mytimeUpdateDelay
  simp only [hlist, if_neg hnum, hidle, hsntping, or_self, if_false]
  change (getMinTime (mytimeGetTime m ticks.first ticks.second).1 m.doSwitch
    (apTime.take m.timerNum.toNat)).bind _ = _
  cases getMinTime (mytimeGetTime m ticks.first ticks.second).1 m.doSwitch
    (apTime.take m.timerNum.toNat) with
  | none => rfl
  | some result =>
    simp only [Option.bind_some, Option.map_some, delayUpdate]
    split
    · rfl
    · unfold reading
      split <;> rfl

theorem startDelay_programs (m : Globals) (mytimeState : MytimeState) (set periodMs : Nat) :
    (startDelay m mytimeState set).mytimeDelayTimer = some ⟨periodMs, true⟩ ↔
      m.mytimeDelayTimer ≠ none ∧ periodMs = set := by
  cases htimer : m.mytimeDelayTimer with
  | none => simp [startDelay, htimer]
  | some timer =>
    simp only [startDelay, htimer, Option.map_some, Option.some.injEq, DelayTimer.mk.injEq,
      and_true, ne_eq, reduceCtorEq, not_false_eq_true, true_and]
    exact eq_comm

theorem delayUpdate_programs {m : Globals} {now : Nat} {result : Result} (hnow : now < 2 ^ 32)
    (hle : result.offTime ≤ maxTime) (periodMs : Nat) :
    ((delayUpdate m now result).retval = 0 ∧
        (delayUpdate m now result).state.mytimeDelayTimer = some ⟨periodMs, true⟩) ↔
      m.mytimeDelayTimer ≠ none ∧ result.offTime ≠ maxTime ∧
        periodMs = periodFor now result.offTime := by
  have hmax : maxTime < 2 ^ 32 := by decide
  unfold delayUpdate periodFor
  rw [u32_sub hnow (hle.trans_lt hmax)]
  split
  · rename_i hnothing
    simp [hnothing]
  · rename_i hinstant
    split
    · rw [startDelay_programs]
      simp [hinstant]
    · rename_i hnear
      have hsmall : u32 ((aim now result.offTime - now) * 1000) =
          (aim now result.offTime - now) * 1000 :=
        Nat.mod_eq_of_lt (by unfold daySecond at hnear; omega)
      rw [startDelay_programs, hsmall]
      simp [hinstant]

/-- What a call programs. -/
theorem programs_iff (m : Globals) (ticks : Ticks) (periodMs : Nat) :
    Programs m ticks periodMs ↔ ¬ Waiting m ∧ m.mytimeDelayTimer ≠ none ∧
      ∃ result, getMinTime (mytimeGetTime m ticks.first ticks.second).1 m.doSwitch (timers m) =
        some result ∧ result.offTime ≠ maxTime ∧
          periodMs = periodFor (reading m ticks) result.offTime := by
  refine and_congr_right fun hbusy => ?_
  rw [mytimeUpdateDelay_of_not_waiting hbusy]
  cases hscan : getMinTime (mytimeGetTime m ticks.first ticks.second).1 m.doSwitch (timers m) with
  | none => simp
  | some result =>
    simp only [Option.map_some, Option.some.injEq, exists_eq_left']
    exact delayUpdate_programs (reading_lt m ticks) (getMinTime_least hscan).le_max periodMs

/-- The call is in time exactly if it programs nothing, the list has no next
event, or the instants the scan looks at are timely for it. -/
theorem neverLate_iff (m : Globals) (ticks : Ticks) :
    NeverLate m ticks ↔
      Waiting m ∨ m.mytimeDelayTimer = none ∨
        (∃ t ∈ timers m, DividesByZero (clock m ticks) t) ∨
        ∀ next, Upcoming (clock m ticks) (timers m) next →
          Timely (clock m ticks) (reading m ticks) (timers m) next := by
  unfold NeverLate
  simp only [programs_iff]
  by_cases hwaiting : Waiting m
  · exact iff_of_true (fun _ h => absurd hwaiting h.1) (.inl hwaiting)
  by_cases htimer : m.mytimeDelayTimer = none
  · exact iff_of_true (fun _ h => absurd htimer h.2.1) (.inr (.inl htimer))
  rw [or_iff_right hwaiting, or_iff_right htimer, clock, ← getMinTime_eq_none_iff _ m.doSwitch]
  cases hscan : getMinTime (mytimeGetTime m ticks.first ticks.second).1 m.doSwitch (timers m) with
  | none => exact iff_of_true (fun _ h => by obtain ⟨-, -, _, h, -⟩ := h; cases h) (.inl rfl)
  | some result =>
    obtain ⟨hleast, hlooks⟩ := looksAt_offTime hscan
    rw [or_iff_right (Option.some_ne_none result)]
    by_cases hmax : result.offTime = maxTime
    · -- Nothing is programmed, and nothing below the maximum was looked at.
      refine iff_of_true ?_ ?_
      · rintro _ ⟨-, -, _, hresult, hne, -⟩
        cases hresult
        exact absurd hmax hne
      · intro next _
        refine .inl fun instant hinstant => ?_
        have := hleast instant hinstant
        have := hinstant.1
        omega
    · constructor
      · intro hlate next hnext
        rw [timely_iff (hlooks hmax) hleast]
        exact hlate _ ⟨hwaiting, htimer, result, rfl, hmax, rfl⟩ next hnext
      · rintro htimely _ ⟨-, -, _, hresult, -, rfl⟩ next hnext
        cases hresult
        rw [← timely_iff (hlooks hmax) hleast]
        exact htimely next hnext

/-! ### An event between the readings -/

/-- At 2020-09-13 12:26:41, once. -/
def bell : ColinkAppTimer where
  enable := 1
  type := colinkTypeOnce
  startDo := 1
  endDo := 0
  atTime := 1600000001
  cycle := 0
  delay := 0

def bellGlobals : Globals where
  apTimerList := some [bell]
  timerNum := 1
  prevTick := 0
  realtimeOffset := 1600000000
  mytimeState := .sntped
  doSwitch := 0
  mytimeDelayTimer := some ⟨1000, false⟩
  timerFile := some [bell]

theorem bell_upcoming : Upcoming 1600000000 [bell] 1600000001 := by
  refine ⟨⟨by decide, ?_⟩, bell, List.mem_singleton_self _, 1, .once rfl⟩
  intro t ht m' action hevent _
  rw [List.mem_singleton.mp ht] at hevent
  cases hevent with
  | once _ => exact le_refl _
  | weekday day htype => exact absurd htype (by decide)
  | start k htype => exact absurd htype (by decide)
  | stop k htype => exact absurd htype (by decide)

/-- The second reading comes a second after the event, and the timer is set to a
week. -/
theorem bell_rings_late :
    clock bellGlobals ⟨0, 0, 2000⟩ ≤ reading bellGlobals ⟨0, 0, 2000⟩ ∧
      ¬ NeverLate bellGlobals ⟨0, 0, 2000⟩ := by
  refine ⟨by decide, ?_⟩
  intro hlate
  have hprograms : Programs bellGlobals ⟨0, 0, 2000⟩ (7 * 24 * 3600 * 1000) := by
    rw [programs_iff]
    refine ⟨by unfold Waiting; decide, nofun, ⟨1600000001, 1, none⟩, by decide, by decide,
      by decide⟩
  have hperiod := hlate _ hprograms 1600000001 bell_upcoming
  unfold InTime at hperiod
  rw [if_neg (by decide)] at hperiod
  exact absurd hperiod (by decide)

end Sv6x66.Colink.DelayPeriod
