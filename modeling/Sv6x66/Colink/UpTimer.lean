import Sv6x66.Colink.Mytime
import Sv6x66.Colink.TimerEvents

/-! When `EVENT_UP_TIMER` throws the schedule away. The list is freed and the
timer file removed as soon as no timer puts up an instant, and a `DURATION`
timer puts up none in the second of its own `at_time`. -/
namespace Sv6x66.Colink.UpTimer
open Sv6x66.Colink.MinTime
open Sv6x66.Colink.TimerEvents
open Sv6x66.Colink.Mytime

/-- A timer that never runs out. -/
def Recurring (t : ColinkAppTimer) : Prop :=
  (t.type = colinkTypeRepeat ∧ ∃ wday < 7, MinTime.weekday t wday) ∨
    (t.type = colinkTypeDuration ∧ 0 < t.cycle.toNat)

/-- The timer has an instant to offer at `curTime`. -/
def Offers (curTime : Nat) (t : ColinkAppTimer) : Prop :=
  (t.type = colinkTypeOnce ∧ curTime < t.atTime.toNat ∧ t.atTime.toNat < maxTime) ∨
    (t.type = colinkTypeRepeat ∧ ∃ wday < 7, MinTime.weekday t wday) ∨
    (t.type = colinkTypeDuration ∧
      (t.atTime.toNat < curTime ∨ (curTime < t.atTime.toNat ∧ t.atTime.toNat < maxTime)))

/-- The scan of this timer divides by zero. -/
def DividesByZero (curTime : Nat) (t : ColinkAppTimer) : Prop :=
  t.type = colinkTypeDuration ∧ t.atTime.toNat < curTime ∧ t.cycle.toNat = 0

/-- The farthest a timer looks ahead: 65535 minutes. -/
def lookAhead : Nat := 65535 * 60

theorem scanTimer_eq_none_iff {curTime : Nat} {t : ColinkAppTimer} {scan : Scan} :
    scanTimer curTime scan t = none ↔ DividesByZero curTime t := by
  unfold scanTimer DividesByZero
  dsimp only
  by_cases hduration : t.type = colinkTypeDuration
  · rw [if_pos hduration]
    unfold scanDuration
    dsimp only
    by_cases hlater : t.atTime.toNat > curTime
    · rw [if_pos hlater]
      constructor
      · intro h
        cases h
      · intro h
        omega
    · by_cases hearlier : t.atTime.toNat < curTime
      · rw [if_neg hlater, if_pos hearlier]
        by_cases hzero : t.cycle.toNat = 0
        · simp [hduration, hearlier, hzero]
        · simp [hzero]
      · rw [if_neg hlater, if_neg hearlier]
        simp [hearlier]
  · rw [if_neg hduration]
    simp [hduration]

theorem foldlM_scanTimer_eq_none_iff {curTime : Nat} {timers : List ColinkAppTimer}
    (scan : Scan) :
    timers.foldlM (scanTimer curTime) scan = none ↔ ∃ t ∈ timers, DividesByZero curTime t := by
  induction timers generalizing scan with
  | nil => simp
  | cons t rest ih =>
    rw [List.foldlM_cons]
    cases hscan : scanTimer curTime scan t with
    | none => simpa using Or.inl (scanTimer_eq_none_iff.mp hscan)
    | some middle =>
      have hdefined : ¬ DividesByZero curTime t := by
        intro h
        rw [scanTimer_eq_none_iff.mpr h] at hscan
        cases hscan
      simp [ih, hdefined]

theorem getMinTime_eq_none_iff (curTime : UInt32) (doSwitch : UInt8)
    (timers : List ColinkAppTimer) :
    getMinTime curTime doSwitch timers = none ↔
      ∃ t ∈ timers, DividesByZero curTime.toNat t := by
  rw [← foldlM_scanTimer_eq_none_iff ⟨maxTime, doSwitch, 0xFF⟩]
  unfold getMinTime
  cases timers.foldlM (scanTimer curTime.toNat) ⟨maxTime, doSwitch, 0xFF⟩ <;> simp

theorem repeat_offers {curTime : Nat} {t : ColinkAppTimer}
    (hlimit : curTime + lookAhead < maxTime) :
    (∃ c ∈ repeatCandidates curTime t, c.1 < maxTime) ↔ ∃ wday < 7, MinTime.weekday t wday := by
  constructor
  · rintro ⟨c, hc, -⟩
    by_contra hnone
    rw [repeatCandidates_eq_nil fun d hd h => hnone ⟨d, hd, h⟩] at hc
    cases hc
  · rintro ⟨wday, hwday, hbit⟩
    obtain ⟨day, hlow, hhigh, hhit, hfirst⟩ := exists_first_hit curTime hwday hbit
    have hclock : dayTime t ≤ 255 * 3600 + 255 * 60 := by
      have hhour := t.cron.hour.toNat_lt
      have hmin := t.cron.min.toNat_lt
      simp only [dayTime]
      omega
    have hfit : day * daySecond + dayTime t < maxTime := by
      simp only [lookAhead, daySecond] at *
      omega
    have hmax : maxTime < 2 ^ 32 := by decide
    rw [repeatCandidates_of_first hlow hhigh hhit hfirst (by omega)]
    exact ⟨_, List.mem_singleton_self _, hfit⟩

theorem duration_offers {curTime : Nat} {t : ColinkAppTimer}
    (hlimit : curTime + lookAhead < maxTime) :
    (∃ c ∈ durationCandidates curTime t, c.1 < maxTime) ↔
      t.atTime.toNat < curTime ∨ (curTime < t.atTime.toNat ∧ t.atTime.toNat < maxTime) := by
  unfold durationCandidates
  by_cases hlater : t.atTime.toNat > curTime
  · rw [if_pos hlater]
    simp
    omega
  · by_cases hearlier : t.atTime.toNat < curTime
    · have hbound := boundary_le (t := t) (le_of_lt hearlier)
      have hcycle := t.cycle.toNat_lt
      have hmax : maxTime < 2 ^ 32 := by decide
      have hnext : u32 (t.cycle.toNat * 60 + u32 (boundary curTime t)) < maxTime := by
        have hsmall : u32 (boundary curTime t) = boundary curTime t :=
          Nat.mod_eq_of_lt (by omega)
        rw [hsmall, u32, Nat.mod_eq_of_lt] <;> simp only [lookAhead] at hlimit <;> omega
      rw [if_neg hlater, if_pos hearlier]
      simp [hearlier, hnext]
    · rw [if_neg hlater, if_neg hearlier]
      simp
      omega

theorem candidate_lt_max_iff {curTime : Nat} {t : ColinkAppTimer}
    (hlimit : curTime + lookAhead < maxTime) :
    (∃ c ∈ candidates curTime t, c.1 < maxTime) ↔ Offers curTime t := by
  unfold candidates Offers
  by_cases honce : t.type = colinkTypeOnce
  · unfold onceCandidates
    by_cases hlater : t.atTime.toNat > curTime <;> simp [honce, hlater]
  · rw [if_neg honce]
    by_cases hrepeat : t.type = colinkTypeRepeat
    · rw [if_pos hrepeat, repeat_offers hlimit]
      simp [hrepeat]
    · rw [if_neg hrepeat]
      by_cases hduration : t.type = colinkTypeDuration
      · rw [if_pos hduration, duration_offers hlimit]
        simp [hduration]
      · rw [if_neg hduration]
        simp [honce, hrepeat, hduration]

theorem offTime_eq_max_iff {curTime : UInt32} {doSwitch : UInt8} {timers : List ColinkAppTimer}
    {result : Result} (h : getMinTime curTime doSwitch timers = some result)
    (hlimit : curTime.toNat + lookAhead < maxTime) :
    result.offTime = maxTime ↔ ∀ t ∈ timers, ¬ Offers curTime.toNat t := by
  have hleast := getMinTime_least h
  constructor
  · intro hmax t ht hoffers
    obtain ⟨c, hc, hlt⟩ := (candidate_lt_max_iff hlimit).mpr hoffers
    have := hleast.le t ht c hc
    omega
  · intro hnone
    by_contra hne
    obtain ⟨t, ht, hc⟩ := hleast.mem hne
    have hle := hleast.le_max
    exact hnone t ht ((candidate_lt_max_iff hlimit).mp ⟨_, hc, lt_of_le_of_ne hle hne⟩)

/-- The schedule survives the event: -1 is not returned, and the list and the
file stay. -/
def Kept (m : Globals) (ticks : Ticks) : Prop :=
  (∀ update, mytimeUpdateDelay m ticks = some update → update.retval ≠ -1) ∧
    ∀ m', eventUpTimer m ticks = some m' →
      m'.apTimerList = m.apTimerList ∧ m'.timerFile = m.timerFile

theorem kept_iff_retval {m : Globals} {ticks : Ticks} :
    Kept m ticks ↔
      ¬ ∃ update, mytimeUpdateDelay m ticks = some update ∧ update.retval = -1 := by
  constructor
  · rintro ⟨hret, -⟩ ⟨update, hupdate, heq⟩
    exact hret update hupdate heq
  · intro hnot
    refine ⟨fun update hupdate heq => hnot ⟨update, hupdate, heq⟩, ?_⟩
    intro m' hm'
    obtain ⟨update, hupdate, hstate⟩ := Option.bind_eq_some_iff.mp hm'
    obtain ⟨hkeepList, hkeepFile, hret⟩ := mytimeUpdateDelay_frame hupdate
    have hzero : update.retval = 0 :=
      hret.resolve_right fun heq => hnot ⟨update, hupdate, heq⟩
    rw [if_neg (by simp [hzero])] at hstate
    cases hstate
    exact ⟨hkeepList, hkeepFile⟩

/-- A stored schedule with a recurring timer survives `EVENT_UP_TIMER` exactly
when the clock is not running yet, the scan is undefined, or some timer of the
list has an instant to offer. -/
theorem eventUpTimer_kept_iff (m : Globals) (ticks : Ticks) (apTime : List ColinkAppTimer)
    (hlist : m.apTimerList = some apTime) (hnum : m.timerNum = apTime.length)
    (hrecurring : ∃ t ∈ apTime, Recurring t) (hlimit : clock m ticks + lookAhead < maxTime) :
    Kept m ticks ↔ m.mytimeState = .idle ∨ m.mytimeState = .sntping ∨
      (∃ t ∈ apTime, DividesByZero (clock m ticks) t) ∨
      ∃ t ∈ apTime, Offers (clock m ticks) t := by
  have hne : apTime ≠ [] := by
    obtain ⟨t, ht, -⟩ := hrecurring
    exact List.ne_nil_of_mem ht
  rw [kept_iff_retval]
  by_cases hstate : m.mytimeState = .idle ∨ m.mytimeState = .sntping
  · have hkept : ¬ ∃ update, mytimeUpdateDelay m ticks = some update ∧ update.retval = -1 := by
      rintro ⟨update, hupdate, hret⟩
      unfold mytimeUpdateDelay at hupdate
      simp only [hlist, if_pos hstate] at hupdate
      split at hupdate <;> cases hupdate <;> simp at hret
    rw [← or_assoc]
    exact ⟨fun _ => Or.inl hstate, fun _ => hkept⟩
  · rw [mytimeUpdateDelay_retval hlist hnum hne hstate, ← or_assoc, or_iff_right hstate]
    have hundefined :=
      getMinTime_eq_none_iff (mytimeGetTime m ticks.first ticks.second).1 m.doSwitch apTime
    unfold clock at *
    rw [← hundefined]
    cases hresult : getMinTime (mytimeGetTime m ticks.first ticks.second).1 m.doSwitch apTime with
    | none => simp
    | some result =>
      have hmax := offTime_eq_max_iff hresult hlimit
      simp [hmax]

def lampGlobals : Globals where
  apTimerList := some [lamp]
  timerNum := 1
  prevTick := 0
  realtimeOffset := 1600000000
  mytimeState := .delay
  doSwitch := 1
  mytimeDelayTimer := some ⟨864000000, false⟩
  timerFile := some [lamp]

theorem eventUpTimer_kept_iff_lamp :
    Kept lampGlobals ⟨5000, 5000, 5000⟩ ↔
      lampGlobals.mytimeState = .idle ∨ lampGlobals.mytimeState = .sntping ∨
      (∃ t ∈ [lamp], DividesByZero (clock lampGlobals ⟨5000, 5000, 5000⟩) t) ∨
      ∃ t ∈ [lamp], Offers (clock lampGlobals ⟨5000, 5000, 5000⟩) t :=
  eventUpTimer_kept_iff lampGlobals ⟨5000, 5000, 5000⟩ [lamp] rfl rfl
    ⟨lamp, List.mem_singleton_self _, Or.inr ⟨rfl, by decide⟩⟩ (by decide)

/-- The delay timer wakes the handler in the very second the lamp is due: the
list is freed and the file removed. -/
theorem eventUpTimer_lamp_lost :
    (∃ t ∈ [lamp], Recurring t) ∧ clock lampGlobals ⟨500, 500, 500⟩ + lookAhead < maxTime ∧
      eventUpTimer lampGlobals ⟨500, 500, 500⟩ =
        some { lampGlobals with
          prevTick := 500, mytimeState := .sntped, apTimerList := none, timerFile := none } ∧
      ¬ Kept lampGlobals ⟨500, 500, 500⟩ := by
  refine ⟨⟨lamp, List.mem_singleton_self _, Or.inr ⟨rfl, by decide⟩⟩,
    by decide, by decide, ?_⟩
  rw [kept_iff_retval, not_not]
  exact ⟨⟨-1, { lampGlobals with prevTick := 500, mytimeState := .sntped }, some true⟩,
    by decide, rfl⟩

end Sv6x66.Colink.UpTimer
