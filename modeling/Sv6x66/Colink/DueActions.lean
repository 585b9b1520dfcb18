import Sv6x66.Colink.UpTimer

/-! The actions that are due in the second `get_min_time` looks at, `cur_switch` of
`mytime.c`, and its result without the loop. -/
namespace Sv6x66.Colink.DueActions
open Sv6x66.Lib
open Sv6x66.Colink.MinTime
open Sv6x66.Colink.TimerEvents
open Sv6x66.Colink.UpTimer

/-- The actions of a timer at `curTime`, in the order of the code. -/
def dueActions (curTime : Nat) (t : ColinkAppTimer) : List UInt8 :=
  if t.type = colinkTypeOnce then if t.atTime.toNat = curTime then [t.startDo] else []
  else if t.type = colinkTypeRepeat then
    if weekday t ((curTime / daySecond + week197011) % 7) ∧ dayTime t = curTime % daySecond then
      [t.startDo]
    else []
  else if t.type = colinkTypeDuration then
    if t.atTime.toNat = curTime then [t.startDo]
    else if t.atTime.toNat < curTime then
      let elapsed := (curTime - t.atTime.toNat) % period t
      (if elapsed = 0 then [t.startDo] else []) ++ if elapsed = onPhase t then [t.endDo] else []
    else []
  else []

/-- The argument of `Timer_Switch_cb`, if it is called. -/
def switchOf (curSwitch : UInt8) : Option Bool :=
  if curSwitch ≠ 0xFF then some (curSwitch ≠ 0) else none

theorem getLastD_append {α : Type*} (l l' : List α) (a : α) :
    (l ++ l').getLastD a = l'.getLastD (l.getLastD a) := by
  cases hl : l'.getLast? with
  | none => simp [List.getLast?_append, hl]
  | some b => simp [List.getLast?_append, hl]

@[simp] theorem curSwitch_offer (scan : Scan) (value : Nat) (action : UInt8) :
    (scan.offer value action).curSwitch = scan.curSwitch := by
  unfold Scan.offer
  split <;> rfl

theorem curSwitch_hit (scan : Scan) (curTime value : Nat) (action : UInt8) :
    (scan.hit curTime value action).curSwitch =
      (if value = curTime then [action] else []).getLastD scan.curSwitch := by
  unfold Scan.hit
  split <;> rfl

theorem dayTime_le (t : ColinkAppTimer) : dayTime t ≤ 255 * 3600 + 255 * 60 := by
  have hhour := t.cron.hour.toNat_lt
  have hmin := t.cron.min.toNat_lt
  unfold dayTime
  omega

/-- From an instant that is not later than now, the sum does not wrap round to now. -/
theorem u32_add_eq_iff {curTime base value : Nat} (hcur : curTime < 2 ^ 32)
    (hbase : base ≤ curTime) (hvalue : value < 2 ^ 32) :
    u32 (base + value) = curTime ↔ base + value = curTime := by
  unfold u32
  omega

/-- A day after today is not now. -/
theorem later_ne {curTime : Nat} (hcur : curTime < 2 ^ 32) (t : ColinkAppTimer) {k : Nat}
    (hk : 1 ≤ k) (hk' : k ≤ 8) :
    u32 (daySecond * (curTime / daySecond + k) + dayTime t) ≠ curTime := by
  have hday := dayTime_le t
  have hdiv := Nat.div_add_mod curTime daySecond
  have hmod := Nat.mod_lt curTime (show 0 < daySecond by decide)
  have hwrap := u32_add_eq_iff hcur (show daySecond * (curTime / daySecond) ≤ curTime by omega)
    (show daySecond * k + dayTime t < 2 ^ 32 by simp only [daySecond]; omega)
  rw [Nat.mul_add, Nat.add_assoc, Ne, hwrap]
  simp only [daySecond] at *
  omega

/-- Today it is now at the minute of the timer. -/
theorem today_eq_iff {curTime : Nat} (hcur : curTime < 2 ^ 32) (t : ColinkAppTimer) :
    u32 (daySecond * (curTime / daySecond) + dayTime t) = curTime ↔
      dayTime t = curTime % daySecond := by
  have hday := dayTime_le t
  have hdiv := Nat.div_add_mod curTime daySecond
  rw [u32_add_eq_iff hcur (by omega) (by omega)]
  omega

theorem scanDays_later {curTime : Nat} (hcur : curTime < 2 ^ 32) (wday : Nat)
    (t : ColinkAppTimer) (left i : Nat) (hlater : wday < i) (hleft : i + left ≤ wday + 8)
    (scan : Scan) :
    (scanDays curTime (curTime / daySecond) wday t left i scan).curSwitch = scan.curSwitch := by
  induction left generalizing i scan with
  | zero => rfl
  | succ left ih =>
    have hne := later_ne hcur t (show 1 ≤ i - wday by omega) (by omega)
    rw [← Nat.add_sub_assoc hlater.le] at hne
    unfold scanDays
    by_cases hday : weekday t (i % 7)
    · rw [if_pos hday]
      dsimp only
      split
      · simp [curSwitch_hit, hne]
      · rw [ih (i + 1) (by omega) (by omega)]
        simp [curSwitch_hit, hne]
    · rw [if_neg hday]
      exact ih (i + 1) (by omega) (by omega) scan

theorem scanOnce_curSwitch (curTime : Nat) (t : ColinkAppTimer) (scan : Scan) :
    (scanOnce curTime t scan).curSwitch =
      (if t.atTime.toNat = curTime then [t.startDo] else []).getLastD scan.curSwitch := by
  unfold scanOnce
  dsimp only
  split
  · rw [curSwitch_offer, curSwitch_hit]
  · rw [curSwitch_hit]

theorem scanRepeat_curSwitch {curTime : Nat} (hcur : curTime < 2 ^ 32) (t : ColinkAppTimer)
    (scan : Scan) :
    (scanRepeat curTime t scan).curSwitch =
      (if weekday t ((curTime / daySecond + week197011) % 7) ∧ dayTime t = curTime % daySecond then
        [t.startDo] else []).getLastD scan.curSwitch := by
  unfold scanRepeat
  dsimp only
  by_cases hbits : t.cron.weekBit = 0
  · have hnone : ¬ weekday t ((curTime / daySecond + week197011) % 7) := by
      simp [weekday, hbits]
    rw [if_neg (not_not.mpr hbits), if_neg fun h => hnone h.1]
    rfl
  · rw [if_pos hbits]
    set wday := (curTime / daySecond + week197011) % 7 with hwday
    have hwday7 : wday % 7 = wday := Nat.mod_mod _ _
    unfold scanDays
    rw [hwday7]
    by_cases hday : weekday t wday
    · have htoday := today_eq_iff hcur t
      rw [if_pos hday, Nat.add_sub_cancel]
      dsimp only
      split
      · rw [curSwitch_offer, curSwitch_hit]
        simp only [htoday, hday, true_and]
      · rw [scanDays_later hcur wday t 7 (wday + 1) (by omega) (by omega), curSwitch_hit]
        simp only [htoday, hday, true_and]
    · rw [if_neg hday, if_neg fun h => hday h.1]
      exact scanDays_later hcur wday t 7 (wday + 1) (by omega) (by omega) scan

/-- The phase and the period take less than the range of the clock. -/
theorem onPhase_lt (t : ColinkAppTimer) : onPhase t < 2 ^ 32 := by
  have := t.delay.toNat_lt
  unfold onPhase
  omega

theorem period_lt (t : ColinkAppTimer) : period t < 2 ^ 32 := by
  have := t.cycle.toNat_lt
  unfold period
  omega

/-- Of the three instants of a cycle that has begun, `cur_time` is its start or its stop as
the seconds into the cycle say, and never the start of the next. -/
theorem hits_iff {curTime : Nat} (hcur : curTime < 2 ^ 32) {t : ColinkAppTimer}
    (hearlier : t.atTime.toNat < curTime) (hperiod : period t ≠ 0) {value : Nat}
    (hvalue : u32 (t.atTime.toNat + (curTime - t.atTime.toNat) / period t * period t) = value) :
    (value = curTime ↔ (curTime - t.atTime.toNat) % period t = 0) ∧
      (u32 (value + onPhase t) = curTime ↔ (curTime - t.atTime.toNat) % period t = onPhase t) ∧
      u32 (period t + value) ≠ curTime := by
  have hdiv := Nat.div_add_mod' (curTime - t.atTime.toNat) (period t)
  have hmod := Nat.mod_lt (curTime - t.atTime.toNat) (Nat.pos_of_ne_zero hperiod)
  have hle : t.atTime.toNat + (curTime - t.atTime.toNat) / period t * period t ≤ curTime := by
    omega
  rw [u32, Nat.mod_eq_of_lt (by omega)] at hvalue
  rw [hvalue] at hle
  refine ⟨by omega, ?_, ?_⟩
  · rw [u32_add_eq_iff hcur hle (onPhase_lt t)]
    omega
  · rw [Nat.add_comm, Ne, u32_add_eq_iff hcur hle (period_lt t)]
    omega

theorem scanDuration_curSwitch {curTime : Nat} (hcur : curTime < 2 ^ 32) {t : ColinkAppTimer}
    (htype : t.type = colinkTypeDuration) {scan scan' : Scan}
    (h : scanDuration curTime t scan = some scan') :
    scan'.curSwitch = (dueActions curTime t).getLastD scan.curSwitch := by
  have hdue : dueActions curTime t =
      if t.atTime.toNat = curTime then [t.startDo]
      else if t.atTime.toNat < curTime then
        (if (curTime - t.atTime.toNat) % period t = 0 then [t.startDo] else []) ++
          if (curTime - t.atTime.toNat) % period t = onPhase t then [t.endDo] else []
      else [] := by
    simp [dueActions, htype]
  rw [hdue]
  unfold scanDuration at h
  dsimp only at h
  by_cases hlater : t.atTime.toNat > curTime
  · rw [if_pos hlater] at h
    rw [if_neg hlater.ne', if_neg (by omega)]
    cases h
    exact curSwitch_offer _ _ _
  rw [if_neg hlater] at h
  by_cases hearlier : t.atTime.toNat < curTime
  · rw [if_pos hearlier] at h
    rw [if_neg hearlier.ne, if_pos hearlier]
    split_ifs at h with hcycle
    cases h
    have hcycles : t.cycle.toNat * 60 = period t := rfl
    have hdelay : t.delay.toNat * 60 = onPhase t := rfl
    rw [hcycles] at hcycle ⊢
    generalize hvalue : u32 (t.atTime.toNat +
      (curTime - t.atTime.toNat) / period t * period t) = value
    obtain ⟨hstart, hend, hnext⟩ := hits_iff hcur hearlier hcycle hvalue
    rw [curSwitch_offer, curSwitch_hit, if_neg hnext, curSwitch_offer, curSwitch_hit,
      curSwitch_hit, hdelay, getLastD_append]
    simp only [hstart, hend]
    rfl
  · have hnow : t.atTime.toNat = curTime := by omega
    rw [if_neg hearlier] at h
    rw [if_pos hnow]
    cases h
    rfl

theorem scanTimer_curSwitch {curTime : Nat} (hcur : curTime < 2 ^ 32) {t : ColinkAppTimer}
    {scan scan' : Scan} (h : scanTimer curTime scan t = some scan') :
    scan'.curSwitch = (dueActions curTime t).getLastD scan.curSwitch := by
  unfold scanTimer at h
  dsimp only at h
  by_cases honce : t.type = colinkTypeOnce
  · rw [if_pos honce, if_neg (by rw [honce]; decide), if_neg (by rw [honce]; decide)] at h
    cases h
    rw [scanOnce_curSwitch, dueActions, if_pos honce]
  rw [if_neg honce] at h
  by_cases hrepeat : t.type = colinkTypeRepeat
  · rw [if_pos hrepeat, if_neg (by rw [hrepeat]; decide)] at h
    cases h
    rw [scanRepeat_curSwitch hcur, dueActions, if_neg honce, if_pos hrepeat]
  rw [if_neg hrepeat] at h
  by_cases hduration : t.type = colinkTypeDuration
  · rw [if_pos hduration] at h
    exact scanDuration_curSwitch hcur hduration h
  rw [if_neg hduration] at h
  cases h
  rw [dueActions, if_neg honce, if_neg hrepeat, if_neg hduration]
  rfl

theorem foldlM_scanTimer_curSwitch {curTime : Nat} (hcur : curTime < 2 ^ 32)
    {timers : List ColinkAppTimer} {scan scan' : Scan}
    (h : timers.foldlM (scanTimer curTime) scan = some scan') :
    scan'.curSwitch = (timers.flatMap (dueActions curTime)).getLastD scan.curSwitch := by
  induction timers generalizing scan with
  | nil =>
    cases h
    rfl
  | cons t rest ih =>
    rw [List.foldlM_cons] at h
    obtain ⟨middle, ht, hrest⟩ := Option.bind_eq_some_iff.mp h
    rw [List.flatMap_cons, getLastD_append, ← scanTimer_curSwitch hcur ht]
    exact ih hrest

/-- The result of `get_min_time`, when it has one. -/
def resultOf (curTime : Nat) (doSwitch : UInt8) (timers : List ColinkAppTimer) : Result :=
  let next := (timers.flatMap (candidates curTime)).foldl RunningMin.offer (maxTime, doSwitch)
  ⟨next.1, next.2, switchOf ((timers.flatMap (dueActions curTime)).getLastD 0xFF)⟩

theorem getMinTime_eq_some_iff {curTime : UInt32} {doSwitch : UInt8}
    {timers : List ColinkAppTimer} {result : Result} :
    getMinTime curTime doSwitch timers = some result ↔
      (∀ t ∈ timers, ¬ DividesByZero curTime.toNat t) ∧
        result = resultOf curTime.toNat doSwitch timers := by
  have hundefined := getMinTime_eq_none_iff curTime doSwitch timers
  cases hsome : getMinTime curTime doSwitch timers with
  | none =>
    obtain ⟨t, ht, hzero⟩ := hundefined.mp hsome
    constructor
    · intro h
      cases h
    · intro h
      exact absurd hzero (h.1 t ht)
  | some found =>
    have hdefined : ∀ t ∈ timers, ¬ DividesByZero curTime.toNat t := by
      intro t ht hzero
      rw [hundefined.mpr ⟨t, ht, hzero⟩] at hsome
      cases hsome
    have hfound : found = resultOf curTime.toNat doSwitch timers := by
      have hnext := getMinTime_next hsome
      unfold getMinTime at hsome
      obtain ⟨scan, hscan, hresult⟩ := Option.bind_eq_some_iff.mp hsome
      have hswitch := foldlM_scanTimer_curSwitch curTime.toNat_lt hscan
      cases hresult
      unfold resultOf
      rw [← hnext, ← hswitch]
      rfl
    rw [Option.some_inj, ← hfound]
    exact ⟨fun h => ⟨hdefined, h.symm⟩, fun h => h.2.symm⟩

end Sv6x66.Colink.DueActions
