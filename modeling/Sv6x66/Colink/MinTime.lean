import Sv6x66.Lib.RunningMin

/-! `get_min_time` of `mytime.c`. Times are seconds since 1970 in 32-bit words;
`int` and `unsigned` results are reduced modulo `2 ^ 32`. -/
namespace Sv6x66.Colink.MinTime
open Sv6x66.Lib

def u32 (value : Nat) : Nat := value % 2 ^ 32

def maxTime : Nat := 0xFFFFFFFF
def daySecond : Nat := 24 * 60 * 60
def week197011 : Nat := 4

def colinkTypeOnce : UInt8 := 1
def colinkTypeRepeat : UInt8 := 2
def colinkTypeDuration : UInt8 := 3

@[simp] theorem colinkTypes_ne :
    colinkTypeOnce ≠ colinkTypeRepeat ∧ colinkTypeOnce ≠ colinkTypeDuration ∧
      colinkTypeRepeat ≠ colinkTypeOnce ∧ colinkTypeRepeat ≠ colinkTypeDuration ∧
      colinkTypeDuration ≠ colinkTypeOnce ∧ colinkTypeDuration ≠ colinkTypeRepeat := by
  decide

structure CronLite where
  hour : UInt8
  min : UInt8
  sec : UInt8
  weekBit : UInt8
deriving DecidableEq, Repr

structure ColinkAppTimer where
  enable : UInt8
  type : UInt8
  startDo : UInt8
  endDo : UInt8
  atTime : UInt32
  cycle : UInt16
  delay : UInt16
deriving DecidableEq, Repr

/-- The union: `cron` overlays the four bytes of `at_time`, low byte first. -/
def ColinkAppTimer.cron (t : ColinkAppTimer) : CronLite where
  hour := t.atTime.toUInt8
  min := (t.atTime >>> 8).toUInt8
  sec := (t.atTime >>> 16).toUInt8
  weekBit := (t.atTime >>> 24).toUInt8

/-- `week_bit & (1 << wday)`. -/
def weekday (t : ColinkAppTimer) (wday : Nat) : Bool := t.cron.weekBit.toNat.testBit wday

def dayTime (t : ColinkAppTimer) : Nat := t.cron.hour.toNat * 3600 + t.cron.min.toNat * 60

/-- The three variables the loop carries: `off_time`, `do_switch` and
`cur_switch`. -/
structure Scan where
  offTime : Nat
  doSwitch : UInt8
  curSwitch : UInt8
deriving DecidableEq, Repr

/-- `if(off_time > value) { off_time = value; do_switch = action; }` -/
def Scan.offer (scan : Scan) (value : Nat) (action : UInt8) : Scan :=
  if scan.offTime > value then { scan with offTime := value, doSwitch := action } else scan

/-- `if(value == cur_time) cur_switch = action;` -/
def Scan.hit (scan : Scan) (curTime value : Nat) (action : UInt8) : Scan :=
  if value = curTime then { scan with curSwitch := action } else scan

def scanOnce (curTime : Nat) (t : ColinkAppTimer) (scan : Scan) : Scan :=
  let scan := scan.hit curTime t.atTime.toNat t.startDo
  if t.atTime.toNat > curTime then scan.offer t.atTime.toNat t.startDo else scan

/-- `while((i - wday) < 8)`, with `left = 8 - (i - wday)`. -/
def scanDays (curTime curDay wday : Nat) (t : ColinkAppTimer) :
    (left : Nat) → (i : Nat) → Scan → Scan
  | 0, _, scan => scan
  | left + 1, i, scan =>
    if weekday t (i % 7) then
      let value := u32 (daySecond * (curDay + i - wday) + dayTime t)
      let scan := scan.hit curTime value t.startDo
      if value > curTime then scan.offer value t.startDo
      else scanDays curTime curDay wday t left (i + 1) scan
    else scanDays curTime curDay wday t left (i + 1) scan

def scanRepeat (curTime : Nat) (t : ColinkAppTimer) (scan : Scan) : Scan :=
  if t.cron.weekBit ≠ 0 then
    let curDay := curTime / daySecond
    let wday := (curDay + week197011) % 7
    scanDays curTime curDay wday t 8 wday scan
  else scan

/-- No result when the division by `cycle` has no defined one. -/
def scanDuration (curTime : Nat) (t : ColinkAppTimer) (scan : Scan) : Option Scan :=
  let cycle := t.cycle.toNat * 60
  if t.atTime.toNat > curTime then some (scan.offer t.atTime.toNat t.startDo)
  else if t.atTime.toNat < curTime then
    if cycle = 0 then none
    else
      let value := u32 (t.atTime.toNat + (curTime - t.atTime.toNat) / cycle * cycle)
      let scan := scan.hit curTime value t.startDo
      let delay := u32 (value + t.delay.toNat * 60)
      let scan := scan.hit curTime delay t.endDo
      let scan := scan.offer delay t.endDo
      let cycle := u32 (cycle + value)
      let scan := scan.hit curTime cycle t.startDo
      some (scan.offer cycle t.startDo)
  else some { scan with curSwitch := t.startDo }

def scanTimer (curTime : Nat) (scan : Scan) (t : ColinkAppTimer) : Option Scan :=
  let scan := if t.type = colinkTypeOnce then scanOnce curTime t scan else scan
  let scan := if t.type = colinkTypeRepeat then scanRepeat curTime t scan else scan
  if t.type = colinkTypeDuration then scanDuration curTime t scan else some scan

structure Result where
  offTime : Nat
  doSwitch : UInt8
  /-- The argument of the `Timer_Switch_cb` call, if it is made. -/
  timerSwitch : Option Bool
deriving DecidableEq, Repr

/-- `cur_time` is what `mytime_get_time` returned and `doSwitch` the static
variable as the previous call left it. -/
def getMinTime (curTime : UInt32) (doSwitch : UInt8) (apTime : List ColinkAppTimer) :
    Option Result := do
  let scan ← apTime.foldlM (scanTimer curTime.toNat) ⟨maxTime, doSwitch, 0xFF⟩
  pure ⟨scan.offTime, scan.doSwitch,
    if scan.curSwitch ≠ 0xFF then some (scan.curSwitch ≠ 0) else none⟩

/-! ### The candidates of one timer -/

/-- The value that ends `scanDays`. -/
def firstDay (curTime curDay wday : Nat) (t : ColinkAppTimer) :
    (left : Nat) → (i : Nat) → List (Nat × UInt8)
  | 0, _ => []
  | left + 1, i =>
    let value := u32 (daySecond * (curDay + i - wday) + dayTime t)
    if weekday t (i % 7) ∧ value > curTime then [(value, t.startDo)]
    else firstDay curTime curDay wday t left (i + 1)

def boundary (curTime : Nat) (t : ColinkAppTimer) : Nat :=
  t.atTime.toNat + (curTime - t.atTime.toNat) / (t.cycle.toNat * 60) * (t.cycle.toNat * 60)

def onceCandidates (curTime : Nat) (t : ColinkAppTimer) : List (Nat × UInt8) :=
  if t.atTime.toNat > curTime then [(t.atTime.toNat, t.startDo)] else []

def repeatCandidates (curTime : Nat) (t : ColinkAppTimer) : List (Nat × UInt8) :=
  if t.cron.weekBit ≠ 0 then
    let curDay := curTime / daySecond
    let wday := (curDay + week197011) % 7
    firstDay curTime curDay wday t 8 wday
  else []

def durationCandidates (curTime : Nat) (t : ColinkAppTimer) : List (Nat × UInt8) :=
  if t.atTime.toNat > curTime then [(t.atTime.toNat, t.startDo)]
  else if t.atTime.toNat < curTime then
    let value := u32 (boundary curTime t)
    [(u32 (value + t.delay.toNat * 60), t.endDo), (u32 (t.cycle.toNat * 60 + value), t.startDo)]
  else []

/-- What a timer puts up against the running minimum, in the order of the code. -/
def candidates (curTime : Nat) (t : ColinkAppTimer) : List (Nat × UInt8) :=
  if t.type = colinkTypeOnce then onceCandidates curTime t
  else if t.type = colinkTypeRepeat then repeatCandidates curTime t
  else if t.type = colinkTypeDuration then durationCandidates curTime t
  else []

def Scan.next (scan : Scan) : Nat × UInt8 := (scan.offTime, scan.doSwitch)

@[simp] theorem Scan.next_offer (scan : Scan) (value : Nat) (action : UInt8) :
    (scan.offer value action).next = RunningMin.offer scan.next (value, action) := by
  unfold Scan.offer RunningMin.offer Scan.next
  split <;> rfl

@[simp] theorem Scan.next_hit (scan : Scan) (curTime value : Nat) (action : UInt8) :
    (scan.hit curTime value action).next = scan.next := by
  unfold Scan.hit
  split <;> rfl

theorem scanDays_next (curTime curDay wday : Nat) (t : ColinkAppTimer) (left i : Nat)
    (scan : Scan) :
    (scanDays curTime curDay wday t left i scan).next =
      (firstDay curTime curDay wday t left i).foldl RunningMin.offer scan.next := by
  induction left generalizing i scan with
  | zero => rfl
  | succ left ih =>
    unfold scanDays firstDay
    by_cases hday : weekday t (i % 7)
    · by_cases hvalue : u32 (daySecond * (curDay + i - wday) + dayTime t) > curTime
      · simp [hday, hvalue]
      · simp [hday, hvalue, ih]
    · simp [hday, ih]

theorem scanOnce_next (curTime : Nat) (t : ColinkAppTimer) (scan : Scan) :
    (scanOnce curTime t scan).next =
      (onceCandidates curTime t).foldl RunningMin.offer scan.next := by
  unfold scanOnce onceCandidates
  by_cases hlater : t.atTime.toNat > curTime <;> simp [hlater]

theorem scanRepeat_next (curTime : Nat) (t : ColinkAppTimer) (scan : Scan) :
    (scanRepeat curTime t scan).next =
      (repeatCandidates curTime t).foldl RunningMin.offer scan.next := by
  unfold scanRepeat repeatCandidates
  split
  · exact scanDays_next _ _ _ _ _ _ _
  · rfl

theorem scanDuration_next {curTime : Nat} {t : ColinkAppTimer} {scan scan' : Scan}
    (h : scanDuration curTime t scan = some scan') :
    scan'.next = (durationCandidates curTime t).foldl RunningMin.offer scan.next := by
  unfold scanDuration at h
  unfold durationCandidates
  by_cases hlater : t.atTime.toNat > curTime
  · simp only [hlater, if_true] at h ⊢
    cases h
    simp
  · by_cases hearlier : t.atTime.toNat < curTime
    · simp only [hlater, hearlier, if_true, if_false] at h ⊢
      split at h
      · cases h
      · cases h
        simp [boundary]
    · simp only [hlater, hearlier, if_false] at h ⊢
      cases h
      rfl

theorem scanTimer_next {curTime : Nat} {t : ColinkAppTimer} {scan scan' : Scan}
    (h : scanTimer curTime scan t = some scan') :
    scan'.next = (candidates curTime t).foldl RunningMin.offer scan.next := by
  unfold scanTimer at h
  unfold candidates
  dsimp only at h
  by_cases honce : t.type = colinkTypeOnce
  · have hrepeat : t.type ≠ colinkTypeRepeat := by rw [honce]; decide
    have hduration : t.type ≠ colinkTypeDuration := by rw [honce]; decide
    rw [if_pos honce, if_neg hrepeat, if_neg hduration] at h
    rw [if_pos honce]
    cases h
    exact scanOnce_next curTime t scan
  · rw [if_neg honce] at h ⊢
    by_cases hrepeat : t.type = colinkTypeRepeat
    · have hduration : t.type ≠ colinkTypeDuration := by rw [hrepeat]; decide
      rw [if_pos hrepeat, if_neg hduration] at h
      rw [if_pos hrepeat]
      cases h
      exact scanRepeat_next curTime t scan
    · rw [if_neg hrepeat] at h ⊢
      by_cases hduration : t.type = colinkTypeDuration
      · rw [if_pos hduration] at h ⊢
        exact scanDuration_next h
      · rw [if_neg hduration] at h ⊢
        cases h
        rfl

theorem foldlM_scanTimer_next {curTime : Nat} {timers : List ColinkAppTimer} {scan scan' : Scan}
    (h : timers.foldlM (scanTimer curTime) scan = some scan') :
    scan'.next = (timers.flatMap (candidates curTime)).foldl RunningMin.offer scan.next := by
  induction timers generalizing scan with
  | nil =>
    cases h
    rfl
  | cons t rest ih =>
    rw [List.foldlM_cons] at h
    obtain ⟨middle, ht, hrest⟩ := Option.bind_eq_some_iff.mp h
    rw [List.flatMap_cons, List.foldl_append, ih hrest, scanTimer_next ht]

end Sv6x66.Colink.MinTime
