import Sv6x66.Colink.MinTime

/-! The timer service of `mytime.c`: the clock, the stored timer list and the
delay timer, with the `EVENT_UP_TIMER` branch of `TaskKeyLed` that drives it.
One tick is one millisecond, so `os_tick2ms` is the identity. File operations
and OS timers are taken to succeed. -/
namespace Sv6x66.Colink.Mytime
open Sv6x66.Colink.MinTime

def tickOverSec : Nat := 4294967

inductive MytimeState where
  | idle
  | sntping
  | sntped
  | update
  | delay
  | oneWeek
deriving DecidableEq, Repr

structure DelayTimer where
  periodMs : Nat
  running : Bool
deriving DecidableEq, Repr

structure Globals where
  /-- The block behind `ap_timer_list`, `none` for `NULL`. -/
  apTimerList : Option (List ColinkAppTimer)
  timerNum : Int
  prevTick : Nat
  realtimeOffset : Nat
  mytimeState : MytimeState
  doSwitch : UInt8
  mytimeDelayTimer : Option DelayTimer
  /-- The timer file, as the entries it holds. -/
  timerFile : Option (List ColinkAppTimer)
deriving DecidableEq, Repr

/-- The reads of `OS_GetSysTick` during one `mytime_update_delay`. -/
structure Ticks where
  first : UInt32
  second : UInt32
  third : UInt32
deriving DecidableEq, Repr

/-- `mytime_get_time(NULL)`. -/
def mytimeGetTime (m : Globals) (first second : UInt32) : UInt32 × Globals :=
  let offset := if m.prevTick > first.toNat then u32 (m.realtimeOffset + tickOverSec)
    else m.realtimeOffset
  (UInt32.ofNat (offset + second.toNat / 1000),
    { m with realtimeOffset := offset, prevTick := first.toNat })

structure Update where
  retval : Int
  state : Globals
  timerSwitch : Option Bool
deriving DecidableEq, Repr

def startDelay (m : Globals) (mytimeState : MytimeState) (periodMs : Nat) : Globals :=
  { m with
    mytimeState := mytimeState
    mytimeDelayTimer := m.mytimeDelayTimer.map fun _ => ⟨periodMs, true⟩ }

/-- No result when `get_min_time` has no defined one. -/
def mytimeUpdateDelay (m : Globals) (ticks : Ticks) : Option Update :=
  match m.apTimerList with
  | none => some ⟨0, m, none⟩
  | some apTime =>
    if m.timerNum ≤ 0 then some ⟨0, m, none⟩
    else if m.mytimeState = .idle ∨ m.mytimeState = .sntping then some ⟨0, m, none⟩
    else do
      let (curTime, m) := mytimeGetTime m ticks.first ticks.second
      let result ← getMinTime curTime m.doSwitch (apTime.take m.timerNum.toNat)
      let m := { m with doSwitch := result.doSwitch }
      if result.offTime = maxTime then
        pure ⟨-1, { m with mytimeState := .sntped }, result.timerSwitch⟩
      else
        let diffTime := u32 (result.offTime + 2 ^ 32 -
          u32 (m.realtimeOffset + ticks.third.toNat / 1000))
        if diffTime > 10 * daySecond then
          pure ⟨0, startDelay m .oneWeek (7 * 24 * 3600 * 1000), result.timerSwitch⟩
        else
          pure ⟨0, startDelay m .delay (u32 (diffTime * 1000)), result.timerSwitch⟩

/-- Stops the delay timer and removes the timer file. -/
def mytimeCleanDelay (m : Globals) : Globals :=
  { m with
    apTimerList := none
    mytimeDelayTimer := m.mytimeDelayTimer.map fun timer => { timer with running := false }
    timerFile := none }

/-- `case EVENT_UP_TIMER: if(mytime_update_delay()) mytime_clean_delay();` -/
def eventUpTimer (m : Globals) (ticks : Ticks) : Option Globals := do
  let update ← mytimeUpdateDelay m ticks
  pure (if update.retval ≠ 0 then mytimeCleanDelay update.state else update.state)

/-- The time `get_min_time` works with. -/
def clock (m : Globals) (ticks : Ticks) : Nat :=
  (mytimeGetTime m ticks.first ticks.second).1.toNat

/-- Nothing is there to wait for, or the clock is not set yet. -/
def Waiting (m : Globals) : Prop :=
  m.apTimerList = none ∨ m.timerNum ≤ 0 ∨ m.mytimeState = .idle ∨ m.mytimeState = .sntping

/-- Everything a call can do: nothing, report that no instant is left, or start
the delay timer. -/
theorem mytimeUpdateDelay_cases {m : Globals} {ticks : Ticks} {update : Update}
    (h : mytimeUpdateDelay m ticks = some update) :
    (Waiting m ∧ update.retval = 0 ∧ update.state = m ∧ update.timerSwitch = none) ∨
    (¬ Waiting m ∧ update.retval = -1 ∧ ∃ doSwitch, update.state =
      { (mytimeGetTime m ticks.first ticks.second).2 with
        doSwitch := doSwitch, mytimeState := .sntped }) ∨
    (¬ Waiting m ∧ update.retval = 0 ∧ ∃ doSwitch mytimeState periodMs,
      (mytimeState = .delay ∨ mytimeState = .oneWeek) ∧ update.state =
        startDelay { (mytimeGetTime m ticks.first ticks.second).2 with doSwitch := doSwitch }
          mytimeState periodMs) := by
  unfold mytimeUpdateDelay at h
  cases hlist : m.apTimerList with
  | none =>
    simp only [hlist] at h
    cases h
    exact Or.inl ⟨Or.inl hlist, rfl, rfl, rfl⟩
  | some apTime =>
    simp only [hlist] at h
    split at h
    case isTrue hnum =>
      cases h
      exact Or.inl ⟨Or.inr (Or.inl hnum), rfl, rfl, rfl⟩
    case isFalse hnum =>
      split at h
      case isTrue hstate =>
        cases h
        exact Or.inl ⟨Or.inr (Or.inr hstate), rfl, rfl, rfl⟩
      case isFalse hstate =>
        have hbusy : ¬ Waiting m := by
          unfold Waiting
          rw [hlist]
          simp only [reduceCtorEq, false_or]
          exact not_or.mpr ⟨hnum, hstate⟩
        obtain ⟨result, -, hrest⟩ := Option.bind_eq_some_iff.mp h
        split at hrest
        · cases hrest
          exact Or.inr (Or.inl ⟨hbusy, rfl, _, rfl⟩)
        · split at hrest
          · cases hrest
            exact Or.inr (Or.inr ⟨hbusy, rfl, _, _, _, Or.inr rfl, rfl⟩)
          · cases hrest
            exact Or.inr (Or.inr ⟨hbusy, rfl, _, _, _, Or.inl rfl, rfl⟩)

/-- Updating the delay neither frees the list nor touches the file, and it
returns 0 or -1. -/
theorem mytimeUpdateDelay_frame {m : Globals} {ticks : Ticks} {update : Update}
    (h : mytimeUpdateDelay m ticks = some update) :
    update.state.apTimerList = m.apTimerList ∧ update.state.timerFile = m.timerFile ∧
      (update.retval = 0 ∨ update.retval = -1) := by
  rcases mytimeUpdateDelay_cases h with ⟨-, hret, hstate, -⟩ | ⟨-, hret, doSwitch, hstate⟩ |
    ⟨-, hret, doSwitch, mytimeState, periodMs, -, hstate⟩
  · rw [hstate]
    exact ⟨rfl, rfl, Or.inl hret⟩
  · rw [hstate]
    exact ⟨rfl, rfl, Or.inr hret⟩
  · rw [hstate]
    exact ⟨rfl, rfl, Or.inl hret⟩

/-- With a running clock and a list in memory the return value tells whether
`get_min_time` found an instant. -/
theorem mytimeUpdateDelay_retval {m : Globals} {ticks : Ticks} {apTime : List ColinkAppTimer}
    (hlist : m.apTimerList = some apTime) (hnum : m.timerNum = apTime.length)
    (hne : apTime ≠ [])
    (hstate : ¬ (m.mytimeState = .idle ∨ m.mytimeState = .sntping)) :
    (∃ update, mytimeUpdateDelay m ticks = some update ∧ update.retval = -1) ↔
      ∃ result, getMinTime (mytimeGetTime m ticks.first ticks.second).1 m.doSwitch apTime =
        some result ∧ result.offTime = maxTime := by
  have hpos : ¬ m.timerNum ≤ 0 := by
    have := List.length_pos_iff.mpr hne
    omega
  have htake : apTime.take m.timerNum.toNat = apTime := by
    rw [hnum, Int.toNat_natCast, List.take_length]
  unfold mytimeUpdateDelay
  simp only [hlist, if_neg hpos, if_neg hstate]
  have hsame : (mytimeGetTime m ticks.first ticks.second).2.timerNum = m.timerNum := rfl
  have hswitch : (mytimeGetTime m ticks.first ticks.second).2.doSwitch = m.doSwitch := rfl
  rw [hsame, hswitch, htake]
  cases hresult : getMinTime (mytimeGetTime m ticks.first ticks.second).1 m.doSwitch apTime with
  | none => simp
  | some result =>
    by_cases hmax : result.offTime = maxTime
    · simp [hmax]
    · simp only [Option.bind_eq_bind, Option.bind_some, if_neg hmax]
      constructor
      · rintro ⟨update, hupdate, hret⟩
        split at hupdate
        · cases hupdate
          simp at hret
        · cases hupdate
          simp at hret
      · rintro ⟨result', heq, hmax'⟩
        cases heq
        exact absurd hmax' hmax

end Sv6x66.Colink.Mytime
