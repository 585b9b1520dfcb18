import Sv6x66.Lib.Deadline
import Sv6x66.Colink.KeyLedConfig
import Sv6x66.Colink.DlLength

/-! The four timeouts that are compared with a deadline: the configuration mode of
`key_led.c` and the three loops of `colink_dl_check`. -/
namespace Sv6x66.Colink.TimeoutWrap
open Sv6x66.Lib
open Sv6x66.Lib.CString
open Sv6x66.Lib.NorFlash
open Sv6x66.Colink.KeyLed
open Sv6x66.Colink.KeyLedConfig
open Sv6x66.Colink.KeyLedQueue
open Sv6x66.Colink.DlRequest (Search Round search)
open Sv6x66.Colink.DlLength

/-- The clock has wrapped since the start exactly if the deadline has. -/
def Straight (start period now : UInt32) : Prop :=
  Deadline.Straight start.toBitVec period.toBitVec now.toBitVec

instance (start period now : UInt32) : Decidable (Straight start period now) :=
  inferInstanceAs (Decidable (Deadline.Straight ..))

theorem window_iff (start period now : UInt32) :
    (¬ now < start + period ↔ period ≤ now - start) ↔ Straight start period now := by
  rw [← UInt32.not_lt, not_iff_not]
  exact Deadline.before_iff start.toBitVec period.toBitVec now.toBitVec

theorem passed_iff (start period now : UInt32) :
    (now > start + period ↔ now - start > period) ↔ Straight start period now :=
  Deadline.after_iff start.toBitVec period.toBitVec now.toBitVec

/-! ### The configuration mode -/

/-- The light shows the configuration mode. -/
def Shown (c : Config) : Prop := c.dev ≠ .station → c.led = .smart ∨ c.led = .apMode

theorem shown_refresh (c : Config) : Shown c.refresh := by
  intro hdev
  unfold Config.refresh Config.light
  cases hc : c.dev with
  | station => exact absurd hc hdev
  | smart => exact .inl rfl
  | apMode => exact .inr rfl

theorem shown_next {event : Event} {c d : Config} (hstep : ConfigStep event c d) (h : Shown c) :
    Shown d := by
  cases hstep with
  | same => exact h
  | begin => exact fun _ => .inl rfl
  | toAp => exact fun _ => .inr rfl
  | leave => exact shown_refresh _
  | connected => exact shown_refresh _
  | disconnected => exact shown_refresh _
  | devStatus => exact shown_refresh _
  | ping => exact shown_refresh _
  | mode => exact h
  | power => exact fun hdev => absurd rfl hdev

theorem shown_follow (flash : Flash) (wifiUp : Bool) (events : List Event) :
    Shown (config (follow (TaskKeyLed.boot flash wifiUp) events)) := by
  apply follow_invariant (I := fun s => Shown (config s))
  · exact fun s event h => shown_next (configStep_step s event) h
  · rw [config_boot]
    exact fun hdev => absurd rfl hdev

theorem clearCountDown_startSmartT (s : TaskKeyLed) :
    s.clearCountDown.startSmartT = s.startSmartT := by
  unfold TaskKeyLed.clearCountDown
  dsimp only
  split_ifs <;> rfl

/-- The message of a second ends the configuration mode, and nothing else does in it. -/
theorem station_after_second {s : TaskKeyLed} (hshown : Shown (config s)) (env : Env)
    (hdev : s.devStatus ≠ .station) :
    (step s (.message env .sec01)).devStatus = .station ↔ env.now > s.startSmartT + 180000 := by
  have hconfig : config s.clearCountDown = config s := config_clearCountDown s
  have hled : s.clearCountDown.ledStatus = s.ledStatus := congrArg Config.led hconfig
  have hdown : s.clearCountDown.devStatus = s.devStatus := congrArg Config.dev hconfig
  have hkick : ∀ t : TaskKeyLed, t.kickAndPing.devStatus = t.devStatus :=
    fun t => congrArg Config.dev (config_kickAndPing t)
  have hlight : s.ledStatus = .smart ∨ s.ledStatus = .apMode := hshown hdev
  change (s.event01Sec env).devStatus = .station ↔ _
  unfold TaskKeyLed.event01Sec TaskKeyLed.smartTimeout
  rw [hkick, hled, clearCountDown_startSmartT, if_pos hlight]
  split
  · rename_i hpassed
    refine iff_of_true ?_ hpassed
    exact congrArg Config.dev (config_leaveConfig s.clearCountDown)
  · rename_i hpassed
    exact iff_of_false (by rwa [hdown]) hpassed

/-! ### The loops -/

/-- The head of the second loop ends it at this round, whatever it has read. -/
def LineEnds (start : UInt32) (round : Round) : Prop :=
  ∀ rounds buffer off waiting,
    lineLoop (start + 200) (round :: rounds) buffer off waiting = some ⟨1, buffer, waiting⟩

/-- The head of the third loop ends it at this round. -/
def DataEnds (start : UInt32) (round : Round) : Prop :=
  ∀ n rounds pbuf off waiting,
    dataLoop (start + 500) n (round :: rounds) pbuf off waiting = some (2, pbuf)

theorem request_ends_iff {s : Search} (hstate : s.state = 0) (round : Round) :
    DlRequest.step s round = none ↔ ¬ round.systick < s.startSystick + 10000 := by
  unfold DlRequest.step
  by_cases hin : round.systick < s.startSystick + 10000
  · rw [if_neg (by simp [hstate, hin])]
    refine iff_of_false ?_ (not_not.mpr hin)
    dsimp only
    split <;> simp
  · rw [if_pos (.inr hin)]
    exact iff_of_true rfl hin

theorem lineEnds_iff (start : UInt32) (round : Round) :
    LineEnds start round ↔ ¬ round.systick < start + 200 := by
  constructor
  · intro hends hin
    have hread := hends [] [0] 0 [10]
    simp [lineLoop, hin, UartFifo.uartDataReadData] at hread
  · intro hin rounds buffer off waiting
    rw [lineLoop, if_neg hin]

theorem dataEnds_iff (start : UInt32) (round : Round) :
    DataEnds start round ↔ ¬ round.systick < start + 500 := by
  constructor
  · intro hends hin
    have hread := hends 0 [] [] 0 []
    simp [dataLoop, hin, UartFifo.uartDataReadData] at hread
  · intro hin n rounds pbuf off waiting
    rw [dataLoop, if_neg hin]

/-! ### A run of both tasks -/

/-- The events of the key task from its start, and the rounds the three loops of the other
task are offered. -/
structure Ticking where
  flash : Flash
  wifiUp : Bool
  events : List Event
  buffer : Vector UInt8 8
  requestSystick : UInt32
  request : List Round
  sending : Sending
  lineWaiting : Bytes
  n : Nat
  pbuf : Bytes
  dataWaiting : Bytes

/-- A test that the run comes to: what it started from, its period and the clock; what it
decides; and what should decide it, the time elapsed modulo 2^32. -/
inductive Tested (run : Ticking) : (start period now : UInt32) → (ends elapsed : Prop) → Prop where
  | second {before after env s} (hevents : run.events = before ++ .message env .sec01 :: after)
      (hs : s = follow (TaskKeyLed.boot run.flash run.wifiUp) before)
      (hdev : s.devStatus ≠ .station) :
      Tested run s.startSmartT 180000 env.now ((step s (.message env .sec01)).devStatus = .station)
        (env.now - s.startSmartT > 180000)
  | request {before round after s} (hrounds : run.request = before ++ round :: after)
      (hs : Run DlRequest.step anyStep (search run.requestSystick run.buffer) before s)
      (hstate : s.state = 0) :
      Tested run run.requestSystick 10000 round.systick (DlRequest.step s round = none)
        (10000 ≤ round.systick - run.requestSystick)
  | line {before round after} (hrounds : run.sending.line = before ++ round :: after)
      (hgoes : ∃ buffer off waiting, ∀ tail,
        lineLoop (run.sending.lineSystick + 200) (before ++ tail) run.sending.buffer.toList 0
            run.lineWaiting =
          lineLoop (run.sending.lineSystick + 200) tail buffer off waiting) :
      Tested run run.sending.lineSystick 200 round.systick (LineEnds run.sending.lineSystick round)
        (200 ≤ round.systick - run.sending.lineSystick)
  | data {before round after} (hrounds : run.sending.data = before ++ round :: after)
      (hgoes : ∃ pbuf off waiting, ∀ tail,
        dataLoop (run.sending.dataSystick + 500) run.n (before ++ tail) run.pbuf 0
            run.dataWaiting =
          dataLoop (run.sending.dataSystick + 500) run.n tail pbuf off waiting) :
      Tested run run.sending.dataSystick 500 round.systick (DataEnds run.sending.dataSystick round)
        (500 ≤ round.systick - run.sending.dataSystick)

theorem search_startSystick {start : UInt32} {buffer : Vector UInt8 8} {rounds : List Round}
    {s : Search} (hrun : Run DlRequest.step anyStep (search start buffer) rounds s) :
    s.startSystick = start := by
  apply hrun.invariant (I := fun s => s.startSystick = start) rfl
  intro s round t hs _ hstep
  unfold DlRequest.step at hstep
  dsimp only at hstep
  split at hstep
  · cases hstep
  · split at hstep <;> cases hstep <;> exact hs

theorem Tested.straight_iff {run : Ticking} {start period now : UInt32} {ends elapsed : Prop}
    (h : Tested run start period now ends elapsed) :
    (ends ↔ elapsed) ↔ Straight start period now := by
  cases h with
  | second hevents hs hdev =>
    subst hs
    rw [station_after_second (s := follow _ _) (fun hdev => shown_follow _ _ _ hdev) _ hdev]
    exact passed_iff ..
  | request hrounds hs hstate =>
    rw [request_ends_iff hstate, search_startSystick hs]
    exact window_iff ..
  | line =>
    rw [lineEnds_iff]
    exact window_iff ..
  | data =>
    rw [dataEnds_iff]
    exact window_iff ..

theorem timeouts_iff (run : Ticking) :
    (∀ start period now ends elapsed, Tested run start period now ends elapsed →
      (ends ↔ elapsed)) ↔
    ∀ start period now ends elapsed, Tested run start period now ends elapsed →
      Straight start period now := by
  constructor
  · intro h start period now ends elapsed htested
    exact htested.straight_iff.mp (h _ _ _ _ _ htested)
  · intro h start period now ends elapsed htested
    exact htested.straight_iff.mpr (h _ _ _ _ _ htested)

/-- A long key 67 seconds before the clock wraps, and the next second. -/
def nearWrap : Ticking where
  flash := fun _ => 0xFF
  wifiUp := false
  events := [.message ⟨4294900000, true⟩ (.devKey key1Long), .message ⟨4294901000, true⟩ .sec01]
  buffer := .replicate 8 0
  requestSystick := 0
  request := []
  sending := ⟨.replicate 65 0, 0, [], 0, []⟩
  lineWaiting := []
  n := 0
  pbuf := []
  dataWaiting := []

theorem nearWrap_left : ¬ ∀ run start period now ends elapsed,
    Tested run start period now ends elapsed → (ends ↔ elapsed) := by
  intro h
  have hdev : (follow (TaskKeyLed.boot nearWrap.flash nearWrap.wifiUp)
      [.message ⟨4294900000, true⟩ (.devKey key1Long)]).devStatus ≠ .station := by decide +kernel
  have hleft := h nearWrap _ _ _ _ _
    (@Tested.second nearWrap _ [] ⟨4294901000, true⟩ _ rfl rfl hdev)
  revert hleft
  decide +kernel

end Sv6x66.Colink.TimeoutWrap
