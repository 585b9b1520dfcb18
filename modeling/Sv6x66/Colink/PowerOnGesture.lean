import Sv6x66.Colink.RelayState

/-! The gesture that switching the power off and on again is: `TaskKeyLed` starts the
configuration when the log counts five power-ons of which none but the last was long. -/
namespace Sv6x66.Colink.PowerOnGesture
open Sv6x66.Lib.NorFlash
open Sv6x66.Colink.FlagLog
open Sv6x66.Colink.FlagLogRefinement
open Sv6x66.Colink.KeyLed
open Sv6x66.Colink.RelayState

/-! ### What the user does -/

/-- The boots, the last one in front, with the `EVENT_01_SEC` each of them has handled. -/
def bootStep (boots : List Nat) : Event → List Nat
  | .message _ .sec01 =>
    match boots with
    | [] => []
    | seconds :: earlier => (seconds + 1) :: earlier
  | .powerCycle _ => 0 :: boots
  | _ => boots

def boots (events : List Event) : List Nat := events.foldl bootStep [0]

/-- How many boots in a row were cut off before the ninth second. -/
def shortBoots (boots : List Nat) : Nat := (boots.takeWhile (· < 9)).length

/-! ### What a step does to the counter -/

/-- The seconds left before the counter is cleared, and the log. -/
def counter (s : TaskKeyLed) : Nat × Flash := (s.clearCount, s.flash)

variable {s : TaskKeyLed} {env : Env}

@[simp] theorem counter_refreshLed (s : TaskKeyLed) : counter s.refreshLed = counter s := rfl

@[simp] theorem counter_call (s : TaskKeyLed) (c : Call) : counter (s.call c) = counter s := rfl

@[simp] theorem counter_leaveConfig (s : TaskKeyLed) : counter s.leaveConfig = counter s := by
  unfold TaskKeyLed.leaveConfig
  rw [counter_refreshLed]
  cases hstatus : s.devStatus <;>
    simp [counter, TaskKeyLed.exitLinkConfig, TaskKeyLed.coLinkSetDeviceMode, TaskKeyLed.call,
      hstatus]

@[simp] theorem counter_colinkProcessStart (env : Env) (s : TaskKeyLed) :
    counter (s.colinkProcessStart env) = counter s := by
  unfold TaskKeyLed.colinkProcessStart
  simp only
  split
  · split <;> rfl
  · rfl

@[simp] theorem counter_kickAndPing (s : TaskKeyLed) : counter s.kickAndPing = counter s := by
  unfold TaskKeyLed.kickAndPing
  simp only
  split
  · split <;> rfl
  · rfl

@[simp] theorem counter_smartTimeout (env : Env) (s : TaskKeyLed) :
    counter (s.smartTimeout env) = counter s := by
  unfold TaskKeyLed.smartTimeout
  split
  · split
    · exact counter_leaveConfig s
    · rfl
  · rfl

/-- The counter of the log is left alone; the switch may be stored. -/
def SameCounter (s t : TaskKeyLed) : Prop :=
  counter t = counter s ∨ ∃ on, counter t = (s.clearCount, setSwitchNvram s.flash on)

theorem SameCounter.toggle (s : TaskKeyLed) : SameCounter s s.toggleSwitch := .inr ⟨_, rfl⟩

theorem sameCounter_eventSwitch (s : TaskKeyLed) (on byTimer : Bool) :
    SameCounter s (s.eventSwitch on byTimer) := by
  unfold TaskKeyLed.eventSwitch
  simp only
  split
  · split
    · exact .inr ⟨_, rfl⟩
    · exact .toggle s
  · exact .inl rfl

theorem sameCounter_eventDevKey (env : Env) (s : TaskKeyLed) (key : Nat) :
    SameCounter s (s.eventDevKey env key) := by
  unfold TaskKeyLed.eventDevKey
  by_cases hlong : key = key1Long
  · have hshort : key ≠ keyKey1 := by
      rw [hlong]
      decide
    simp only [if_pos hlong, if_neg hshort]
    refine .inl ?_
    unfold TaskKeyLed.keyLong
    split
    · rfl
    · split
      · rfl
      · split <;> rfl
  · simp only [if_neg hlong]
    split
    · unfold TaskKeyLed.keyShort
      split
      · exact .inl (counter_leaveConfig s)
      · split
        · exact .inl rfl
        · exact .inr ⟨_, rfl⟩
    · exact .inl rfl

theorem sameCounter_handle (env : Env) (s : TaskKeyLed) {msgEvt : KeyLedQueue.Message}
    (h : msgEvt ≠ .sec01) : SameCounter s (s.handle env msgEvt) := by
  cases msgEvt with
  | sec01 => exact absurd rfl h
  | devKey key => exact sameCounter_eventDevKey env s key
  | connect con =>
    refine .inl ?_
    change counter (s.eventConnect env con) = counter s
    unfold TaskKeyLed.eventConnect
    rw [counter_refreshLed]
    cases con
    · rfl
    · simp only
      split
      · rw [counter_colinkProcessStart]
        rfl
      · rfl
  | devStatus value =>
    refine .inl ?_
    change counter (s.eventDevStatus value) = counter s
    unfold TaskKeyLed.eventDevStatus
    rw [counter_refreshLed]
    simp only [counter, apply_ite TaskKeyLed.clearCount, apply_ite TaskKeyLed.flash,
      TaskKeyLed.call, ite_self]
  | ping114 answered =>
    refine .inl ?_
    change counter (s.eventPing114 answered) = counter s
    unfold TaskKeyLed.eventPing114
    cases answered <;> simp only <;> split <;> rfl
  | swTimer on =>
    simp only [TaskKeyLed.handle]
    split
    · exact .inl rfl
    · exact sameCounter_eventSwitch s on true
  | switch on => exact sameCounter_eventSwitch s on false
  | upTimer => exact .inl rfl
  | bright value => exact .inl rfl
  | flhMode mode => exact .inl rfl

theorem counter_sec01 (env : Env) (s : TaskKeyLed) :
    counter (s.handle env .sec01) = counter s.clearCountDown := by
  change counter (s.event01Sec env) = _
  unfold TaskKeyLed.event01Sec
  rw [counter_kickAndPing, counter_smartTimeout]

theorem counter_boot (flash : Flash) (wifiUp : Bool) :
    counter (TaskKeyLed.boot flash wifiUp) = (9, addPoweronNumber flash) := by
  unfold TaskKeyLed.boot
  simp only
  split
  · split <;> rfl
  · split <;> rfl

/-! ### The invariant -/

/-- The log counts the short boots up to five, and the present one is cleared from it
in its ninth second. -/
structure Counts (c : Nat × Flash) (boots : List Nat) : Prop where
  logOk : LogOk c.2
  left : c.1 = 9 - boots.headD 0
  count : (retained c.2).count = min 5 (shortBoots boots)
  running : boots ≠ []

variable {c : Nat × Flash} {earlier : List Nat} {seconds : Nat}

theorem shortBoots_cons (seconds : Nat) (earlier : List Nat) : shortBoots (seconds :: earlier) =
    if seconds < 9 then shortBoots earlier + 1 else 0 := by
  rw [shortBoots, List.takeWhile_cons]
  split
  · rename_i h
    rw [if_pos (of_decide_eq_true h)]
    rfl
  · rename_i h
    rw [if_neg fun hlt => h (decide_eq_true hlt)]
    rfl

theorem Counts.boot {flash : Flash} {before : List Nat} (hlog : LogOk flash)
    (hcount : (retained flash).count = min 5 (shortBoots before)) :
    Counts (9, addPoweronNumber flash) (0 :: before) := by
  refine ⟨hlog.applyOp .addPoweronNumber, rfl, ?_, List.cons_ne_nil _ _⟩
  have hadd := congrArg Retained.count (hlog.retained_applyOp .addPoweronNumber)
  refine hadd.trans ?_
  rw [shortBoots_cons, if_pos (by decide)]
  change min 5 ((retained flash).count + 1) = _
  rw [hcount]
  omega

theorem Counts.same {t : TaskKeyLed} {before : List Nat} (h : Counts (counter s) before)
    (hsame : SameCounter s t) : Counts (counter t) before := by
  obtain heq | ⟨on, heq⟩ := hsame
  · rwa [heq]
  · rw [heq]
    refine ⟨h.logOk.applyOp (.setSwitchNvram on), h.left, ?_, h.running⟩
    have hset := congrArg Retained.count (h.logOk.retained_applyOp (.setSwitchNvram on))
    exact hset.trans h.count

theorem Counts.second (h : Counts (counter s) (seconds :: earlier)) :
    Counts (counter s.clearCountDown) ((seconds + 1) :: earlier) := by
  have hleft : s.clearCount = 9 - seconds := h.left
  have hcount := h.count
  rw [shortBoots_cons] at hcount
  unfold TaskKeyLed.clearCountDown
  simp only
  by_cases hrunning : s.clearCount > 0
  · rw [if_pos hrunning]
    by_cases hlast : s.clearCount - 1 = 0
    · rw [if_pos hlast]
      refine ⟨h.logOk.applyOp .clearPoweronNumber, ?_, ?_, List.cons_ne_nil _ _⟩
      · change s.clearCount - 1 = 9 - (seconds + 1)
        omega
      · have hclear := congrArg Retained.count (h.logOk.retained_applyOp .clearPoweronNumber)
        refine hclear.trans ?_
        rw [shortBoots_cons, if_neg (by omega)]
        rfl
    · rw [if_neg hlast]
      refine ⟨h.logOk, ?_, ?_, List.cons_ne_nil _ _⟩
      · change s.clearCount - 1 = 9 - (seconds + 1)
        omega
      · rw [if_pos (by omega)] at hcount
        rw [shortBoots_cons, if_pos (by omega)]
        exact hcount
  · rw [if_neg hrunning]
    refine ⟨h.logOk, ?_, ?_, List.cons_ne_nil _ _⟩
    · change s.clearCount = 9 - (seconds + 1)
      omega
    · rw [if_neg (by omega)] at hcount
      rw [shortBoots_cons, if_neg (by omega)]
      exact hcount

theorem Counts.step {before : List Nat} (h : Counts (counter s) before) (event : Event) :
    Counts (counter (step s event)) (bootStep before event) := by
  cases event with
  | message env msgEvt =>
    by_cases hsecond : msgEvt = .sec01
    · subst hsecond
      obtain ⟨seconds, earlier, rfl⟩ := List.exists_cons_of_ne_nil h.running
      change Counts (counter (s.handle env .sec01)) ((seconds + 1) :: earlier)
      rw [counter_sec01]
      exact h.second
    · have hboots : bootStep before (.message env msgEvt) = before := by
        cases msgEvt <;> first | rfl | exact absurd rfl hsecond
      rw [hboots]
      exact h.same (sameCounter_handle env s hsecond)
  | powerCycle wifiUp =>
    change Counts (counter (TaskKeyLed.boot s.flash wifiUp)) (0 :: before)
    rw [counter_boot]
    exact .boot h.logOk h.count
  | settingDone env => exact h.same (.inl (counter_colinkProcessStart env s))
  | selfApTask => exact h
  | processTask => exact h
  | upgradeStart => exact h
  | upgradeEnd => exact h

theorem counts (flash : Flash) (hlog : LogOk flash) (hcount : getPoweronNumber flash = 0)
    (wifiUp : Bool) (events : List Event) :
    Counts (counter (follow (TaskKeyLed.boot flash wifiUp) events)) (boots events) := by
  induction events using List.reverseRecOn with
  | nil =>
    change Counts (counter (TaskKeyLed.boot flash wifiUp)) [0]
    rw [counter_boot]
    refine .boot hlog ?_
    rw [retained, hcount]
    rfl
  | append_singleton events event ih =>
    rw [follow_snoc, boots, List.foldl_append]
    exact ih.step event

/-! ### The gesture -/

/-- A boot sends itself the long key if the number it reads is the fifth, and connects to the
network otherwise. -/
theorem boot_calls (flash : Flash) (wifiUp : Bool) :
    (TaskKeyLed.boot flash wifiUp).calls =
      [.setSwitch (getSwitchNvram (addPoweronNumber flash)),
        .setPwled (getSwitchNvram (addPoweronNumber flash)),
        if getPoweronNumber (addPoweronNumber flash) > 4 then .enqueueDevKey key1Long
        else .wifiAutoConnectStart] := rfl

theorem fifth_iff (flash : Flash) :
    getPoweronNumber (addPoweronNumber flash) > 4 ↔
      ¬ (getPoweronNumber (addPoweronNumber flash)).toNat ≤ 4 := by
  rw [gt_iff_lt, UInt8.lt_iff_toNat_lt]
  exact (not_le (b := 4)).symm

theorem connects_iff (flash : Flash) (wifiUp : Bool) :
    Call.wifiAutoConnectStart ∈ (TaskKeyLed.boot flash wifiUp).calls ↔
      (getPoweronNumber (addPoweronNumber flash)).toNat ≤ 4 := by
  rw [boot_calls]
  by_cases hfifth : getPoweronNumber (addPoweronNumber flash) > 4
  · rw [if_pos hfifth]
    simp [(fifth_iff flash).mp hfifth]
  · rw [if_neg hfifth]
    simp [not_not.mp (mt (fifth_iff flash).mpr hfifth)]

theorem sendsKey_iff (flash : Flash) (wifiUp : Bool) :
    Call.enqueueDevKey key1Long ∈ (TaskKeyLed.boot flash wifiUp).calls ↔
      ¬ (getPoweronNumber (addPoweronNumber flash)).toNat ≤ 4 := by
  rw [boot_calls]
  by_cases hfifth : getPoweronNumber (addPoweronNumber flash) > 4
  · rw [if_pos hfifth]
    simp [(fifth_iff flash).mp hfifth]
  · rw [if_neg hfifth]
    simp [not_not.mp (mt (fifth_iff flash).mpr hfifth)]

/-- At every time the log counts the boots in a row that were short. A boot connects to the
network if fewer than four short ones are directly in front of it, and sends itself the key
that starts the configuration if there are four. -/
theorem configures_after_short_boots (flash : Flash) (hlog : LogOk flash)
    (hcount : getPoweronNumber flash = 0) (wifiUp : Bool) (events : List Event) :
    let s := follow (TaskKeyLed.boot flash wifiUp) events
    (getPoweronNumber s.flash).toNat = min 5 (shortBoots (boots events)) ∧
      ∀ wifiUp', (Call.wifiAutoConnectStart ∈ (step s (.powerCycle wifiUp')).calls ↔
          shortBoots (boots events) < 4) ∧
        (Call.enqueueDevKey key1Long ∈ (step s (.powerCycle wifiUp')).calls ↔
          4 ≤ shortBoots (boots events)) := by
  have hcounts := counts flash hlog hcount wifiUp events
  refine ⟨hcounts.count, fun wifiUp' => ?_⟩
  have hnext : (getPoweronNumber (addPoweronNumber
      (follow (TaskKeyLed.boot flash wifiUp) events).flash)).toNat =
        min 5 (shortBoots (0 :: boots events)) :=
    (Counts.boot hcounts.logOk hcounts.count).count
  rw [shortBoots_cons, if_pos (by decide)] at hnext
  constructor
  · refine (connects_iff _ wifiUp').trans ?_
    rw [hnext]
    omega
  · refine (sendsKey_iff _ wifiUp').trans ?_
    rw [hnext]
    omega

/-- A blank chip that is switched off four times, each time after two seconds. -/
def fourShort : List Event :=
  (List.replicate 4 [.message ⟨1000, true⟩ .sec01, .message ⟨2000, true⟩ .sec01,
    .powerCycle true]).flatten

theorem configures_after_short_boots_fourShort :
    let s := follow (TaskKeyLed.boot (fun _ => 0xFF) false) fourShort
    (getPoweronNumber s.flash).toNat = 5 ∧
      ∀ wifiUp', (Call.wifiAutoConnectStart ∈ (step s (.powerCycle wifiUp')).calls ↔ False) ∧
        (Call.enqueueDevKey key1Long ∈ (step s (.powerCycle wifiUp')).calls ↔ True) := by
  have hblank : retained (fun _ => 0xFF) = decode 0xFF :=
    retained_of_log ⟨0, LogShape.erased fun _ _ => rfl, rfl⟩
  have hcount : getPoweronNumber (fun _ => 0xFF) = 0 :=
    UInt8.toNat_inj.mp (congrArg Retained.count hblank)
  have hshort : shortBoots (boots fourShort) = 5 := by decide
  obtain ⟨hnumber, hboot⟩ := configures_after_short_boots (fun _ => 0xFF)
    (LogOk.erased fun _ _ => rfl) hcount false fourShort
  refine ⟨hnumber.trans (by rw [hshort]; rfl), fun wifiUp' => ?_⟩
  obtain ⟨hconnects, hsends⟩ := hboot wifiUp'
  rw [hshort] at hconnects hsends
  exact ⟨hconnects.trans (by decide), hsends.trans (by decide)⟩

end Sv6x66.Colink.PowerOnGesture
