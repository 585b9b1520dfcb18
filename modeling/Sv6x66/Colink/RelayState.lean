import Sv6x66.Colink.KeyLed
import Sv6x66.Colink.FlagLogRefinement

/-! The relay and its stored value stay in step: whatever the task handles, the
log holds the state the relay is in. -/
namespace Sv6x66.Colink.RelayState
open Sv6x66.Lib.NorFlash
open Sv6x66.Colink.FlagLog
open Sv6x66.Colink.FlagLogRefinement
open Sv6x66.Colink.KeyLed

/-! ### What a step does to the relay -/

/-- The relay and the log. -/
def relay (s : TaskKeyLed) : Bool × Flash := (s.pwrStatus, s.flash)

variable (s : TaskKeyLed) (env : Env)

@[simp] theorem relay_coLinkSetDeviceMode (mode : CoLinkDeviceMode) :
    relay (s.coLinkSetDeviceMode mode) = relay s := rfl

@[simp] theorem relay_refreshLed : relay s.refreshLed = relay s := rfl

@[simp] theorem relay_exitLinkConfig (state : DevStatus) :
    relay (s.exitLinkConfig state) = relay s := by
  cases state <;> rfl

@[simp] theorem relay_leaveConfig : relay s.leaveConfig = relay s := by
  change relay ((s.coLinkSetDeviceMode s.saveMode).exitLinkConfig _) = relay s
  rw [relay_exitLinkConfig, relay_coLinkSetDeviceMode]

@[simp] theorem relay_colinkProcessStart : relay (s.colinkProcessStart env) = relay s := by
  unfold TaskKeyLed.colinkProcessStart
  simp only
  split
  · split
    · rfl
    · rfl
  · rfl

theorem relay_clearCountDown :
    relay s.clearCountDown = relay s ∨
      relay s.clearCountDown = (s.pwrStatus, clearPoweronNumber s.flash) := by
  unfold TaskKeyLed.clearCountDown
  simp only
  split
  · split
    · exact .inr rfl
    · exact .inl rfl
  · exact .inl rfl

@[simp] theorem relay_smartTimeout : relay (s.smartTimeout env) = relay s := by
  unfold TaskKeyLed.smartTimeout
  split
  · split
    · exact relay_leaveConfig s
    · rfl
  · rfl

@[simp] theorem relay_kickAndPing : relay s.kickAndPing = relay s := by
  unfold TaskKeyLed.kickAndPing
  simp only
  split
  · split <;> rfl
  · rfl

@[simp] theorem relay_keyLong : relay (s.keyLong env) = relay s := by
  unfold TaskKeyLed.keyLong
  split
  · rfl
  · split
    · rfl
    · split <;> rfl

@[simp] theorem relay_eventConnect (con : Bool) : relay (s.eventConnect env con) = relay s := by
  unfold TaskKeyLed.eventConnect
  rw [relay_refreshLed]
  cases con
  · rfl
  · simp only
    split
    · rw [relay_colinkProcessStart]
      rfl
    · rfl

@[simp] theorem relay_eventDevStatus (value : Int) : relay (s.eventDevStatus value) = relay s := by
  unfold TaskKeyLed.eventDevStatus
  rw [relay_refreshLed]
  simp only [relay, apply_ite TaskKeyLed.pwrStatus, apply_ite TaskKeyLed.flash, TaskKeyLed.call,
    ite_self]

@[simp] theorem relay_eventPing114 (answered : Bool) :
    relay (s.eventPing114 answered) = relay s := by
  unfold TaskKeyLed.eventPing114
  cases answered <;> simp only <;> split <;> rfl

/-- The relay is toggled and the new state stored, or nothing happens to
either. -/
inductive RelayStep : Bool × Flash → Bool × Flash → Prop where
  | none (r : Bool × Flash) : RelayStep r r
  | clear (pwrStatus : Bool) (flash : Flash) :
      RelayStep (pwrStatus, flash) (pwrStatus, clearPoweronNumber flash)
  | toggle (pwrStatus : Bool) (flash : Flash) :
      RelayStep (pwrStatus, flash) (!pwrStatus, setSwitchNvram flash (!pwrStatus))
  | boot (pwrStatus : Bool) (flash : Flash) :
      RelayStep (pwrStatus, flash)
        (getSwitchNvram (addPoweronNumber flash), addPoweronNumber flash)

theorem relayStep_same {s t : TaskKeyLed} (h : relay t = relay s) : RelayStep (relay s) (relay t) := by
  rw [h]
  exact .none _

theorem relayStep_eventSwitch (on byTimer : Bool) :
    RelayStep (relay s) (relay (s.eventSwitch on byTimer)) := by
  unfold TaskKeyLed.eventSwitch
  simp only
  split
  · split
    · exact .toggle s.pwrStatus s.flash
    · exact .toggle s.pwrStatus s.flash
  · exact .none _

theorem relayStep_keyShort : RelayStep (relay s) (relay s.keyShort) := by
  unfold TaskKeyLed.keyShort
  split
  · exact relayStep_same (relay_leaveConfig s)
  · split
    · exact .none _
    · exact .toggle s.pwrStatus s.flash

theorem relay_boot (flash : Flash) (wifiUp : Bool) :
    relay (TaskKeyLed.boot flash wifiUp) =
      (getSwitchNvram (addPoweronNumber flash), addPoweronNumber flash) := by
  unfold TaskKeyLed.boot
  simp only
  split
  · split <;> rfl
  · split <;> rfl

theorem relayStep_handle (msgEvt : KeyLedQueue.Message) :
    RelayStep (relay s) (relay (s.handle env msgEvt)) := by
  cases msgEvt with
  | sec01 =>
    have hsame : relay (s.event01Sec env) = relay s.clearCountDown := by
      unfold TaskKeyLed.event01Sec
      rw [relay_kickAndPing, relay_smartTimeout]
    change RelayStep (relay s) (relay (s.event01Sec env))
    rw [hsame]
    obtain h | h := relay_clearCountDown s
    · exact relayStep_same h
    · rw [h]
      exact .clear s.pwrStatus s.flash
  | devKey key =>
    change RelayStep (relay s) (relay (s.eventDevKey env key))
    unfold TaskKeyLed.eventDevKey
    simp only
    split
    · rename_i hshort
      have hlong : key ≠ key1Long := by
        rw [hshort]
        decide
      rw [if_neg hlong]
      exact relayStep_keyShort s
    · refine relayStep_same ?_
      split
      · exact relay_keyLong s env
      · rfl
  | connect con => exact relayStep_same (relay_eventConnect s env con)
  | switch on => exact relayStep_eventSwitch s on false
  | swTimer on =>
    simp only [TaskKeyLed.handle]
    split
    · exact .none _
    · exact relayStep_eventSwitch s on true
  | upTimer => exact .none _
  | devStatus value => exact relayStep_same (relay_eventDevStatus s value)
  | ping114 answered => exact relayStep_same (relay_eventPing114 s answered)
  | bright value => exact .none _
  | flhMode mode => exact .none _

theorem relayStep_step (event : Event) : RelayStep (relay s) (relay (step s event)) := by
  cases event with
  | message env msgEvt => exact relayStep_handle s env msgEvt
  | selfApTask => exact .none _
  | settingDone env => exact relayStep_same (relay_colinkProcessStart s env)
  | processTask => exact .none _
  | upgradeStart => exact .none _
  | upgradeEnd => exact .none _
  | powerCycle wifiUp =>
    simp only [step]
    rw [relay_boot]
    exact .boot s.pwrStatus s.flash

/-! ### The invariant -/

/-- The log is well formed and holds the state of the relay. -/
structure InStep (r : Bool × Flash) : Prop where
  logOk : LogOk r.2
  stored : r.1 = getSwitchNvram r.2

theorem InStep.boot {flash : Flash} (h : LogOk flash) :
    InStep (getSwitchNvram (addPoweronNumber flash), addPoweronNumber flash) where
  logOk := h.applyOp .addPoweronNumber
  stored := rfl

theorem InStep.next {r t : Bool × Flash} (hin : InStep r) (hstep : RelayStep r t) : InStep t := by
  obtain ⟨hlog, hstored⟩ := hin
  cases hstep with
  | none => exact ⟨hlog, hstored⟩
  | clear pwrStatus flash =>
    refine ⟨hlog.applyOp .clearPoweronNumber, ?_⟩
    have hsame := congrArg Retained.switchOn (hlog.retained_applyOp .clearPoweronNumber)
    exact hstored.trans hsame.symm
  | toggle pwrStatus flash =>
    refine ⟨hlog.applyOp (.setSwitchNvram !pwrStatus), ?_⟩
    exact (congrArg Retained.switchOn (hlog.retained_applyOp (.setSwitchNvram !pwrStatus))).symm
  | boot pwrStatus flash => exact InStep.boot hlog

/-- After every event the relay is in the state `get_switch_nvram` returns, and
a power cycle at that point brings the relay back in that state. -/
theorem relay_persists (flash : Flash) (hlog : LogOk flash) (wifiUp : Bool)
    (events : List Event) :
    let s := follow (TaskKeyLed.boot flash wifiUp) events
    s.pwrStatus = getSwitchNvram s.flash ∧
      ∀ wifiUp', (step s (.powerCycle wifiUp')).pwrStatus = s.pwrStatus := by
  have hin : InStep (relay (follow (TaskKeyLed.boot flash wifiUp) events)) := by
    refine follow_invariant (I := fun s => InStep (relay s)) ?_ ?_ events
    · intro s event hin
      exact hin.next (relayStep_step s event)
    · rw [relay_boot]
      exact InStep.boot hlog
  refine ⟨hin.stored, ?_⟩
  intro wifiUp'
  have hboot := congrArg Prod.fst
    (relay_boot (follow (TaskKeyLed.boot flash wifiUp) events).flash wifiUp')
  have hadd := congrArg Retained.switchOn (hin.logOk.retained_applyOp .addPoweronNumber)
  exact hboot.trans (hadd.trans hin.stored.symm)

/-- A blank chip whose relay is switched on by the cloud and off by the key,
with a power cycle in between. -/
theorem relay_persists_blank :
    let s := follow (TaskKeyLed.boot (fun _ => 0xFF) false)
      [.message ⟨1000, true⟩ (.switch true), .powerCycle true,
        .message ⟨2000, true⟩ (.devKey keyKey1)]
    s.pwrStatus = getSwitchNvram s.flash ∧
      ∀ wifiUp', (step s (.powerCycle wifiUp')).pwrStatus = s.pwrStatus :=
  relay_persists (fun _ => 0xFF) (LogOk.erased fun _ _ => rfl) false _

end Sv6x66.Colink.RelayState
