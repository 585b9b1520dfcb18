import Sv6x66.Colink.KeyLed

/-! What one event can do to the link and to the configuration mode. -/
namespace Sv6x66.Colink.KeyLedConfig
open Sv6x66.Colink.KeyLed
open Sv6x66.Colink.KeyLedQueue

/-- The part of the state that the configuration mode and the status light
depend on. -/
structure Config where
  dev : DevStatus
  wifi : WifiStatus
  colink : ColinkStatus
  led : LedStatus
  mode : CoLinkDeviceMode
  save : CoLinkDeviceMode
deriving DecidableEq, Repr

def config (s : TaskKeyLed) : Config :=
  ⟨s.devStatus, s.wifiStatus, s.colinkStatus, s.ledStatus, s.devMode, s.saveMode⟩

/-- `update_led_status` sees this part only. -/
def Config.light (c : Config) : LedStatus :=
  if c.dev = .smart then .smart
  else if c.dev = .apMode then .apMode
  else if c.wifi = .disCon then .noWifi
  else if c.wifi = .connect then .noSer
  else match c.colink with
    | .upgrade => .upgrade
    | .unReg => .unReg
    | .online => .normal
    | .offline => .noSer

def Config.refresh (c : Config) : Config := { c with led := c.light }

def Config.leave (c : Config) : Config :=
  ({ c with dev := .station, wifi := .disCon, mode := c.save }).refresh

/-- A second or a key press, the two messages that can end the configuration. -/
def Message.isTick : Message → Bool
  | .sec01 => true
  | .devKey _ => true
  | _ => false

inductive ConfigStep : Event → Config → Config → Prop where
  | same (event : Event) (c : Config) (h : ∀ env con, event ≠ .message env (.connect con)) :
      ConfigStep event c c
  | begin (env : Env) (c : Config) (hdev : c.dev = .station) (hmode : c.mode ≠ .upgrade) :
      ConfigStep (.message env (.devKey key1Long)) c
        { c with dev := .smart, led := .smart, mode := .setting, save := c.mode }
  | toAp (env : Env) (c : Config) (hdev : c.dev = .smart) (hmode : c.mode ≠ .upgrade) :
      ConfigStep (.message env (.devKey key1Long)) c { c with dev := .apMode, led := .apMode }
  | leave (env : Env) (msgEvt : Message) (c : Config) (h : Message.isTick msgEvt = true) :
      ConfigStep (.message env msgEvt) c c.leave
  | connected (env : Env) (c : Config) (mode : CoLinkDeviceMode)
      (hmode : mode = c.mode ∨ mode = .workNormal) :
      ConfigStep (.message env (.connect true)) c
        ({ c with dev := .station, wifi := .connect, mode := mode }).refresh
  | disconnected (env : Env) (c : Config) :
      ConfigStep (.message env (.connect false)) c ({ c with wifi := .disCon }).refresh
  | devStatus (env : Env) (value : Int) (c : Config) (colink : ColinkStatus) :
      ConfigStep (.message env (.devStatus value)) c ({ c with colink := colink }).refresh
  | ping (env : Env) (answered : Bool) (c : Config) :
      ConfigStep (.message env (.ping114 answered)) c
        ({ c with wifi := if answered then .internet else .connect }).refresh
  | mode (event : Event) (c : Config) (mode : CoLinkDeviceMode)
      (hevent : ∀ env msgEvt, event ≠ .message env msgEvt) (hmode : mode ≠ .setting) :
      ConfigStep event c { c with mode := mode }
  | power (wifiUp : Bool) (c : Config) :
      ConfigStep (.powerCycle wifiUp) c
        ⟨.station, .disCon, .offline, if wifiUp then .noSer else .noWifi, .start, .start⟩

theorem ConfigStep.same_or_leave {env : Env} {msgEvt : Message} {c c' : Config}
    (htick : Message.isTick msgEvt = true) (h : c' = c ∨ c' = c.leave) :
    ConfigStep (.message env msgEvt) c c' := by
  obtain rfl | rfl := h
  · apply ConfigStep.same
    intro env con hconnect
    cases hconnect
    cases htick
  · exact .leave env msgEvt c htick

variable (s : TaskKeyLed) (env : Env)

@[simp] theorem config_refreshLed : config s.refreshLed = (config s).refresh := rfl

@[simp] theorem config_exitLinkConfig (state : DevStatus) :
    config (s.exitLinkConfig state) = config s := by
  cases state <;> rfl

theorem config_leaveConfig : config s.leaveConfig = (config s).leave := by
  unfold TaskKeyLed.leaveConfig
  rw [config_refreshLed]
  apply congrArg Config.refresh
  change { config ((s.coLinkSetDeviceMode s.saveMode).exitLinkConfig s.devStatus) with
    dev := .station, wifi := .disCon } = _
  rw [config_exitLinkConfig]
  rfl

theorem config_colinkProcessStart :
    ∃ mode, (mode = s.devMode ∨ mode = .workNormal) ∧
      config (s.colinkProcessStart env) = { config s with mode := mode } := by
  unfold TaskKeyLed.colinkProcessStart
  simp only
  split
  · split
    · exact ⟨.workNormal, .inr rfl, rfl⟩
    · exact ⟨s.devMode, .inl rfl, rfl⟩
  · exact ⟨s.devMode, .inl rfl, rfl⟩

theorem config_clearCountDown : config s.clearCountDown = config s := by
  unfold TaskKeyLed.clearCountDown
  simp only
  split
  · split <;> rfl
  · rfl

theorem config_kickAndPing : config s.kickAndPing = config s := by
  unfold TaskKeyLed.kickAndPing
  simp only
  split
  · split <;> rfl
  · rfl

theorem config_event01Sec :
    config (s.event01Sec env) = config s ∨ config (s.event01Sec env) = (config s).leave := by
  unfold TaskKeyLed.event01Sec
  rw [config_kickAndPing]
  unfold TaskKeyLed.smartTimeout
  split
  · split
    · right
      rw [config_leaveConfig, config_clearCountDown]
    · exact .inl (config_clearCountDown s)
  · exact .inl (config_clearCountDown s)

theorem configStep_keyLong :
    ConfigStep (.message env (.devKey key1Long)) (config s) (config (s.keyLong env)) := by
  have hsame : ConfigStep (.message env (.devKey key1Long)) (config s) (config s) :=
    .same _ _ (by simp)
  unfold TaskKeyLed.keyLong
  split
  · exact hsame
  · rename_i hmode
    split
    · exact hsame
    · rename_i hap
      split
      · rename_i hsmart
        exact .toAp env (config s) hsmart hmode
      · rename_i hsmart
        refine .begin env (config s) ?_ hmode
        change s.devStatus = .station
        cases hdev : s.devStatus with
        | station => rfl
        | smart => exact absurd hdev hsmart
        | apMode => exact absurd hdev hap

theorem config_keyShort : config s.keyShort = config s ∨ config s.keyShort = (config s).leave := by
  unfold TaskKeyLed.keyShort
  split
  · exact .inr (config_leaveConfig s)
  · split
    · exact .inl rfl
    · exact .inl rfl

theorem configStep_eventDevKey (key : Nat) :
    ConfigStep (.message env (.devKey key)) (config s) (config (s.eventDevKey env key)) := by
  unfold TaskKeyLed.eventDevKey
  by_cases hlong : key = key1Long
  · have hshort : ¬ key1Long = keyKey1 := by decide
    subst hlong
    rw [if_pos rfl, if_neg hshort]
    exact configStep_keyLong s env
  · rw [if_neg hlong]
    simp only
    split
    · exact .same_or_leave rfl (config_keyShort s)
    · exact .same_or_leave rfl (.inl rfl)

theorem configStep_eventConnect (con : Bool) :
    ConfigStep (.message env (.connect con)) (config s) (config (s.eventConnect env con)) := by
  unfold TaskKeyLed.eventConnect
  cases con with
  | false => exact .disconnected env (config s)
  | true =>
    rw [config_refreshLed]
    simp only
    split
    · obtain ⟨mode, hmode, hconfig⟩ := config_colinkProcessStart
        (({ s with devStatus := .station, wifiStatus := .connect }).call .mytimeStart) env
      rw [hconfig]
      exact .connected env (config s) mode hmode
    · exact .connected env (config s) s.devMode (.inl rfl)

theorem config_eventDevStatus (value : Int) :
    ∃ colink, config (s.eventDevStatus value) = ({ config s with colink := colink }).refresh := by
  refine ⟨(s.eventDevStatus value).colinkStatus, ?_⟩
  unfold TaskKeyLed.eventDevStatus
  rw [config_refreshLed]
  apply congrArg Config.refresh
  simp only [config, TaskKeyLed.refreshLed, TaskKeyLed.call, apply_ite TaskKeyLed.devStatus,
    apply_ite TaskKeyLed.wifiStatus, apply_ite TaskKeyLed.ledStatus,
    apply_ite TaskKeyLed.devMode, apply_ite TaskKeyLed.saveMode, ite_self]

theorem configStep_eventPing114 (answered : Bool) :
    ConfigStep (.message env (.ping114 answered)) (config s)
      (config (s.eventPing114 answered)) := by
  unfold TaskKeyLed.eventPing114
  cases answered with
  | true =>
    simp only
    split
    · exact .same _ _ (by simp)
    · exact .ping env true (config s)
  | false =>
    simp only
    split
    · exact .same _ _ (by simp)
    · exact .ping env false (config s)

theorem config_eventSwitch (on byTimer : Bool) : config (s.eventSwitch on byTimer) = config s := by
  unfold TaskKeyLed.eventSwitch
  simp only
  split
  · split <;> rfl
  · rfl

theorem config_boot (flash : Sv6x66.Lib.NorFlash.Flash) (wifiUp : Bool) :
    config (TaskKeyLed.boot flash wifiUp) =
      ⟨.station, .disCon, .offline, if wifiUp then .noSer else .noWifi, .start, .start⟩ := by
  unfold TaskKeyLed.boot
  simp only
  cases wifiUp
  · simp only [Bool.false_eq_true, if_false]
    split <;> rfl
  · simp only [if_true]
    split <;> rfl

theorem configStep_handle (msgEvt : Message) :
    ConfigStep (.message env msgEvt) (config s) (config (s.handle env msgEvt)) := by
  cases msgEvt with
  | sec01 => exact .same_or_leave rfl (config_event01Sec s env)
  | devKey key => exact configStep_eventDevKey s env key
  | connect con => exact configStep_eventConnect s env con
  | switch on =>
    change ConfigStep _ _ (config (s.eventSwitch on false))
    rw [config_eventSwitch]
    exact .same _ _ (by simp)
  | swTimer on =>
    simp only [TaskKeyLed.handle]
    split
    · exact .same _ _ (by simp)
    · rw [config_eventSwitch]
      exact .same _ _ (by simp)
  | upTimer => exact .same _ _ (by simp)
  | devStatus value =>
    obtain ⟨colink, h⟩ := config_eventDevStatus s value
    change ConfigStep _ _ (config (s.eventDevStatus value))
    rw [h]
    exact .devStatus env value (config s) colink
  | ping114 answered => exact configStep_eventPing114 s env answered
  | bright value => exact .same _ _ (by simp)
  | flhMode mode => exact .same _ _ (by simp)

theorem configStep_step (event : Event) : ConfigStep event (config s) (config (step s event)) := by
  cases event with
  | message env msgEvt => exact configStep_handle s env msgEvt
  | selfApTask => exact .mode _ (config s) .settingSelfap (by simp) (by simp)
  | settingDone env =>
    -- The mode may stay the setting mode here, when the configuration file does not open.
    obtain ⟨mode, hmode | hmode, hconfig⟩ := config_colinkProcessStart s env
    · change ConfigStep _ _ (config (s.colinkProcessStart env))
      rw [hconfig, hmode]
      exact .same _ (config s) (by simp)
    · change ConfigStep _ _ (config (s.colinkProcessStart env))
      rw [hconfig, hmode]
      exact .mode _ (config s) .workNormal (by simp) (by simp)
  | processTask => exact .mode _ (config s) .workNormal (by simp) (by simp)
  | upgradeStart => exact .mode _ (config s) .upgrade (by simp) (by simp)
  | upgradeEnd => exact .mode _ (config s) .workNormal (by simp) (by simp)
  | powerCycle wifiUp =>
    simp only [step]
    rw [config_boot]
    exact .power wifiUp (config s)

end Sv6x66.Colink.KeyLedConfig
