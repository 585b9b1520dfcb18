import Sv6x66.Lib.Run
import Sv6x66.Colink.FlagLog
import Sv6x66.Colink.KeyLedQueue

/-! The task of `key_led.c`: the relay, the configuration mode and the status
light, moved by the messages of its queue. The device mode of `colink_global.c`
is shared with the tasks that set it on their own. -/
namespace Sv6x66.Colink.KeyLed
open Sv6x66.Lib
open Sv6x66.Lib.NorFlash
open Sv6x66.Colink.FlagLog
open Sv6x66.Colink.KeyLedQueue

inductive CoLinkDeviceMode where
  | start
  | setting
  | settingSelfap
  | workNormal
  | upgrade
  | invalid
deriving DecidableEq, Repr

inductive DevStatus where
  | station
  | smart
  | apMode
deriving DecidableEq, Repr

inductive WifiStatus where
  | disCon
  | connect
  | internet
deriving DecidableEq, Repr

inductive ColinkStatus where
  | offline
  | online
  | unReg
  | upgrade
deriving DecidableEq, Repr

inductive LedStatus where
  | normal
  | noWifi
  | noSer
  | unReg
  | upgrade
  | smart
  | apMode
deriving DecidableEq, Repr

def keyKey1 : Nat := 0x0001
def key1Long : Nat := 0x0100

/-- `ColinkDevStatus`, and the two values `upgrade_task` adds to it. -/
def deviceOffline : Int := 0
def deviceOnline : Int := 1
def deviceUnregistered : Int := 2
def upgradeBegun : Int := 10
def upgradeDone : Int := 11

/-- What the task asks of the rest of the system. -/
inductive Call where
  | setSwitch (on : Bool)
  | setPwled (on : Bool)
  | wdtKick
  | wifiInternetPing
  | esptouchInit
  | esptouchStop
  | softapExit
  | enterSettingSelfAPMode
  | wifiAutoConnectStart
  | mytimeStart
  | colinkProcessStart
  | colinkSwitchUpdate
  | colinkDeleteTimer
  | mytimeUpdateDelay
  /-- An `EVENT_DEV_KEY` to the own queue. -/
  | enqueueDevKey (key : Nat)
deriving DecidableEq, Repr

/-- The statics of `key_led.c`, the locals of the task, the device mode, the
flag of `colinkProcessStart`, the flash, and the calls made so far. -/
structure TaskKeyLed where
  pwrStatus : Bool
  ledStatus : LedStatus
  devStatus : DevStatus
  wifiStatus : WifiStatus
  colinkStatus : ColinkStatus
  startSmartT : UInt32
  saveMode : CoLinkDeviceMode
  clearCount : Nat
  sec30 : Nat
  devMode : CoLinkDeviceMode
  taskProcessFlag : Bool
  flash : Flash
  calls : List Call

/-- What a step reads from outside: the clock in milliseconds, and whether
`system_param_load` opens its file. -/
structure Env where
  now : UInt32
  confLoads : Bool
deriving DecidableEq, Repr

namespace TaskKeyLed

def call (s : TaskKeyLed) (c : Call) : TaskKeyLed := { s with calls := s.calls ++ [c] }

def coLinkSetDeviceMode (s : TaskKeyLed) (mode : CoLinkDeviceMode) : TaskKeyLed :=
  { s with devMode := mode }

def updateLedStatus (s : TaskKeyLed) : LedStatus :=
  if s.devStatus = .smart then .smart
  else if s.devStatus = .apMode then .apMode
  else if s.wifiStatus = .disCon then .noWifi
  else if s.wifiStatus = .connect then .noSer
  else match s.colinkStatus with
    | .upgrade => .upgrade
    | .unReg => .unReg
    | .online => .normal
    | .offline => .noSer

/-- `led_status = update_led_status()`. -/
def refreshLed (s : TaskKeyLed) : TaskKeyLed := { s with ledStatus := s.updateLedStatus }

def activeSwitch (s : TaskKeyLed) (pwron : Bool) : TaskKeyLed :=
  (({ s with pwrStatus := pwron }).call (.setSwitch pwron)).call (.setPwled pwron)

def exitLinkConfig (s : TaskKeyLed) (state : DevStatus) : TaskKeyLed :=
  match state with
  | .station => s
  | .smart => (s.call .esptouchStop).call .wifiAutoConnectStart
  | .apMode => (s.call .softapExit).call .wifiAutoConnectStart

/-- The lines the timeout and the short key share. -/
def leaveConfig (s : TaskKeyLed) : TaskKeyLed :=
  let s := s.coLinkSetDeviceMode s.saveMode
  let s := s.exitLinkConfig s.devStatus
  let s := { s with devStatus := .station, wifiStatus := .disCon }
  s.refreshLed

/-- `active_Switch(pwr_status ? 0 : 1); set_switch_nvram(pwr_status);` -/
def toggleSwitch (s : TaskKeyLed) : TaskKeyLed :=
  let s := s.activeSwitch (!s.pwrStatus)
  { s with flash := setSwitchNvram s.flash s.pwrStatus }

/-- With the process task already there only the mode is set; otherwise the new
task sets it when it runs. -/
def colinkProcessStart (env : Env) (s : TaskKeyLed) : TaskKeyLed :=
  let s := s.call .colinkProcessStart
  if env.confLoads then
    if s.taskProcessFlag then s.coLinkSetDeviceMode .workNormal
    else { s with taskProcessFlag := true }
  else s

/-! ### The messages -/

def clearCountDown (s : TaskKeyLed) : TaskKeyLed :=
  if s.clearCount > 0 then
    let s := { s with clearCount := s.clearCount - 1 }
    if s.clearCount = 0 then { s with flash := clearPoweronNumber s.flash } else s
  else s

def smartTimeout (env : Env) (s : TaskKeyLed) : TaskKeyLed :=
  if s.ledStatus = .smart ∨ s.ledStatus = .apMode then
    if env.now > s.startSmartT + 180000 then s.leaveConfig else s
  else s

def kickAndPing (s : TaskKeyLed) : TaskKeyLed :=
  let s := s.call .wdtKick
  if s.wifiStatus ≠ .disCon then
    let s := if s.sec30 = 0 then s.call .wifiInternetPing else s
    { s with sec30 := if s.sec30 + 1 ≥ 30 then 0 else s.sec30 + 1 }
  else s

def event01Sec (env : Env) (s : TaskKeyLed) : TaskKeyLed :=
  ((s.clearCountDown).smartTimeout env).kickAndPing

def keyLong (env : Env) (s : TaskKeyLed) : TaskKeyLed :=
  if s.devMode = .upgrade then s
  else if s.devStatus = .apMode then s
  else if s.devStatus = .smart then
    let s := { s with startSmartT := env.now, devStatus := .apMode }
    ((s.refreshLed).call .esptouchStop).call .enterSettingSelfAPMode
  else
    let s := { s with saveMode := s.devMode, startSmartT := env.now, devStatus := .smart }
    let s := (s.refreshLed).call .esptouchStop
    (s.coLinkSetDeviceMode .setting).call .esptouchInit

def keyShort (s : TaskKeyLed) : TaskKeyLed :=
  if s.devStatus ≠ .station then s.leaveConfig
  else if s.devMode = .upgrade then s
  else s.toggleSwitch.call .colinkSwitchUpdate

def eventDevKey (env : Env) (s : TaskKeyLed) (key : Nat) : TaskKeyLed :=
  let s := if key = key1Long then s.keyLong env else s
  if key = keyKey1 then s.keyShort else s

def eventConnect (env : Env) (s : TaskKeyLed) (con : Bool) : TaskKeyLed :=
  let s : TaskKeyLed := match con with
    | true =>
      let s := { s with devStatus := .station, wifiStatus := .connect }
      let s := s.call .mytimeStart
      if s.devMode ≠ .setting then s.colinkProcessStart env else s
    | false => { s with wifiStatus := .disCon }
  s.refreshLed

def eventDevStatus (s : TaskKeyLed) (value : Int) : TaskKeyLed :=
  let s := if value = deviceUnregistered then
    ({ s with colinkStatus := .unReg }).call .colinkDeleteTimer else s
  let s := if value = deviceOnline then
    ({ s with colinkStatus := .online }).call .colinkSwitchUpdate else s
  let s := if value = deviceOffline then { s with colinkStatus := .offline } else s
  let s := if value = upgradeBegun then { s with colinkStatus := .upgrade } else s
  let s := if value = upgradeDone then { s with colinkStatus := .online } else s
  s.refreshLed

def eventPing114 (s : TaskKeyLed) (answered : Bool) : TaskKeyLed :=
  match answered with
  | true =>
    if s.wifiStatus = .internet then s else ({ s with wifiStatus := .internet }).refreshLed
  | false =>
    if s.wifiStatus = .connect then s else ({ s with wifiStatus := .connect }).refreshLed

def eventSwitch (s : TaskKeyLed) (on byTimer : Bool) : TaskKeyLed :=
  if (on = true ∧ s.pwrStatus = false) ∨ (on = false ∧ s.pwrStatus = true) then
    let s := s.toggleSwitch
    if byTimer then s.call .colinkSwitchUpdate else s
  else s

/-- The `switch` of the task. `EVENT_SW_TIMER` falls through to `EVENT_SWITCH`. -/
def handle (env : Env) (s : TaskKeyLed) : Message → TaskKeyLed
  | .sec01 => s.event01Sec env
  | .devKey key => s.eventDevKey env key
  | .connect con => s.eventConnect env con
  | .devStatus value => s.eventDevStatus value
  | .ping114 answered => s.eventPing114 answered
  | .swTimer on => if s.ledStatus ≠ .normal then s else s.eventSwitch on true
  | .switch on => s.eventSwitch on false
  | .upTimer => s.call .mytimeUpdateDelay
  | .bright _ => s
  | .flhMode _ => s

/-- The memory after a reset, before the task runs. -/
def reset (flash : Flash) : TaskKeyLed where
  pwrStatus := false
  ledStatus := .normal
  devStatus := .station
  wifiStatus := .disCon
  colinkStatus := .offline
  startSmartT := 0
  saveMode := .start
  clearCount := 9
  sec30 := 0
  devMode := .invalid
  taskProcessFlag := false
  flash := flash
  calls := []

/-- `APP_Init` counts the power-on, then the task starts. The long key that
`get_poweron_number() > 4` puts into the queue is a message like any other. -/
def boot (flash : Flash) (wifiUp : Bool) : TaskKeyLed :=
  let s := reset (addPoweronNumber flash)
  let s := { s with ledStatus := if wifiUp then .noSer else .noWifi }
  let s := s.activeSwitch (getSwitchNvram s.flash)
  let s := s.coLinkSetDeviceMode .start
  s.call (if getPoweronNumber s.flash > 4 then .enqueueDevKey key1Long else .wifiAutoConnectStart)

end TaskKeyLed

/-- A message handled by the task, a change of the device mode by another task
(`colinkSelfAPTask`, the end of `colinkSettingTask`, `colinkProcessTask`, the
two ends of `upgrade_task`), or a power cycle. -/
inductive Event where
  | message (env : Env) (msgEvt : Message)
  | selfApTask
  | settingDone (env : Env)
  | processTask
  | upgradeStart
  | upgradeEnd
  | powerCycle (wifiUp : Bool)
deriving DecidableEq, Repr

def step (s : TaskKeyLed) : Event → TaskKeyLed
  | .message env msgEvt => s.handle env msgEvt
  | .selfApTask => s.coLinkSetDeviceMode .settingSelfap
  | .settingDone env => s.colinkProcessStart env
  | .processTask => s.coLinkSetDeviceMode .workNormal
  | .upgradeStart => s.coLinkSetDeviceMode .upgrade
  | .upgradeEnd => s.coLinkSetDeviceMode .workNormal
  | .powerCycle wifiUp => TaskKeyLed.boot s.flash wifiUp

def follow (s : TaskKeyLed) (events : List Event) : TaskKeyLed := events.foldl step s

@[simp] theorem follow_snoc (s : TaskKeyLed) (events : List Event) (event : Event) :
    follow s (events ++ [event]) = step (follow s events) event := by
  simp [follow]

/-- What every step keeps holds after every sequence of events. -/
theorem follow_invariant {I : TaskKeyLed → Prop} (hstep : ∀ s event, I s → I (step s event))
    {s : TaskKeyLed} (hstart : I s) (events : List Event) : I (follow s events) := by
  induction events using List.reverseRecOn with
  | nil => exact hstart
  | append_singleton events event ih =>
    rw [follow_snoc]
    exact hstep _ _ ih

end Sv6x66.Colink.KeyLed
