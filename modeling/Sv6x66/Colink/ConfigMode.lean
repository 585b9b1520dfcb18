import Sv6x66.Colink.KeyLedConfig

/-! The device mode across a configuration. `save_mode` is taken when a long key
begins one and given back when a timeout or a short key ends it. A connection
ends it too, but leaves the device in the setting mode. -/
namespace Sv6x66.Colink.ConfigMode
open Sv6x66.Lib.NorFlash
open Sv6x66.Colink.KeyLed
open Sv6x66.Colink.KeyLedConfig
open Sv6x66.Colink.KeyLedQueue

def isSetting : CoLinkDeviceMode → Bool
  | .setting => true
  | .settingSelfap => true
  | _ => false

/-- The event takes the device from station to configuration. -/
def Begins (s : TaskKeyLed) (event : Event) : Prop :=
  s.devStatus = .station ∧ (step s event).devStatus ≠ .station

instance (s : TaskKeyLed) (event : Event) : Decidable (Begins s event) := by
  unfold Begins
  infer_instance

/-- A timeout or a key ends the configuration. -/
def Ends (s : TaskKeyLed) (event : Event) : Prop :=
  (∃ env msgEvt, event = .message env msgEvt ∧ Message.isTick msgEvt = true) ∧
    s.devStatus ≠ .station ∧ (step s event).devStatus = .station

/-- The task with the mode the device had when the last configuration began. -/
structure Watched where
  task : TaskKeyLed
  began : CoLinkDeviceMode

def watchStep (w : Watched) (event : Event) : Watched where
  task := step w.task event
  began := if Begins w.task event then w.task.devMode else w.began

def watch (flash : Flash) (wifiUp : Bool) (events : List Event) : Watched :=
  events.foldl watchStep ⟨TaskKeyLed.boot flash wifiUp, .start⟩

@[simp] theorem watch_snoc (flash : Flash) (wifiUp : Bool) (events : List Event) (event : Event) :
    watch flash wifiUp (events ++ [event]) = watchStep (watch flash wifiUp events) event := by
  simp [watch]

/-- No event of the sequence begins a configuration. -/
def NoneBegins (s : TaskKeyLed) (later : List Event) : Prop :=
  ∀ before event, before ++ [event] <+: later → ¬ Begins (follow s before) event

/-- The working mode is back, and the next connection starts `colinkProcess`. -/
structure Restored (began : CoLinkDeviceMode) (s : TaskKeyLed) : Prop where
  mode : s.devMode = began
  working : isSetting s.devMode = false
  starts : ∀ later env, NoneBegins s later →
    (step (follow s later) (.message env (.connect true))).calls =
      (follow s later).calls ++ [.mytimeStart, .colinkProcessStart]

/-! ### The saved mode -/

/-- A configuration takes the mode it finds, and keeps it while it lasts. -/
theorem save_next {event : Event} {c d : Config} (hstep : ConfigStep event c d)
    (hdev : d.dev ≠ .station) :
    (c.dev = .station ∧ d.save = c.mode) ∨ (c.dev ≠ .station ∧ d.save = c.save) := by
  cases hstep with
  | same => exact .inr ⟨hdev, rfl⟩
  | begin env c hstation hmode => exact .inl ⟨hstation, rfl⟩
  | toAp env c hsmart hmode =>
    right
    rw [hsmart]
    exact ⟨nofun, rfl⟩
  | leave => exact absurd rfl hdev
  | connected => exact absurd rfl hdev
  | disconnected => exact .inr ⟨hdev, rfl⟩
  | devStatus => exact .inr ⟨hdev, rfl⟩
  | ping => exact .inr ⟨hdev, rfl⟩
  | mode => exact .inr ⟨hdev, rfl⟩
  | power => exact absurd rfl hdev

/-- During a configuration `save_mode` is the mode it began with. -/
theorem saved (flash : Flash) (wifiUp : Bool) (events : List Event) :
    (watch flash wifiUp events).task.devStatus ≠ .station →
      (watch flash wifiUp events).task.saveMode = (watch flash wifiUp events).began := by
  induction events using List.reverseRecOn with
  | nil =>
    intro hdev
    have hconfig := congrArg Config.dev (config_boot flash wifiUp)
    exact absurd hconfig hdev
  | append_singleton events event ih =>
    rw [watch_snoc]
    generalize watch flash wifiUp events = w at ih
    intro hdev
    change (step w.task event).saveMode = if Begins w.task event then w.task.devMode else w.began
    obtain ⟨hstation, hsave⟩ | ⟨hconfig, hsave⟩ := save_next (configStep_step w.task event) hdev
    · rw [if_pos ⟨hstation, hdev⟩]
      exact hsave
    · rw [if_neg fun h => hconfig h.1]
      exact hsave.trans (ih hconfig)

/-- What ends a configuration gives `save_mode` back. -/
theorem ends_mode {env : Env} {msgEvt : Message} {c d : Config}
    (hstep : ConfigStep (.message env msgEvt) c d) (htick : Message.isTick msgEvt = true)
    (hdev : c.dev ≠ .station) (hdev' : d.dev = .station) : d.mode = c.save ∧ d.save = c.save := by
  cases hstep with
  | same => exact absurd hdev' hdev
  | begin => cases hdev'
  | toAp => cases hdev'
  | leave => exact ⟨rfl, rfl⟩
  | connected => cases htick
  | disconnected => cases htick
  | devStatus => cases htick
  | ping => cases htick
  | mode _ _ _ hevent => exact absurd rfl (hevent env msgEvt)

theorem devMode_of_ends {s : TaskKeyLed} {event : Event} (hends : Ends s event) :
    (step s event).devMode = s.saveMode ∧ (step s event).saveMode = s.saveMode := by
  obtain ⟨⟨env, msgEvt, rfl, htick⟩, hdev, hdev'⟩ := hends
  exact ends_mode (configStep_step s (.message env msgEvt)) htick hdev hdev'

/-! ### The next connection -/

/-- Only a long key that begins a configuration brings the setting mode. -/
theorem working_next {event : Event} {c d : Config} (hstep : ConfigStep event c d)
    (hnone : ¬ (c.dev = .station ∧ d.dev ≠ .station))
    (hmode : c.mode ≠ .setting) (hsave : c.save ≠ .setting) :
    d.mode ≠ .setting ∧ d.save ≠ .setting := by
  cases hstep with
  | same => exact ⟨hmode, hsave⟩
  | begin env c hstation hupgrade => exact absurd ⟨hstation, nofun⟩ hnone
  | toAp => exact ⟨hmode, hsave⟩
  | leave => exact ⟨hsave, hsave⟩
  | connected env c mode hnext =>
    obtain rfl | rfl := hnext
    · exact ⟨hmode, hsave⟩
    · exact ⟨nofun, hsave⟩
  | disconnected => exact ⟨hmode, hsave⟩
  | devStatus => exact ⟨hmode, hsave⟩
  | ping => exact ⟨hmode, hsave⟩
  | mode event c mode hevent hnext => exact ⟨hnext, hsave⟩
  | power => exact ⟨nofun, nofun⟩

theorem working_follow {s : TaskKeyLed} (hmode : s.devMode ≠ .setting)
    (hsave : s.saveMode ≠ .setting) (later : List Event) (hnone : NoneBegins s later) :
    (follow s later).devMode ≠ .setting ∧ (follow s later).saveMode ≠ .setting := by
  induction later using List.reverseRecOn with
  | nil => exact ⟨hmode, hsave⟩
  | append_singleton later event ih =>
    obtain ⟨ihmode, ihsave⟩ := ih fun before e h =>
      hnone before e (h.trans (List.prefix_append _ _))
    rw [follow_snoc]
    exact working_next (configStep_step (follow s later) event)
      (hnone later event (List.prefix_refl _)) ihmode ihsave

theorem calls_colinkProcessStart (s : TaskKeyLed) (env : Env) :
    (s.colinkProcessStart env).calls = s.calls ++ [.colinkProcessStart] := by
  unfold TaskKeyLed.colinkProcessStart
  simp only
  split
  · split <;> rfl
  · rfl

theorem calls_connect {s : TaskKeyLed} (hmode : s.devMode ≠ .setting) (env : Env) :
    (step s (.message env (.connect true))).calls =
      s.calls ++ [.mytimeStart, .colinkProcessStart] := by
  change (s.eventConnect env true).calls = _
  unfold TaskKeyLed.eventConnect
  simp only [TaskKeyLed.call, hmode, ne_eq, not_false_eq_true, if_true]
  change (TaskKeyLed.colinkProcessStart env _).calls = _
  rw [calls_colinkProcessStart, List.append_assoc]
  rfl

/-- Every end of a configuration restores the working mode exactly if the
device was in a working mode when that configuration began. -/
theorem restored_iff (flash : Flash) (wifiUp : Bool) (events : List Event) (event : Event)
    (hends : Ends (watch flash wifiUp events).task event) :
    Restored (watch flash wifiUp events).began (step (watch flash wifiUp events).task event) ↔
      isSetting (watch flash wifiUp events).began = false := by
  have hsaved := saved flash wifiUp events hends.2.1
  obtain ⟨hmode, hsave⟩ := devMode_of_ends hends
  rw [hsaved] at hmode hsave
  constructor
  · intro hrestored
    rw [← hrestored.mode]
    exact hrestored.working
  · intro hworking
    have hne : (watch flash wifiUp events).began ≠ .setting := by
      intro h
      rw [h] at hworking
      cases hworking
    refine ⟨hmode, ?_, ?_⟩
    · rw [hmode]
      exact hworking
    · intro later env hnone
      rw [← hmode] at hne
      refine calls_connect (working_follow hne ?_ later hnone).1 env
      rw [hsave, ← hmode]
      exact hne

/-- A long key, and a short key that ends what it began. -/
theorem restored_iff_keys :
    Restored (watch (fun _ => 0xFF) false [.message ⟨1000, true⟩ (.devKey key1Long)]).began
        (step (watch (fun _ => 0xFF) false [.message ⟨1000, true⟩ (.devKey key1Long)]).task
          (.message ⟨2000, true⟩ (.devKey keyKey1))) ↔
      isSetting (watch (fun _ => 0xFF) false
        [.message ⟨1000, true⟩ (.devKey key1Long)]).began = false :=
  restored_iff (fun _ => 0xFF) false [.message ⟨1000, true⟩ (.devKey key1Long)]
    (.message ⟨2000, true⟩ (.devKey keyKey1))
    ⟨⟨_, _, rfl, rfl⟩, by decide +kernel, by decide +kernel⟩

/-- The device connects during a configuration, and another long key follows
before the setting task is through. -/
def pressedAgain : List Event :=
  [.message ⟨1000, true⟩ (.devKey key1Long), .message ⟨2000, true⟩ (.connect true),
    .message ⟨3000, true⟩ (.devKey key1Long)]

theorem setting_mode_restored :
    ¬ ∀ event, Ends (watch (fun _ => 0xFF) false pressedAgain).task event →
      Restored (watch (fun _ => 0xFF) false pressedAgain).began
        (step (watch (fun _ => 0xFF) false pressedAgain).task event) := by
  intro hall
  have hends : Ends (watch (fun _ => 0xFF) false pressedAgain).task
      (.message ⟨4000, true⟩ (.devKey keyKey1)) :=
    ⟨⟨_, _, rfl, rfl⟩, by decide +kernel, by decide +kernel⟩
  have hworking := (hall _ hends).working
  revert hworking
  decide +kernel

end Sv6x66.Colink.ConfigMode
