import Sv6x66.Colink.KeyLedConfig

/-! The link status after a disconnection. Ping results travel through the same
queue as the link events, so one of an earlier connection can be handled when
the link is already down. -/
namespace Sv6x66.Colink.LinkStatus
open Sv6x66.Lib.NorFlash
open Sv6x66.Colink.KeyLed
open Sv6x66.Colink.KeyLedConfig
open Sv6x66.Colink.KeyLedQueue

/-- The states of the light that stand for a Wi-Fi connection. -/
def connected : LedStatus → Bool
  | .normal => true
  | .noSer => true
  | .unReg => true
  | .upgrade => true
  | .noWifi => false
  | .smart => false
  | .apMode => false

/-- Whether a disconnection, or the end of the configuration, came after the
last connection. -/
def nextDown (down : Bool) (event : Event) (dev dev' : DevStatus) : Bool :=
  match event with
  | .message _ (.connect con) => !con
  | .powerCycle _ => false
  | _ => down || (dev != .station && dev' == .station)

structure Watched where
  task : TaskKeyLed
  down : Bool

def watchStep (w : Watched) (event : Event) : Watched where
  task := step w.task event
  down := nextDown w.down event w.task.devStatus (step w.task event).devStatus

def watch (flash : Flash) (wifiUp : Bool) (events : List Event) : Watched :=
  events.foldl watchStep ⟨TaskKeyLed.boot flash wifiUp, false⟩

/-- While the link is down the task and the light say so. -/
def Quiet (w : Watched) : Prop :=
  w.down = true → w.task.wifiStatus = .disCon ∧ connected w.task.ledStatus = false

instance (w : Watched) : Decidable (Quiet w) := by
  unfold Quiet
  infer_instance

@[simp] theorem watch_snoc (flash : Flash) (wifiUp : Bool) (events : List Event) (event : Event) :
    watch flash wifiUp (events ++ [event]) = watchStep (watch flash wifiUp events) event := by
  simp [watch]

theorem nextDown_true {down : Bool} {event : Event} {dev dev' : DevStatus}
    (hevent : ∀ env con, event ≠ .message env (.connect con))
    (h : nextDown down event dev dev' = true) : down = true ∨ (dev ≠ .station ∧ dev' = .station) := by
  unfold nextDown at h
  split at h
  · exact absurd rfl (hevent _ _)
  · cases h
  · simpa using h

theorem connected_light {c : Config} (hwifi : c.wifi = .disCon) : connected c.light = false := by
  unfold Config.light
  split
  · rfl
  · split
    · rfl
    · rfl

/-- Only a ping result can break the silence. -/
theorem quiet_next {down : Bool} {event : Event} {c d : Config} (hstep : ConfigStep event c d)
    (hquiet : down = true → c.wifi = .disCon ∧ connected c.led = false)
    (hping : ∀ env answered, event = .message env (.ping114 answered) → down = false)
    (hdown : nextDown down event c.dev d.dev = true) :
    d.wifi = .disCon ∧ connected d.led = false := by
  cases hstep with
  | same event c hevent =>
    obtain h | h := nextDown_true hevent hdown
    · exact hquiet h
    · exact absurd h.2 h.1
  | begin env c hdev hmode =>
    obtain h | h := nextDown_true (by simp) hdown
    · exact ⟨(hquiet h).1, rfl⟩
    · cases h.2
  | toAp env c hdev hmode =>
    obtain h | h := nextDown_true (by simp) hdown
    · exact ⟨(hquiet h).1, rfl⟩
    · cases h.2
  | leave env msgEvt c hevent => exact ⟨rfl, rfl⟩
  | connected env c mode hmode => cases hdown
  | disconnected env c => exact ⟨rfl, connected_light rfl⟩
  | devStatus env value c colink =>
    obtain h | h := nextDown_true (by simp) hdown
    · exact ⟨(hquiet h).1, connected_light (hquiet h).1⟩
    · exact absurd h.2 h.1
  | ping env answered c =>
    obtain h | h := nextDown_true (by simp) hdown
    · rw [hping env answered rfl] at h
      cases h
    · exact absurd h.2 h.1
  | mode event c mode hevent hmode =>
    obtain h | h := nextDown_true (fun env con => hevent env (.connect con)) hdown
    · exact hquiet h
    · exact absurd h.2 h.1
  | power wifiUp c => cases hdown

theorem Quiet.next {w : Watched} {event : Event} (hquiet : Quiet w)
    (hping : ∀ env answered, event = .message env (.ping114 answered) → w.down = false) :
    Quiet (watchStep w event) := fun hdown =>
  quiet_next (configStep_step w.task event) hquiet hping hdown

/-- A ping result that is handled while the link is down brings it back. -/
theorem not_quiet_of_ping {w : Watched} (hquiet : Quiet w) (hdown : w.down = true) (env : Env)
    (answered : Bool) : ¬ Quiet (watchStep w (.message env (.ping114 answered))) := by
  intro hafter
  have hwifi := (hquiet hdown).1
  have hstill : nextDown w.down (.message env (.ping114 answered)) w.task.devStatus
      (step w.task (.message env (.ping114 answered))).devStatus = true := by
    simp [nextDown, hdown]
  have hback := (hafter hstill).1
  cases answered
  · simp [watchStep, step, TaskKeyLed.handle, TaskKeyLed.eventPing114, TaskKeyLed.refreshLed,
      hwifi] at hback
  · simp [watchStep, step, TaskKeyLed.handle, TaskKeyLed.eventPing114, TaskKeyLed.refreshLed,
      hwifi] at hback

/-- A run keeps the link down until the next connection exactly if it handles
no ping result meanwhile. -/
theorem link_stays_down_iff (flash : Flash) (wifiUp : Bool) (events : List Event) :
    (∀ before, before <+: events → Quiet (watch flash wifiUp before)) ↔
      ∀ before env answered, before ++ [.message env (.ping114 answered)] <+: events →
        (watch flash wifiUp before).down = false := by
  constructor
  · intro hquiet before env answered hbefore
    by_contra hdown
    refine not_quiet_of_ping (hquiet before ((List.prefix_append _ _).trans hbefore))
      (Bool.eq_true_of_not_eq_false hdown) env answered ?_
    rw [← watch_snoc]
    exact hquiet _ hbefore
  · intro hping before
    induction before using List.reverseRecOn with
    | nil =>
      intro _ hdown
      cases hdown
    | append_singleton before event ih =>
      intro hbefore
      rw [watch_snoc]
      refine (ih ((List.prefix_append _ _).trans hbefore)).next ?_
      rintro env answered rfl
      exact hping before env answered hbefore

/-- A connection, a disconnection, and the answer to a ping sent in between. -/
def latePing : List Event :=
  [.message ⟨1000, true⟩ (.connect true), .message ⟨2000, true⟩ (.connect false),
    .message ⟨3000, true⟩ (.ping114 true)]

theorem link_resurrected :
    ¬ ∀ before, before <+: latePing → Quiet (watch (fun _ => 0xFF) false before) := by
  intro hquiet
  have hwifi := (hquiet latePing (List.prefix_refl _) rfl).1
  cases hwifi

end Sv6x66.Colink.LinkStatus
