import Sv6x66.Colink.DueActions

/-! The two switch messages for one instant. `mytime_delay_handler` sends the action of
the first entry that puts the instant up, and `get_min_time`, called again in that
second, the action of the last entry that is due. -/
namespace Sv6x66.Colink.OneAction
open Sv6x66.Lib
open Sv6x66.Lib.RunningMin
open Sv6x66.Colink.MinTime
open Sv6x66.Colink.Mytime
open Sv6x66.Colink.TimerEvents
open Sv6x66.Colink.UpTimer
open Sv6x66.Colink.DueActions

/-- The argument of the `Timer_Switch_cb` call in `mytime_delay_handler`, if it is made. -/
def mytimeDelayHandler (m : Globals) : Option Bool :=
  if m.apTimerList = none then none
  else if m.mytimeState = .delay then some (m.doSwitch ≠ 0)
  else none

/-- The state in which the delay for an instant expires. -/
def expired (m : Globals) (apTime : List ColinkAppTimer) (doSwitch : UInt8) : Globals :=
  { m with apTimerList := some apTime, mytimeState := .delay, doSwitch }

/-- If `get_min_time` returned `t` at `curTime`, both switch messages for `t` are sent and
say the same. -/
def Consistent (m : Globals) (apTime : List ColinkAppTimer) (curTime t : UInt32) : Prop :=
  ∀ result, getMinTime curTime m.doSwitch apTime = some result →
    result.offTime = t.toNat → result.offTime ≠ maxTime →
      ∃ again, getMinTime t result.doSwitch apTime = some again ∧
        again.timerSwitch = mytimeDelayHandler (expired m apTime result.doSwitch)

/-- The last action that is due at `t` is there and switches the same way as `a`. -/
def Repeats (apTime : List ColinkAppTimer) (t : Nat) (a : UInt8) : Prop :=
  ∃ b, (apTime.flatMap (dueActions t)).getLast? = some b ∧ b ≠ 0xFF ∧ (b = 0 ↔ a = 0)

theorem repeats_iff (apTime : List ColinkAppTimer) (t : Nat) (a : UInt8) :
    switchOf ((apTime.flatMap (dueActions t)).getLastD 0xFF) = some (decide (a ≠ 0)) ↔
      Repeats apTime t a := by
  unfold Repeats
  rw [List.getLastD_eq_getLast?]
  cases (apTime.flatMap (dueActions t)).getLast? with
  | none => simp [switchOf]
  | some b =>
    unfold switchOf
    by_cases hb : b = 0xFF
    · simp [hb]
    · simp [hb]

/-- What `get_min_time` puts down for an instant before the end of time. -/
theorem next_eq_iff {apTime : List ColinkAppTimer} {curTime t : Nat} (ht : t < maxTime)
    (doSwitch a : UInt8) :
    (apTime.flatMap (candidates curTime)).foldl RunningMin.offer (maxTime, doSwitch) = (t, a) ↔
      FirstLeast (apTime.flatMap (candidates curTime)) (t, a) :=
  foldl_offer_eq_iff.trans (FirstLeast.cons_iff ht)

theorem lt_maxTime {t : UInt32} (hne : t.toNat ≠ maxTime) : t.toNat < maxTime := by
  have := t.toNat_lt
  simp only [maxTime] at *
  omega

theorem consistent_of_repeats (m : Globals) {apTime : List ColinkAppTimer} {curTime t : UInt32}
    (h : ∀ a, FirstLeast (apTime.flatMap (candidates curTime.toNat)) (t.toNat, a) →
      (∀ s ∈ apTime, ¬ DividesByZero t.toNat s) ∧ Repeats apTime t.toNat a) :
    Consistent m apTime curTime t := by
  intro result hresult htime hne
  obtain ⟨-, hresult⟩ := getMinTime_eq_some_iff.mp hresult
  have hfirst : FirstLeast (apTime.flatMap (candidates curTime.toNat))
      (t.toNat, result.doSwitch) := by
    rw [← next_eq_iff (lt_maxTime (htime ▸ hne)) m.doSwitch, ← htime, hresult]
    rfl
  obtain ⟨hdefined, hrepeats⟩ := h _ hfirst
  refine ⟨_, getMinTime_eq_some_iff.mpr ⟨hdefined, rfl⟩, ?_⟩
  exact (repeats_iff apTime t.toNat result.doSwitch).mpr hrepeats

/-- The two messages agree if and only if the first entry that puts `t` up and the last
action that is due at `t` do. -/
theorem consistent_iff (m : Globals) (apTime : List ColinkAppTimer) (curTime t : UInt32) :
    Consistent m apTime curTime t ↔
      t.toNat = maxTime ∨ (∃ s ∈ apTime, DividesByZero curTime.toNat s) ∨
        ∀ a, FirstLeast (apTime.flatMap (candidates curTime.toNat)) (t.toNat, a) →
          (∀ s ∈ apTime, ¬ DividesByZero t.toNat s) ∧ Repeats apTime t.toNat a := by
  by_cases hmax : t.toNat = maxTime
  · refine iff_of_true ?_ (.inl hmax)
    intro result _ htime hne
    exact absurd (htime.trans hmax) hne
  rw [or_iff_right hmax]
  by_cases hzero : ∃ s ∈ apTime, DividesByZero curTime.toNat s
  · refine iff_of_true ?_ (.inl hzero)
    intro result hresult
    rw [(getMinTime_eq_none_iff _ _ _).mpr hzero] at hresult
    cases hresult
  rw [or_iff_right hzero]
  push Not at hzero
  constructor
  · intro h a hfirst
    have hnext := (next_eq_iff (lt_maxTime hmax) m.doSwitch a).mpr hfirst
    have hresult := getMinTime_eq_some_iff.mpr
      ⟨hzero, rfl (a := resultOf curTime.toNat m.doSwitch apTime)⟩
    have htime : (resultOf curTime.toNat m.doSwitch apTime).offTime = t.toNat :=
      congrArg Prod.fst hnext
    have hswitch : (resultOf curTime.toNat m.doSwitch apTime).doSwitch = a :=
      congrArg Prod.snd hnext
    obtain ⟨again, hagain, hsame⟩ := h _ hresult htime (htime.trans_ne hmax)
    obtain ⟨hdefined, rfl⟩ := getMinTime_eq_some_iff.mp hagain
    rw [hswitch] at hsame
    exact ⟨hdefined, (repeats_iff apTime t.toNat a).mp hsame⟩
  · exact consistent_of_repeats m

/-! ### Events that agree -/

/-- What is due is an event of the timer. -/
theorem event_of_due {s : ColinkAppTimer} {t : Nat} {b : UInt8} (hb : b ∈ dueActions t s) :
    Event s t b := by
  unfold dueActions at hb
  by_cases honce : s.type = colinkTypeOnce
  · rw [if_pos honce, List.mem_ite_nil_right] at hb
    obtain ⟨rfl, hb⟩ := hb
    rw [List.mem_singleton.mp hb]
    exact .once honce
  rw [if_neg honce] at hb
  by_cases hrepeat : s.type = colinkTypeRepeat
  · rw [if_pos hrepeat, List.mem_ite_nil_right] at hb
    obtain ⟨⟨hday, htime⟩, hb⟩ := hb
    rw [List.mem_singleton.mp hb, ← Nat.div_add_mod' t daySecond, ← htime]
    exact .weekday _ hrepeat hday
  rw [if_neg hrepeat] at hb
  by_cases hduration : s.type = colinkTypeDuration
  · rw [if_pos hduration] at hb
    by_cases hnow : s.atTime.toNat = t
    · rw [if_pos hnow] at hb
      rw [List.mem_singleton.mp hb, ← hnow]
      simpa using Event.start (t := s) 0 hduration
    rw [if_neg hnow, List.mem_ite_nil_right] at hb
    obtain ⟨hearlier, hb⟩ := hb
    have hdiv := Nat.div_add_mod' (t - s.atTime.toNat) (period s)
    rcases List.mem_append.mp hb with hb | hb
    · rw [List.mem_ite_nil_right] at hb
      have hstart : t = s.atTime.toNat + (t - s.atTime.toNat) / period s * period s := by omega
      rw [List.mem_singleton.mp hb.2, hstart]
      exact .start _ hduration
    · rw [List.mem_ite_nil_right] at hb
      have hstop : t = s.atTime.toNat + (t - s.atTime.toNat) / period s * period s + onPhase s := by
        omega
      rw [List.mem_singleton.mp hb.2, hstop]
      exact .stop _ hduration
  · rw [if_neg hduration] at hb
    cases hb

/-- A weekday timer acts in its own minute. -/
theorem now_of_event {s : ColinkAppTimer} {t : Nat} {a : UInt8} (hvalid : Valid s)
    (hrepeat : s.type = colinkTypeRepeat) (hevent : Event s t a) :
    weekday s ((t / daySecond + week197011) % 7) ∧ dayTime s = t % daySecond := by
  obtain ⟨day, hday, rfl⟩ : ∃ day, weekday s ((day + week197011) % 7) ∧
      t = daySecond * day + dayTime s := by
    cases hevent with
    | once hother => simp [hrepeat] at hother
    | weekday day _ hday => exact ⟨day, hday, congrArg (· + _) (Nat.mul_comm _ _)⟩
    | start k hother => simp [hrepeat] at hother
    | stop k hother => simp [hrepeat] at hother
  have hclock := dayTime_lt hvalid hrepeat
  have hdiv : (daySecond * day + dayTime s) / daySecond = day := by
    rw [Nat.mul_add_div (by decide), Nat.div_eq_of_lt hclock, Nat.add_zero]
  rw [hdiv, Nat.mul_add_mod, Nat.mod_eq_of_lt hclock]
  exact ⟨hday, rfl⟩

/-- The first stop or start of a duration timer that has begun ends a cycle or its phase. -/
theorem elapsed_of_candidate {s : ColinkAppTimer} {curTime t : Nat} {a : UInt8}
    (hfits : Fits curTime s) (hduration : s.type = colinkTypeDuration)
    (hearlier : s.atTime.toNat < curTime) (hc : (t, a) ∈ durationCandidates curTime s)
    (hleast : ∀ c ∈ durationCandidates curTime s, t ≤ c.1) :
    (t - s.atTime.toNat) % period s = 0 ∨ (t - s.atTime.toNat) % period s = onPhase s := by
  rw [durationCandidates_earlier hfits hduration hearlier] at hc hleast
  have hboundary := boundary_eq curTime s
  have hphase : t ≤ boundary curTime s + period s :=
    hleast _ (List.mem_cons_of_mem _ (List.mem_singleton_self _))
  have hcycle : t = boundary curTime s + period s → (t - s.atTime.toNat) % period s = 0 := by
    rintro rfl
    have helapsed : boundary curTime s + period s - s.atTime.toNat =
        (cyclesDone curTime s + 1) * period s := by
      rw [Nat.add_mul]
      omega
    rw [helapsed]
    exact Nat.mul_mod_left _ _
  rcases List.mem_cons.mp hc with hstop | hstart
  · cases hstop
    rcases (Nat.le_of_add_le_add_left hphase).lt_or_eq with hlt | heq
    · right
      have helapsed : boundary curTime s + onPhase s - s.atTime.toNat =
          cyclesDone curTime s * period s + onPhase s := by omega
      rw [helapsed, Nat.mul_comm, Nat.mul_add_mod, Nat.mod_eq_of_lt hlt]
    · exact .inl (hcycle (congrArg _ heq))
  · exact .inl (hcycle (congrArg Prod.fst (List.mem_singleton.mp hstart)))

/-- What a timer puts up first is due then. -/
theorem due_of_candidate {s : ColinkAppTimer} {curTime t : Nat} {a : UInt8} (hvalid : Valid s)
    (hfits : Fits curTime s) (hon : ¬ PastOnPhase curTime s)
    (hc : (t, a) ∈ candidates curTime s) (hleast : ∀ c ∈ candidates curTime s, t ≤ c.1) :
    dueActions t s ≠ [] := by
  obtain ⟨⟨hafter, -⟩, hevent, -⟩ := candidates_considered hvalid hfits hon (t, a) hc
  unfold dueActions
  by_cases honce : s.type = colinkTypeOnce
  · cases hevent with
    | once => simp [honce]
    | weekday day hrepeat => simp [honce] at hrepeat
    | start k hduration => simp [honce] at hduration
    | stop k hduration => simp [honce] at hduration
  by_cases hrepeat : s.type = colinkTypeRepeat
  · rw [if_neg honce, if_pos hrepeat, if_pos (now_of_event hvalid hrepeat hevent)]
    exact List.cons_ne_nil _ _
  by_cases hduration : s.type = colinkTypeDuration
  · rw [if_neg honce, if_neg hrepeat, if_pos hduration]
    rw [candidates_duration hduration] at hc hleast
    by_cases hnow : s.atTime.toNat = t
    · rw [if_pos hnow]
      exact List.cons_ne_nil _ _
    rw [if_neg hnow]
    by_cases hearlier : s.atTime.toNat < curTime
    · rw [if_pos (hearlier.trans hafter)]
      obtain hmod | hmod := elapsed_of_candidate hfits hduration hearlier hc hleast <;>
        simp [hmod]
    · unfold durationCandidates at hc
      rw [if_neg hearlier] at hc
      split at hc
      · cases List.mem_singleton.mp hc
        exact absurd rfl hnow
      · cases hc
  · unfold candidates at hc
    rw [if_neg honce, if_neg hrepeat, if_neg hduration] at hc
    cases hc

/-- Where every event of `t` switches the same way, so do the two messages. -/
theorem consistent_of_alike (m : Globals) {apTime : List ColinkAppTimer} {curTime t : UInt32}
    (hvalid : ∀ s ∈ apTime, Valid s) (hfits : ∀ s ∈ apTime, Fits curTime.toNat s)
    (hon : ∀ s ∈ apTime, ¬ PastOnPhase curTime.toNat s)
    (hswitch : ∀ s ∈ apTime, ∀ a, Event s t.toNat a → a ≠ 0xFF)
    (halike : ∀ s ∈ apTime, ∀ s' ∈ apTime, ∀ a a', Event s t.toNat a → Event s' t.toNat a' →
      (a = 0 ↔ a' = 0)) :
    Consistent m apTime curTime t := by
  refine consistent_of_repeats m fun a hfirst => ⟨?_, ?_⟩
  · rintro s hs ⟨hduration, -, hzero⟩
    exact ((hvalid s hs).cycle hduration).ne' hzero
  obtain ⟨s, hs, hc⟩ := List.mem_flatMap.mp hfirst.mem
  have hleast : ∀ c ∈ candidates curTime.toNat s, t.toNat ≤ c.1 := fun c hc =>
    hfirst.least c (List.mem_flatMap.mpr ⟨s, hs, hc⟩)
  obtain ⟨-, hevent, -⟩ := candidates_considered (hvalid s hs) (hfits s hs) (hon s hs) _ hc
  have hdue := due_of_candidate (hvalid s hs) (hfits s hs) (hon s hs) hc hleast
  have hsome : apTime.flatMap (dueActions t.toNat) ≠ [] := by
    intro hnil
    exact hdue (List.flatMap_eq_nil_iff.mp hnil s hs)
  obtain ⟨s', hs', hb⟩ := List.mem_flatMap.mp (List.getLast_mem hsome)
  have hevent' := event_of_due hb
  refine ⟨_, List.getLast?_eq_some_getLast hsome, hswitch s' hs' _ hevent', ?_⟩
  exact halike s' hs' s hs _ _ hevent' hevent

/-- A lamp is switched on and off in one second. -/
def onceAt (startDo : UInt8) : ColinkAppTimer where
  enable := 1
  type := colinkTypeOnce
  startDo := startDo
  endDo := 0
  atTime := 1600000000
  cycle := 0
  delay := 0

theorem onAndOff_contradict :
    ¬ ∀ (m : Globals) (apTime : List ColinkAppTimer) (curTime t : UInt32),
      Consistent m apTime curTime t := by
  intro hall
  have hone := hall lampGlobals [onceAt 1, onceAt 0] 1599999990 1600000000
  obtain ⟨again, hagain, hsame⟩ := hone ⟨1600000000, 1, none⟩ (by decide) rfl (by decide)
  have hoff : again = ⟨maxTime, 1, some false⟩ := by
    have hvalue : getMinTime 1600000000 1 [onceAt 1, onceAt 0] =
        some ⟨maxTime, 1, some false⟩ := by
      decide
    exact Option.some.inj (hagain.symm.trans hvalue)
  rw [hoff] at hsame
  revert hsame
  decide

end Sv6x66.Colink.OneAction
