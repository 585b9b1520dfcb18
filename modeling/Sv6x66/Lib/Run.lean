import Mathlib.Tactic

/-! Finite runs of a machine given by a partial step function. A run records
its events, and every step of it is required to be `allowed`; a run of the
unrestricted machine allows everything. -/
namespace Sv6x66.Lib

variable {σ ε : Type*}

inductive Run (step : σ → ε → Option σ) (allowed : σ → ε → Prop) (start : σ) :
    List ε → σ → Prop where
  | nil : Run step allowed start [] start
  | snoc {events s event t} : Run step allowed start events s → allowed s event →
      step s event = some t → Run step allowed start (events ++ [event]) t

/-- No restriction on the steps. -/
def anyStep (_ : σ) (_ : ε) : Prop := True

namespace Run

variable {step : σ → ε → Option σ} {allowed : σ → ε → Prop} {start : σ}

/-- What holds at the start and is kept by every allowed step holds after every
run. -/
theorem invariant {I : σ → Prop} (hstart : I start)
    (hstep : ∀ s event t, I s → allowed s event → step s event = some t → I t)
    {events : List ε} {s : σ} (hrun : Run step allowed start events s) : I s := by
  induction hrun with
  | nil => exact hstart
  | snoc _ hallowed hnext ih => exact hstep _ _ _ ih hallowed hnext

theorem trans {events later : List ε} {s t : σ} (hrun : Run step allowed start events s)
    (hlater : Run step allowed s later t) : Run step allowed start (events ++ later) t := by
  induction hlater with
  | nil =>
    rw [List.append_nil]
    exact hrun
  | snoc _ hallowed hnext ih =>
    rw [← List.append_assoc]
    exact ih.snoc hallowed hnext

/-- Two machines whose steps from related states are both refused or lead to
related states have related runs. -/
theorem simulate {τ : Type*} {step' : τ → ε → Option τ} {start' : τ} {R : σ → τ → Prop}
    (hstart : R start start')
    (hstep : ∀ s s' event, R s s' → Option.Rel R (step s event) (step' s' event))
    {events : List ε} {s : σ} (hrun : Run step anyStep start events s) :
    ∃ s', Run step' anyStep start' events s' ∧ R s s' := by
  induction hrun with
  | nil => exact ⟨start', .nil, hstart⟩
  | @snoc events s event t _ _ hnext ih =>
    obtain ⟨s', hrun', hrel⟩ := ih
    have hboth := hstep s s' event hrel
    rw [hnext] at hboth
    cases hnext' : step' s' event with
    | none =>
      rw [hnext'] at hboth
      cases hboth
    | some t' =>
      rw [hnext'] at hboth
      cases hboth with
      | some ht => exact ⟨t', hrun'.snoc trivial hnext', ht⟩

theorem mono {allowed' : σ → ε → Prop} (hallowed : ∀ s event, allowed s event → allowed' s event)
    {events : List ε} {s : σ} (hrun : Run step allowed start events s) :
    Run step allowed' start events s := by
  induction hrun with
  | nil => exact .nil
  | snoc _ hevent hnext ih => exact ih.snoc (hallowed _ _ hevent) hnext

/-- Only the steps that are possible from the states of a run count for what is
allowed. -/
theorem allowed_iff_of_invariant {allowed' : σ → ε → Prop} {I : σ → Prop} (hstart : I start)
    (hkept : ∀ s event t, I s → step s event = some t → I t)
    (h : ∀ s event t, I s → step s event = some t → (allowed s event ↔ allowed' s event))
    {events : List ε} {s : σ} :
    Run step allowed start events s ↔ Run step allowed' start events s := by
  have hinv {allowed : σ → ε → Prop} {events : List ε} {s : σ}
      (hrun : Run step allowed start events s) : I s :=
    hrun.invariant hstart fun s event t hs _ hnext => hkept s event t hs hnext
  constructor
  · intro hrun
    induction hrun with
    | nil => exact .nil
    | snoc hrun hallowed hnext ih =>
      exact ih.snoc ((h _ _ _ (hinv hrun) hnext).mp hallowed) hnext
  · intro hrun
    induction hrun with
    | nil => exact .nil
    | snoc hrun hallowed hnext ih =>
      exact ih.snoc ((h _ _ _ (hinv hrun) hnext).mpr hallowed) hnext

theorem allowed_iff {allowed' : σ → ε → Prop}
    (h : ∀ s event t, step s event = some t → (allowed s event ↔ allowed' s event))
    {events : List ε} {s : σ} :
    Run step allowed start events s ↔ Run step allowed' start events s :=
  allowed_iff_of_invariant (I := fun _ => True) trivial (fun _ _ _ _ _ => trivial)
    fun s event t _ hnext => h s event t hnext

theorem snoc_iff {events : List ε} {event : ε} {t : σ} :
    Run step allowed start (events ++ [event]) t ↔
      ∃ s, Run step allowed start events s ∧ allowed s event ∧ step s event = some t := by
  constructor
  · intro hrun
    generalize hall : events ++ [event] = all at hrun
    cases hrun with
    | nil => simp at hall
    | snoc hrun hallowed hnext =>
      obtain ⟨rfl, hevent⟩ := List.append_inj' hall rfl
      cases hevent
      exact ⟨_, hrun, hallowed, hnext⟩
  · rintro ⟨s, hrun, hallowed, hnext⟩
    exact hrun.snoc hallowed hnext

theorem unique {events : List ε} {s t : σ} (hrun : Run step allowed start events s)
    (hrun' : Run step allowed start events t) : s = t := by
  induction hrun generalizing t with
  | nil =>
    generalize hall : [] = all at hrun'
    cases hrun' with
    | nil => rfl
    | snoc => simp at hall
  | snoc _ _ hnext ih =>
    obtain ⟨s', hrun', -, hnext'⟩ := snoc_iff.mp hrun'
    cases ih hrun'
    exact Option.some.inj (hnext.symm.trans hnext')

/-- All events go through and `P` holds after them exactly if each event is allowed where it
comes. -/
theorem through_iff {I P : σ → Prop} (hstart : I start) (hP : P start)
    (hkept : ∀ s event t, I s → step s event = some t → I t)
    (hback : ∀ s event t, I s → step s event = some t → P t → P s)
    (hstep : ∀ s event, I s → P s → ((∃ t, step s event = some t ∧ P t) ↔ allowed s event))
    (events : List ε) :
    (∃ s, Run step anyStep start events s ∧ P s) ↔
      ∀ earlier event later, events = earlier ++ event :: later →
        ∀ s, Run step anyStep start earlier s → allowed s event := by
  have hinv {events : List ε} {s : σ} (hrun : Run step anyStep start events s) : I s :=
    hrun.invariant hstart fun s event t hs _ hnext => hkept s event t hs hnext
  induction events using List.reverseRecOn with
  | nil =>
    refine iff_of_true ⟨start, .nil, hP⟩ fun earlier event later h => ?_
    simp at h
  | append_singleton events last ih =>
    constructor
    · rintro ⟨t, hrun, ht⟩ earlier event later hevents s hearlier
      obtain ⟨s', hrun', -, hnext⟩ := snoc_iff.mp hrun
      have hs' := hback s' last t (hinv hrun') hnext ht
      obtain rfl | ⟨before, event', rfl⟩ := List.eq_nil_or_concat later
      · obtain ⟨rfl, hlast⟩ := List.append_inj' hevents rfl
        cases hlast
        cases hearlier.unique hrun'
        exact (hstep s last (hinv hrun') hs').mp ⟨t, hnext, ht⟩
      · rw [List.concat_eq_append, ← List.cons_append, ← List.append_assoc] at hevents
        obtain ⟨hevents, -⟩ := List.append_inj' hevents rfl
        exact ih.mp ⟨s', hrun', hs'⟩ earlier event before hevents s hearlier
    · intro h
      obtain ⟨s, hrun, hs⟩ := ih.mpr fun earlier event later hevents =>
        h earlier event (later ++ [last]) (by rw [hevents, List.append_assoc, List.cons_append])
      obtain ⟨t, hnext, ht⟩ := (hstep s last (hinv hrun) hs).mpr (h events last [] rfl s hrun)
      exact ⟨t, hrun.snoc trivial hnext, ht⟩

end Run

/-- `P` holds of each event in the state it comes in. -/
def Along (step : σ → ε → Option σ) (P : σ → ε → Prop) (start : σ) (events : List ε) : Prop :=
  ∀ earlier event later, events = earlier ++ event :: later →
    ∀ s, Run step anyStep start earlier s → P s event

section Along

variable {step : σ → ε → Option σ} {P Q : σ → ε → Prop} {start : σ}

theorem along_nil : Along step P start [] := by
  intro earlier event later h
  simp at h

theorem along_concat {events : List ε} {last : ε} :
    Along step P start (events ++ [last]) ↔
      Along step P start events ∧ ∀ s, Run step anyStep start events s → P s last := by
  constructor
  · intro h
    refine ⟨fun earlier event later hevents => ?_, h events last [] rfl⟩
    apply h earlier event (later ++ [last])
    rw [hevents, List.append_assoc, List.cons_append]
  · rintro ⟨hevents, hlast⟩ earlier event later h s hrun
    obtain rfl | ⟨before, event', rfl⟩ := List.eq_nil_or_concat later
    · obtain ⟨rfl, hevent⟩ := List.append_inj' h rfl
      cases hevent
      exact hlast s hrun
    · rw [List.concat_eq_append, ← List.cons_append, ← List.append_assoc] at h
      obtain ⟨rfl, -⟩ := List.append_inj' h rfl
      exact hevents earlier event before rfl s hrun

/-- What is kept as long as `P` holds of the events. -/
theorem Along.invariant {I : σ → Prop} (hstart : I start)
    (hkept : ∀ s event t, I s → P s event → step s event = some t → I t)
    {events : List ε} (h : Along step P start events) {s : σ}
    (hrun : Run step anyStep start events s) : I s := by
  induction hrun with
  | nil => exact hstart
  | snoc hrun _ hnext ih =>
    obtain ⟨hbefore, hlast⟩ := along_concat.mp h
    exact hkept _ _ _ (ih hbefore) (hlast _ hrun) hnext

/-- Two properties that agree as long as one of them holds. -/
theorem along_iff {I : σ → Prop} (hstart : I start)
    (hkept : ∀ s event t, I s → Q s event → step s event = some t → I t)
    (h : ∀ s event, I s → (P s event ↔ Q s event)) (events : List ε) :
    Along step P start events ↔ Along step Q start events := by
  induction events using List.reverseRecOn with
  | nil => exact iff_of_true along_nil along_nil
  | append_singleton events last ih =>
    rw [along_concat, along_concat, ih]
    apply and_congr_right
    intro hevents
    have hinv {s : σ} (hrun : Run step anyStep start events s) : I s :=
      hevents.invariant hstart hkept hrun
    exact forall₂_congr fun s hrun => h s last (hinv hrun)

end Along

/-- Executing a list of events, for runs on concrete inputs. -/
def exec (step : σ → ε → Option σ) : σ → List ε → Option σ
  | s, [] => some s
  | s, event :: rest => (step s event).bind fun t => exec step t rest

/-- The machine that refuses what is not allowed. -/
def guarded (step : σ → ε → Option σ) (allowed : σ → ε → Bool) (s : σ) (event : ε) : Option σ :=
  if allowed s event then step s event else none

theorem Run.of_exec_guarded {step : σ → ε → Option σ} {allowed : σ → ε → Bool} {start s : σ}
    {events : List ε} (h : exec (guarded step allowed) start events = some s) :
    Run step (fun s event => allowed s event) start events s := by
  induction events generalizing start with
  | nil =>
    cases h
    exact Run.nil
  | cons event rest ih =>
    obtain ⟨next, hnext, hrest⟩ := Option.bind_eq_some_iff.mp h
    unfold guarded at hnext
    split at hnext
    · exact (Run.nil.snoc ‹_› hnext).trans (ih hrest)
    · cases hnext

theorem Run.of_exec {step : σ → ε → Option σ} {start s : σ} {events : List ε}
    (h : exec step start events = some s) : Run step anyStep start events s := by
  have hguarded : exec (guarded step fun _ _ => true) start events = some s := h
  exact (Run.of_exec_guarded hguarded).mono fun _ _ _ => trivial

theorem exec_append (step : σ → ε → Option σ) (s : σ) (events later : List ε) :
    exec step s (events ++ later) = (exec step s events).bind fun t => exec step t later := by
  induction events generalizing s with
  | nil => rfl
  | cons event events ih =>
    simp only [List.cons_append, exec, Option.bind_assoc]
    exact congrArg _ (funext ih)

theorem Run.exec_eq {step : σ → ε → Option σ} {allowed : σ → ε → Prop} {start s : σ}
    {events : List ε} (hrun : Run step allowed start events s) :
    exec step start events = some s := by
  induction hrun with
  | nil => rfl
  | snoc _ _ hnext ih =>
    rw [exec_append, ih, Option.bind_some, exec, hnext, Option.bind_some]
    rfl

end Sv6x66.Lib
