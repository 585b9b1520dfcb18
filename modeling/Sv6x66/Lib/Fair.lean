import Sv6x66.Lib.Run

/-! Infinite runs of a machine given by a partial step function, weak fairness,
and progress by a rank that fair steps make smaller. -/
namespace Sv6x66.Lib

variable {σ ε ρ : Type*}

/-- An infinite run: its states and the events between them. -/
structure InfRun (step : σ → ε → Option σ) (allowed : σ → ε → Prop) (start : σ) where
  state : ℕ → σ
  event : ℕ → ε
  starts : state 0 = start
  allows : ∀ n, allowed (state n) (event n)
  steps : ∀ n, step (state n) (event n) = some (state (n + 1))

namespace InfRun

variable {step : σ → ε → Option σ} {allowed : σ → ε → Prop} {start : σ}

/-- What has been executed after `n` steps. -/
theorem run_prefix (run : InfRun step allowed start) (n : ℕ) :
    Run step allowed start ((List.range n).map run.event) (run.state n) := by
  induction n with
  | zero =>
    rw [run.starts]
    exact .nil
  | succ n ih =>
    rw [List.range_succ, List.map_append]
    exact ih.snoc (run.allows n) (run.steps n)

/-- From where `enabled` goes on holding, an event that is `taken` comes. -/
def Fair (run : InfRun step allowed start) (enabled : σ → Prop) (taken : ε → Prop) : Prop :=
  ∀ n, ∃ m ≥ n, enabled (run.state m) → taken (run.event m)

def LeadsTo (run : InfRun step allowed start) (P Q : σ → Prop) : Prop :=
  ∀ n, P (run.state n) → ∃ m ≥ n, Q (run.state m)

namespace LeadsTo

variable {run : InfRun step allowed start} {P P' Q R : σ → Prop}

theorem trans (hPQ : run.LeadsTo P Q) (hQR : run.LeadsTo Q R) : run.LeadsTo P R := by
  intro n hP
  obtain ⟨m, hm, hQ⟩ := hPQ n hP
  obtain ⟨l, hl, hR⟩ := hQR m hQ
  exact ⟨l, hm.trans hl, hR⟩

theorem refl : run.LeadsTo P P := fun n hP => ⟨n, le_refl n, hP⟩

theorem mono (hQR : run.LeadsTo Q R) (h : ∀ n, P (run.state n) → Q (run.state n)) :
    run.LeadsTo P R :=
  fun n hP => hQR n (h n hP)

theorem or (hP : run.LeadsTo P Q) (hP' : run.LeadsTo P' Q) :
    run.LeadsTo (fun s => P s ∨ P' s) Q :=
  fun n h => h.elim (hP n) (hP' n)

end LeadsTo

/-- While `P` holds no step makes the rank larger, and a taken one makes it smaller
along `lt`, unless `Q` is reached. -/
structure Progress (step : σ → ε → Option σ) (allowed : σ → ε → Prop) (taken : ε → Prop)
    (I P Q : σ → Prop) (lt : ρ → ρ → Prop) (rank : σ → ρ) : Prop where
  keeps : ∀ s event t, I s → P s → allowed s event → step s event = some t →
    Q t ∨ P t ∧ (rank t = rank s ∨ lt (rank t) (rank s))
  helps : ∀ s event t, I s → P s → allowed s event → step s event = some t → taken event →
    Q t ∨ P t ∧ lt (rank t) (rank s)

/-- Up to step `n + d` the rank has not changed, or something has been gained. -/
theorem Progress.steps {taken : ε → Prop} {I P Q : σ → Prop} {lt : ρ → ρ → Prop} {rank : σ → ρ}
    (h : Progress step allowed taken I P Q lt rank) {run : InfRun step allowed start}
    (hI : ∀ n, I (run.state n)) {n : ℕ} (hP : P (run.state n)) (d : ℕ) :
    (∃ m ≥ n, Q (run.state m) ∨ P (run.state m) ∧ lt (rank (run.state m)) (rank (run.state n))) ∨
      P (run.state (n + d)) ∧ rank (run.state (n + d)) = rank (run.state n) := by
  induction d with
  | zero => exact Or.inr ⟨hP, rfl⟩
  | succ d ih =>
    rcases ih with hgain | ⟨hPd, hrank⟩
    · exact Or.inl hgain
    · have hlater : n + (d + 1) ≥ n := Nat.le_add_right ..
      rcases h.keeps _ _ _ (hI _) hPd (run.allows _) (run.steps _) with hQ | ⟨hP', hsame | hlt⟩
      · exact Or.inl ⟨_, hlater, Or.inl hQ⟩
      · exact Or.inr ⟨hP', hsame.trans hrank⟩
      · rw [hrank] at hlt
        exact Or.inl ⟨_, hlater, Or.inr ⟨hP', hlt⟩⟩

/-- The rank falls only finitely often, so a fair run reaches `Q` from `P`. -/
theorem Progress.leadsTo {taken : ε → Prop} {enabled I P Q : σ → Prop} {lt : ρ → ρ → Prop}
    {rank : σ → ρ} (h : Progress step allowed taken I P Q lt rank) (hwf : WellFounded lt)
    {run : InfRun step allowed start} (hI : ∀ n, I (run.state n)) (hfair : run.Fair enabled taken)
    (henabled : ∀ s, I s → P s → enabled s) : run.LeadsTo P Q := by
  intro n hP
  generalize hr : rank (run.state n) = r
  induction r using hwf.induction generalizing n with
  | h r ih =>
    obtain ⟨m, hm, htaken⟩ := hfair n
    obtain ⟨d, rfl⟩ := Nat.exists_eq_add_of_le hm
    have hgain : ∃ m ≥ n, Q (run.state m) ∨
        P (run.state m) ∧ lt (rank (run.state m)) (rank (run.state n)) := by
      rcases h.steps hI hP d with hgain | ⟨hPd, hrank⟩
      · exact hgain
      · have hhelp := h.helps _ _ _ (hI _) hPd (run.allows _) (run.steps _)
          (htaken (henabled _ (hI _) hPd))
        rw [hrank] at hhelp
        exact ⟨n + d + 1, by omega, hhelp⟩
    obtain ⟨m', hm', hQ | ⟨hP', hlt⟩⟩ := hgain
    · exact ⟨m', hm', hQ⟩
    · rw [hr] at hlt
      obtain ⟨l, hl, hQ⟩ := ih _ hlt m' hP' rfl
      exact ⟨l, hm'.trans hl, hQ⟩

/-! ### Building infinite runs -/

def cons {t : σ} (run : InfRun step allowed t) (event : ε) (hallowed : allowed start event)
    (hstep : step start event = some t) : InfRun step allowed start where
  state
    | 0 => start
    | n + 1 => run.state n
  event
    | 0 => event
    | n + 1 => run.event n
  starts := rfl
  allows
    | 0 => hallowed
    | n + 1 => run.allows n
  steps
    | 0 => hstep.trans (congrArg some run.starts.symm)
    | n + 1 => run.steps n

/-- The run that stays where it is. -/
def stay {event : ε} (hallowed : allowed start event) (hstep : step start event = some start) :
    InfRun step allowed start :=
  ⟨fun _ => start, fun _ => event, rfl, fun _ => hallowed, fun _ => hstep⟩

/-- A finite execution that ends where the machine can stay goes on for ever. -/
theorem exists_of_exec {allowed : σ → ε → Bool} {start s : σ} {events : List ε} {event : ε}
    (h : exec (guarded step allowed) start events = some s) (hallowed : allowed s event)
    (hstep : step s event = some s) :
    ∃ run : InfRun step (fun s event => allowed s event) start,
      ∀ n ≥ events.length, run.state n = s := by
  induction events generalizing start with
  | nil =>
    cases h
    exact ⟨stay hallowed hstep, fun n hn => rfl⟩
  | cons first rest ih =>
    obtain ⟨t, hfirst, hrest⟩ := Option.bind_eq_some_iff.mp h
    obtain ⟨run, hstay⟩ := ih hrest
    unfold guarded at hfirst
    split at hfirst
    · refine ⟨run.cons first ‹_› hfirst, fun n hn => ?_⟩
      cases n with
      | zero => cases hn
      | succ n => exact hstay n (Nat.le_of_succ_le_succ hn)
    · cases hfirst

/-- The same with a state on the way. -/
theorem exists_of_exec_through {allowed : σ → ε → Bool} {start t s : σ} {events later : List ε}
    {event : ε} (h : exec (guarded step allowed) start events = some t)
    (hlater : exec (guarded step allowed) t later = some s) (hallowed : allowed s event)
    (hstep : step s event = some s) :
    ∃ run : InfRun step (fun s event => allowed s event) start,
      run.state events.length = t ∧ ∀ n ≥ events.length + later.length, run.state n = s := by
  induction events generalizing start with
  | nil =>
    cases h
    obtain ⟨run, hstay⟩ := exists_of_exec hlater hallowed hstep
    exact ⟨run, run.starts, fun n hn => hstay n ((Nat.zero_add _).symm.trans_le hn)⟩
  | cons first rest ih =>
    obtain ⟨middle, hfirst, hrest⟩ := Option.bind_eq_some_iff.mp h
    obtain ⟨run, hthrough, hstay⟩ := ih hrest
    unfold guarded at hfirst
    split at hfirst
    · refine ⟨run.cons first ‹_› hfirst, hthrough, fun n hn => ?_⟩
      rw [List.length_cons] at hn
      cases n with
      | zero => omega
      | succ n => exact hstay n (by omega)
    · cases hfirst

end InfRun

end Sv6x66.Lib
