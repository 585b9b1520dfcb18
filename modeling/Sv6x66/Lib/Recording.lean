import Sv6x66.Lib.Run

/-! A machine with a record beside its state. The record is for statements about
what a run was given; the machine does not read it. -/
namespace Sv6x66.Lib

variable {σ ε ρ : Type*} {note : σ → ε → List ρ} {step : σ → ε → Option σ} {start : σ}

/-- The machine with a record of its run. -/
def recording (step : σ → ε → Option σ) (note : σ → ε → List ρ) (p : σ × List ρ) (event : ε) :
    Option (σ × List ρ) :=
  (step p.1 event).map fun t => (t, p.2 ++ note p.1 event)

theorem recording_some {p q : σ × List ρ} {event : ε} :
    recording step note p event = some q ↔
      step p.1 event = some q.1 ∧ q.2 = p.2 ++ note p.1 event := by
  unfold recording
  rw [Option.map_eq_some_iff]
  constructor
  · rintro ⟨t, ht, rfl⟩
    exact ⟨ht, rfl⟩
  · rintro ⟨ht, hq⟩
    exact ⟨q.1, ht, Prod.ext rfl hq.symm⟩

/-- The record changes nothing. -/
theorem run_recording_iff {record : List ρ} {events : List ε} {s : σ} :
    (∃ all, Run (recording step note) anyStep (start, record) events (s, all)) ↔
      Run step anyStep start events s := by
  constructor
  · rintro ⟨all, hrun⟩
    generalize hstart : (start, record) = p at hrun
    generalize hend : (s, all) = q at hrun
    induction hrun generalizing s all with
    | nil =>
      cases hstart
      cases hend
      exact .nil
    | snoc _ _ hnext ih =>
      cases hend
      exact (ih _ rfl).snoc trivial (recording_some.mp hnext).1
  · intro hrun
    induction hrun with
    | nil => exact ⟨record, .nil⟩
    | snoc _ _ hnext ih =>
      obtain ⟨all, hrun⟩ := ih
      exact ⟨_, hrun.snoc trivial (recording_some.mpr ⟨hnext, rfl⟩)⟩

end Sv6x66.Lib
