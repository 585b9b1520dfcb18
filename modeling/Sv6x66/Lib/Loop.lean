import Mathlib.Tactic

/-! A loop whose body either goes on in a new state or stops with a result. It
runs on fuel, and `Returns` says which results it has with enough of it. -/
namespace Sv6x66.Lib

variable {σ ρ : Type*}

inductive Turn (σ ρ : Type*) where
  | again (s : σ)
  | stop (r : ρ)
deriving DecidableEq

def loop (body : σ → Turn σ ρ) : Nat → σ → Option ρ
  | 0, _ => none
  | fuel + 1, s =>
    match body s with
    | .again t => loop body fuel t
    | .stop r => some r

def Returns (body : σ → Turn σ ρ) (s : σ) (r : ρ) : Prop := ∃ fuel, loop body fuel s = some r

namespace Returns

variable {body : σ → Turn σ ρ} {s t : σ} {r : ρ}

theorem again_iff (h : body s = .again t) : Returns body s r ↔ Returns body t r := by
  constructor
  · rintro ⟨fuel, hfuel⟩
    cases fuel with
    | zero => cases hfuel
    | succ fuel =>
      simp only [loop, h] at hfuel
      exact ⟨fuel, hfuel⟩
  · rintro ⟨fuel, hfuel⟩
    refine ⟨fuel + 1, ?_⟩
    simp only [loop, h]
    exact hfuel

theorem stop_iff {r' : ρ} (h : body s = .stop r') : Returns body s r ↔ r' = r := by
  constructor
  · rintro ⟨fuel, hfuel⟩
    cases fuel with
    | zero => cases hfuel
    | succ fuel =>
      simp only [loop, h] at hfuel
      exact Option.some.inj hfuel
  · rintro rfl
    refine ⟨1, ?_⟩
    simp only [loop, h]

theorem unique {r' : ρ} (h : Returns body s r) (h' : Returns body s r') : r = r' := by
  obtain ⟨fuel, hfuel⟩ := h
  induction fuel generalizing s with
  | zero => cases hfuel
  | succ fuel ih =>
    cases hbody : body s with
    | again t =>
      simp only [loop, hbody] at hfuel
      exact ih ((again_iff hbody).mp h') hfuel
    | stop r₀ =>
      simp only [loop, hbody] at hfuel
      cases hfuel
      exact (stop_iff hbody).mp h'

/-- A loop that returns stops in a state that has every invariant of the body. -/
theorem invariant {I : σ → Prop} (hreturns : Returns body s r) (hs : I s)
    (hstep : ∀ s t, I s → body s = .again t → I t) : ∃ t, I t ∧ body t = .stop r := by
  obtain ⟨fuel, hfuel⟩ := hreturns
  induction fuel generalizing s with
  | zero => cases hfuel
  | succ fuel ih =>
    cases hbody : body s with
    | again t =>
      simp only [loop, hbody] at hfuel
      exact ih (hstep s t hs hbody) hfuel
    | stop r' =>
      simp only [loop, hbody] at hfuel
      cases hfuel
      exact ⟨s, hs, hbody⟩

/-- The loop has a result where one of the states it reaches stops with it. -/
theorem iff_exists : Returns body s r ↔
    ∃ t, Relation.ReflTransGen (fun s t => body s = .again t) s t ∧ body t = .stop r := by
  constructor
  · intro hreturns
    exact hreturns.invariant .refl fun _ _ hreached hnext => hreached.tail hnext
  · rintro ⟨t, hreached, hstop⟩
    induction hreached using Relation.ReflTransGen.head_induction_on with
    | refl => exact (stop_iff hstop).mpr rfl
    | head hnext _ ih => exact (again_iff hnext).mpr ih

end Returns

end Sv6x66.Lib
