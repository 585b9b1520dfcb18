import Sv6x66.Colink.DueActions

/-! The `enable` flag of a timer entry. `colinkRecvUpdate` sets it and nothing reads it,
so an entry that is switched off counts like any other. -/
namespace Sv6x66.Colink.DisabledTimers
open Sv6x66.Lib
open Sv6x66.Lib.RunningMin
open Sv6x66.Colink.MinTime
open Sv6x66.Colink.Mytime
open Sv6x66.Colink.UpTimer
open Sv6x66.Colink.DueActions

def isEnabled (t : ColinkAppTimer) : Bool := t.enable ≠ 0

/-- The list without the entries that are switched off. -/
def enabled (apTime : List ColinkAppTimer) : List ColinkAppTimer := apTime.filter isEnabled

def withTimers (m : Globals) (apTime : List ColinkAppTimer) : Globals :=
  { m with apTimerList := some apTime, timerNum := apTime.length }

/-- The argument of `get_min_time` apart from the list. -/
def curTimeOf (m : Globals) (ticks : Ticks) : UInt32 :=
  (mytimeGetTime m ticks.first ticks.second).1

def ReturnsMinusOne (m : Globals) (ticks : Ticks) : Prop :=
  ∃ update, mytimeUpdateDelay m ticks = some update ∧ update.retval = -1

/-- Neither `get_min_time` nor the result of `mytime_update_delay` changes when the
entries that are switched off are removed. -/
structure Inert (m : Globals) (ticks : Ticks) (apTime : List ColinkAppTimer) : Prop where
  minTime : getMinTime (curTimeOf m ticks) m.doSwitch (enabled apTime) =
    getMinTime (curTimeOf m ticks) m.doSwitch apTime
  retval : ReturnsMinusOne (withTimers m (enabled apTime)) ticks ↔
    ReturnsMinusOne (withTimers m apTime) ticks

/-- The candidates of the list, each with its entry. -/
def offers (curTime : Nat) (apTime : List ColinkAppTimer) :
    List (ColinkAppTimer × Nat × UInt8) :=
  apTime.flatMap fun t => (candidates curTime t).map (Prod.mk t)

/-- The actions of the list that are due, each with its entry. -/
def due (curTime : Nat) (apTime : List ColinkAppTimer) : List (ColinkAppTimer × UInt8) :=
  apTime.flatMap fun t => (dueActions curTime t).map (Prod.mk t)

/-- Where an entry that is switched off puts up the first of the earliest instants, the
first other entry to put up an instant as early puts up the same with the same action. -/
def NoneFirst (curTime : Nat) (apTime : List ColinkAppTimer) : Prop :=
  ∀ o ∈ offers curTime apTime, isEnabled o.1 = false → o.2.1 < maxTime →
    FirstLeast (apTime.flatMap (candidates curTime)) o.2 →
      ((enabled apTime).flatMap (candidates curTime)).find? (fun b => b.1 ≤ o.2.1) = some o.2

/-- Where the last action that is due belongs to an entry that is switched off, the last
one of the others switches the same way. -/
def NoneLast (curTime : Nat) (apTime : List ColinkAppTimer) : Prop :=
  ∀ d, (due curTime apTime).getLast? = some d → isEnabled d.1 = false →
    switchOf (((enabled apTime).flatMap (dueActions curTime)).getLastD 0xFF) = switchOf d.2

/-- An entry is left, or none was there, or `get_min_time` is not called. -/
def SameCall (m : Globals) (apTime : List ColinkAppTimer) : Prop :=
  apTime = [] ∨ enabled apTime ≠ [] ∨ m.mytimeState = .idle ∨ m.mytimeState = .sntping

variable {m : Globals} {ticks : Ticks} {apTime : List ColinkAppTimer} {curTime : Nat}

/-! ### The earliest instant -/

theorem candidates_offers (curTime : Nat) (apTime : List ColinkAppTimer) :
    (offers curTime apTime).map Prod.snd = apTime.flatMap (candidates curTime) := by
  simp [offers, List.map_flatMap, Function.comp_def]

theorem candidates_enabled (curTime : Nat) (apTime : List ColinkAppTimer) :
    ((offers curTime apTime).filter fun o => isEnabled o.1).map Prod.snd =
      (enabled apTime).flatMap (candidates curTime) := by
  induction apTime with
  | nil => rfl
  | cons t rest ih =>
    have hoffers : offers curTime (t :: rest) =
        (candidates curTime t).map (Prod.mk t) ++ offers curTime rest := List.flatMap_cons
    rw [hoffers, List.filter_append, List.map_append, ih]
    cases ht : isEnabled t <;> simp [enabled, List.filter_map, Function.comp_def, ht]

theorem sameNext_iff (doSwitch : UInt8) :
    ((enabled apTime).flatMap (candidates curTime)).foldl RunningMin.offer (maxTime, doSwitch) =
        (apTime.flatMap (candidates curTime)).foldl RunningMin.offer (maxTime, doSwitch) ↔
      NoneFirst curTime apTime := by
  have hfilter := foldl_offer_filter_iff (fun o => isEnabled o.1) Prod.snd
    (offers curTime apTime) (maxTime, doSwitch)
  rwa [candidates_enabled, candidates_offers] at hfilter

/-! ### The last action -/

theorem actions_due (curTime : Nat) (apTime : List ColinkAppTimer) :
    (due curTime apTime).map Prod.snd = apTime.flatMap (dueActions curTime) := by
  simp [due, List.map_flatMap, Function.comp_def]

theorem actions_enabled (curTime : Nat) (apTime : List ColinkAppTimer) :
    ((due curTime apTime).filter fun d => isEnabled d.1).map Prod.snd =
      (enabled apTime).flatMap (dueActions curTime) := by
  induction apTime with
  | nil => rfl
  | cons t rest ih =>
    have hdue : due curTime (t :: rest) =
        (dueActions curTime t).map (Prod.mk t) ++ due curTime rest := List.flatMap_cons
    rw [hdue, List.filter_append, List.map_append, ih]
    cases ht : isEnabled t <;> simp [enabled, List.filter_map, Function.comp_def, ht]

theorem sameSwitch_iff :
    switchOf (((enabled apTime).flatMap (dueActions curTime)).getLastD 0xFF) =
        switchOf ((apTime.flatMap (dueActions curTime)).getLastD 0xFF) ↔
      NoneLast curTime apTime := by
  unfold NoneLast
  rw [← actions_enabled, ← actions_due curTime apTime]
  rcases List.eq_nil_or_concat (due curTime apTime) with hnil | ⟨before, d, hdue⟩
  · simp [hnil]
  rw [List.concat_eq_append] at hdue
  rw [hdue, List.getLast?_concat, List.map_append, List.map_singleton, List.getLastD_concat]
  constructor
  · rintro heq _ ⟨⟩ _
    exact heq
  · intro h
    cases hd : isEnabled d.1 with
    | false => exact h d rfl hd
    | true => simp [hd]

theorem getMinTime_enabled_iff (curTime : UInt32) (doSwitch : UInt8)
    (apTime : List ColinkAppTimer) :
    getMinTime curTime doSwitch (enabled apTime) = getMinTime curTime doSwitch apTime ↔
      (∃ t ∈ enabled apTime, DividesByZero curTime.toNat t) ∨
        (∀ t ∈ apTime, ¬ DividesByZero curTime.toNat t) ∧
          NoneFirst curTime.toNat apTime ∧ NoneLast curTime.toNat apTime := by
  have hsub : enabled apTime ⊆ apTime := List.filter_subset_self _
  by_cases hzero : ∃ t ∈ enabled apTime, DividesByZero curTime.toNat t
  · obtain ⟨t, ht, hzero⟩ := hzero
    rw [(getMinTime_eq_none_iff _ _ _).mpr ⟨t, ht, hzero⟩,
      (getMinTime_eq_none_iff _ _ _).mpr ⟨t, hsub ht, hzero⟩]
    exact iff_of_true rfl (.inl ⟨t, ht, hzero⟩)
  rw [or_iff_right hzero]
  push Not at hzero
  have henabled := getMinTime_eq_some_iff.mpr
    ⟨hzero, rfl (a := resultOf curTime.toNat doSwitch (enabled apTime))⟩
  rw [henabled, eq_comm, getMinTime_eq_some_iff, ← sameNext_iff doSwitch, ← sameSwitch_iff]
  refine and_congr_right fun _ => ?_
  simp only [resultOf, Result.mk.injEq, Prod.ext_iff]
  rw [and_assoc]

/-! ### The result of `mytime_update_delay` -/

theorem returnsMinusOne_iff (m : Globals) (ticks : Ticks) (apTime : List ColinkAppTimer) :
    ReturnsMinusOne (withTimers m apTime) ticks ↔
      apTime ≠ [] ∧ ¬ (m.mytimeState = .idle ∨ m.mytimeState = .sntping) ∧
        ∃ result, getMinTime (curTimeOf m ticks) m.doSwitch apTime = some result ∧
          result.offTime = maxTime := by
  by_cases hne : apTime = []
  · subst hne
    refine iff_of_false ?_ fun h => h.1 rfl
    rintro ⟨update, hupdate, hretval⟩
    cases hupdate
    cases hretval
  by_cases hstate : m.mytimeState = .idle ∨ m.mytimeState = .sntping
  · refine iff_of_false ?_ fun h => h.2.1 hstate
    rintro ⟨update, hupdate, hretval⟩
    have hwaiting : Waiting (withTimers m apTime) := .inr (.inr hstate)
    obtain ⟨-, hzero, -⟩ | ⟨hbusy, -⟩ | ⟨hbusy, -⟩ := mytimeUpdateDelay_cases hupdate
    · rw [hretval] at hzero
      cases hzero
    · exact hbusy hwaiting
    · exact hbusy hwaiting
  have hretval : ReturnsMinusOne (withTimers m apTime) ticks ↔
      ∃ result, getMinTime (curTimeOf m ticks) m.doSwitch apTime = some result ∧
        result.offTime = maxTime :=
    mytimeUpdateDelay_retval rfl rfl hne hstate
  exact hretval.trans ⟨fun h => ⟨hne, hstate, h⟩, fun h => h.2.2⟩

theorem sameRetval_iff
    (hsame : getMinTime (curTimeOf m ticks) m.doSwitch (enabled apTime) =
      getMinTime (curTimeOf m ticks) m.doSwitch apTime) :
    (ReturnsMinusOne (withTimers m (enabled apTime)) ticks ↔
      ReturnsMinusOne (withTimers m apTime) ticks) ↔ SameCall m apTime := by
  rw [returnsMinusOne_iff, returnsMinusOne_iff, hsame]
  unfold SameCall
  by_cases hnil : apTime = []
  · subst hnil
    exact iff_of_true Iff.rfl (.inl rfl)
  by_cases hleft : enabled apTime = []
  · have hmax : ∃ result, getMinTime (curTimeOf m ticks) m.doSwitch apTime = some result ∧
        result.offTime = maxTime := by
      rw [← hsame, hleft]
      exact ⟨_, rfl, rfl⟩
    simp only [hleft, hnil, hmax, ne_eq, not_true, not_false_eq_true, true_and, and_true,
      false_and, false_or, false_iff, not_not]
  · simp [hnil, hleft]

/-- Entries that are switched off make no difference if and only if none of them has the
first of the earliest instants or the last action that is due, except where another entry
gives the same, and at least one other entry is there. -/
theorem inert_iff (m : Globals) (ticks : Ticks) (apTime : List ColinkAppTimer) :
    Inert m ticks apTime ↔
      ((∃ t ∈ enabled apTime, DividesByZero (curTimeOf m ticks).toNat t) ∨
        (∀ t ∈ apTime, ¬ DividesByZero (curTimeOf m ticks).toNat t) ∧
          NoneFirst (curTimeOf m ticks).toNat apTime ∧
            NoneLast (curTimeOf m ticks).toNat apTime) ∧ SameCall m apTime := by
  rw [← getMinTime_enabled_iff (curTimeOf m ticks) m.doSwitch apTime]
  constructor
  · intro h
    exact ⟨h.minTime, (sameRetval_iff h.minTime).mp h.retval⟩
  · intro h
    exact ⟨h.1, (sameRetval_iff h.1).mpr h.2⟩

/-- A lamp that is to go on in 100 seconds, but is switched off. -/
def disabledLamp : ColinkAppTimer where
  enable := 0
  type := colinkTypeOnce
  startDo := 1
  endDo := 0
  atTime := 1600000105
  cycle := 0
  delay := 0

theorem disabledLamp_counts :
    ¬ ∀ (m : Globals) (ticks : Ticks) (apTime : List ColinkAppTimer), Inert m ticks apTime := by
  intro hall
  have hsame := (hall lampGlobals ⟨5000, 5000, 5000⟩ [disabledLamp]).minTime
  revert hsame
  decide

end Sv6x66.Colink.DisabledTimers
