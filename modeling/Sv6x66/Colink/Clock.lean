import Sv6x66.Colink.Mytime

/-! The clock of `mytime.c` over many calls. Times since the start are counted
without a bound; `OS_GetSysTick` shows them modulo `2 ^ 32`. -/
namespace Sv6x66.Colink.Clock
open Sv6x66.Colink.MinTime
open Sv6x66.Colink.Mytime

/-- The milliseconds at which a call of `mytime_get_time` reads the tick. -/
structure Call where
  first : Nat
  second : Nat
deriving DecidableEq, Repr

def osGetSysTick (time : Nat) : UInt32 := UInt32.ofNat time

def wraps (time : Nat) : Nat := time / 2 ^ 32

def getTime (m : Globals) (call : Call) : UInt32 × Globals :=
  mytimeGetTime m (osGetSysTick call.first) (osGetSysTick call.second)

/-- What successive calls return. -/
def getTimes (m : Globals) : List Call → List UInt32
  | [] => []
  | call :: rest => (getTime m call).1 :: getTimes (getTime m call).2 rest

/-- Time goes on within a call and from one call to the next. -/
def Follows (call next : Call) : Prop := call.second ≤ next.first

structure InOrder (calls : List Call) : Prop where
  reads : ∀ call ∈ calls, call.first ≤ call.second
  follows : calls.IsChain Follows

/-- The offset a call leaves behind, before it is cut to 32 bits. -/
def offset (m : Globals) (call : Call) : Nat :=
  m.realtimeOffset + if m.prevTick > (osGetSysTick call.first).toNat then tickOverSec else 0

/-- No value passes the 32-bit limit. -/
def BelowLimit (m : Globals) : List Call → Prop
  | [] => True
  | call :: rest =>
    offset m call + (osGetSysTick call.second).toNat / 1000 < 2 ^ 32 ∧
      BelowLimit (getTime m call).2 rest

/-- The tick wraps after the second reading of `call` without the first reading of
`next` being below that of `call`, and the second reading of `next` is in an
earlier second. -/
def Unnoticed (call next : Call) : Prop :=
  wraps call.second < wraps next.second ∧
    osGetSysTick call.first ≤ osGetSysTick next.first ∧
    (osGetSysTick next.second).toNat / 1000 < (osGetSysTick call.second).toNat / 1000

instance (call next : Call) : Decidable (Unnoticed call next) :=
  inferInstanceAs (Decidable (_ ∧ _ ∧ _))

def Noticed (call next : Call) : Prop := ¬ Unnoticed call next

instance (call next : Call) : Decidable (Noticed call next) :=
  inferInstanceAs (Decidable (¬ _))

theorem osGetSysTick_toNat (time : Nat) : (osGetSysTick time).toNat = time % 2 ^ 32 :=
  UInt32.toNat_ofNat'

theorem getTime_spec {m : Globals} {call : Call}
    (hlimit : offset m call + (osGetSysTick call.second).toNat / 1000 < 2 ^ 32) :
    (getTime m call).1.toNat = offset m call + (osGetSysTick call.second).toNat / 1000 ∧
      (getTime m call).2.realtimeOffset = offset m call ∧
      (getTime m call).2.prevTick = (osGetSysTick call.first).toNat := by
  have hoffset : (getTime m call).2.realtimeOffset = offset m call := by
    unfold getTime mytimeGetTime offset u32
    dsimp only
    unfold offset at hlimit
    split
    · rename_i hwrap
      rw [if_pos hwrap] at hlimit
      exact Nat.mod_eq_of_lt (by omega)
    · rfl
  refine ⟨?_, hoffset, rfl⟩
  have hvalue : (getTime m call).1.toNat =
      ((getTime m call).2.realtimeOffset + (osGetSysTick call.second).toNat / 1000) % 2 ^ 32 :=
    UInt32.toNat_ofNat'
  rw [hvalue, hoffset]
  exact Nat.mod_eq_of_lt hlimit

/-- Without a wrap the later reading is the larger one. -/
theorem toNat_le_of_wraps {time later : Nat} (hle : time ≤ later)
    (hwraps : ¬ wraps time < wraps later) :
    (osGetSysTick time).toNat ≤ (osGetSysTick later).toNat := by
  have hsame : time / 2 ^ 32 = later / 2 ^ 32 :=
    le_antisymm (Nat.div_le_div_right hle) (not_lt.mp hwraps)
  have htime := Nat.div_add_mod time (2 ^ 32)
  have hlater := Nat.div_add_mod later (2 ^ 32)
  rw [osGetSysTick_toNat, osGetSysTick_toNat]
  omega

/-- Two calls in a row: the wrap adds as many seconds as the tick can count, so
a noticed one is always made up for. -/
theorem getTime_le_iff {m : Globals} {call next : Call} (hreads : next.first ≤ next.second)
    (hfollows : Follows call next)
    (hlimit : offset m call + (osGetSysTick call.second).toNat / 1000 < 2 ^ 32)
    (hlimit' : offset (getTime m call).2 next +
      (osGetSysTick next.second).toNat / 1000 < 2 ^ 32) :
    (getTime m call).1 ≤ (getTime (getTime m call).2 next).1 ↔ Noticed call next := by
  obtain ⟨hvalue, hoffset, hprev⟩ := getTime_spec hlimit
  obtain ⟨hvalue', -, -⟩ := getTime_spec hlimit'
  have hnext : offset (getTime m call).2 next = offset m call +
      if (osGetSysTick call.first).toNat > (osGetSysTick next.first).toNat then tickOverSec
      else 0 := by
    conv_lhs => rw [offset, hoffset, hprev]
  have hbound := (osGetSysTick call.second).toNat_lt
  rw [UInt32.le_iff_toNat_le, hvalue, hvalue', hnext]
  unfold Noticed Unnoticed
  rw [UInt32.le_iff_toNat_le]
  by_cases hwraps : wraps call.second < wraps next.second
  · split
    · rename_i hlow
      have hover : tickOverSec = 4294967 := rfl
      constructor
      · intro _ hunnoticed
        omega
      · intro _
        omega
    · constructor
      · intro _ hunnoticed
        omega
      · intro hnoticed
        by_contra hlt
        exact hnoticed ⟨hwraps, by omega, by omega⟩
  · have hle := toNat_le_of_wraps (hfollows.trans hreads) hwraps
    have hseconds := Nat.div_le_div_right (c := 1000) hle
    constructor
    · intro _ hunnoticed
      exact hwraps hunnoticed.1
    · intro _
      omega

/-- The values never decrease exactly when every wrap is noticed in time. -/
theorem getTimes_monotone_iff (m : Globals) (calls : List Call) (horder : InOrder calls)
    (hlimit : BelowLimit m calls) :
    (getTimes m calls).IsChain (· ≤ ·) ↔ calls.IsChain Noticed := by
  induction calls generalizing m with
  | nil => simp [getTimes]
  | cons call rest ih =>
    cases rest with
    | nil => simp [getTimes]
    | cons next rest =>
      obtain ⟨hfollows, hrest⟩ := List.isChain_cons_cons.mp horder.follows
      have hreads := horder.reads next (by simp)
      have hpair := getTime_le_iff hreads hfollows hlimit.1 hlimit.2.1
      have hlater := ih (getTime m call).2
        ⟨fun c hc => horder.reads c (List.mem_cons_of_mem call hc), hrest⟩ hlimit.2
      simp only [getTimes] at hlater ⊢
      rw [List.isChain_cons_cons, List.isChain_cons_cons, hpair, hlater]

/-- After the start: 2018-01-01 and no tick read yet. -/
def started : Globals where
  apTimerList := none
  timerNum := 0
  prevTick := 0
  realtimeOffset := 1514764800
  mytimeState := .idle
  doSwitch := 0
  mytimeDelayTimer := none
  timerFile := none

/-- A call well before the wrap, and one that the wrap cuts in two. -/
def cutByWrap : List Call := [⟨2 ^ 32 - 2000, 2 ^ 32 - 2000⟩, ⟨2 ^ 32 - 1, 2 ^ 32⟩]

theorem inOrder_cutByWrap : InOrder cutByWrap := by
  constructor
  · decide
  · simp [cutByWrap, Follows]

theorem belowLimit_cutByWrap : BelowLimit started cutByWrap := by
  simp only [cutByWrap, BelowLimit]
  decide

theorem getTimes_monotone_iff_cutByWrap :
    (getTimes started cutByWrap).IsChain (· ≤ ·) ↔ cutByWrap.IsChain Noticed :=
  getTimes_monotone_iff started cutByWrap inOrder_cutByWrap belowLimit_cutByWrap

/-- The tick wraps at most once between two calls. -/
def AtMostOnce (call next : Call) : Prop := wraps next.second ≤ wraps call.first + 1

instance (call next : Call) : Decidable (AtMostOnce call next) :=
  inferInstanceAs (Decidable (_ ≤ _))

/-- The second call returns 4294965 seconds less than the first. -/
theorem getTimes_decrease : InOrder cutByWrap ∧ BelowLimit started cutByWrap ∧
    cutByWrap.IsChain AtMostOnce ∧ getTimes started cutByWrap = [1519059765, 1514764800] ∧
    ¬ (getTimes started cutByWrap).IsChain (· ≤ ·) :=
  ⟨inOrder_cutByWrap, belowLimit_cutByWrap, by decide, by decide, by decide⟩

end Sv6x66.Colink.Clock
