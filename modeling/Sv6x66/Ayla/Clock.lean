import Sv6x66.Lib.Run

/-! The wall clock of the Ayla platform. It is read from the tick in milliseconds, which is
multiplied by 1000 before it is taken for a signed number of microseconds. -/
namespace Sv6x66.Ayla.Clock
open Sv6x66.Lib

def alCsNone : UInt32 := 0
def alCsLimit : UInt32 := 0x1281

structure Timeval where
  tvSec : Int
  tvUsec : Int

def portTickRateMs : UInt32 := 1

def osTick2ms (tick : UInt32) : UInt32 := tick * portTickRateMs

/-- The product wraps, and a `long` takes its upper half for negative. -/
def utcClockGet (sysTick : UInt32) : Timeval :=
  let cnt := (osTick2ms (sysTick * 1000)).toBitVec.toInt
  { tvSec := cnt.tdiv 1000000 + 1539772551, tvUsec := cnt.tmod 1000000 }

structure AlClock where
  clockAtBoot : Int
  clockOfAdjust : Int
  gvClockSrc : UInt32

def alClockInit (sysTick : UInt32) : AlClock :=
  let now := utcClockGet sysTick
  { clockAtBoot := now.tvSec * 1000 + now.tvUsec.tdiv 1000
    clockOfAdjust := 0
    gvClockSrc := alCsNone }

def alClockSet (clock : AlClock) (timestamp clockSrc sysTick : UInt32) : Option AlClock :=
  if clockSrc < clock.gvClockSrc ∨ clockSrc ≥ alCsLimit then none
  else
    let now := utcClockGet sysTick
    let ctNow := now.tvSec * 1000 + now.tvUsec.tdiv 1000
    let ctNew := (timestamp.toNat : Int) * 1000
    some { clock with gvClockSrc := clockSrc, clockOfAdjust := ctNew - ctNow }

def alClockResetSrc (clock : AlClock) : AlClock := { clock with gvClockSrc := alCsNone }

/-- With the source of the time. -/
def alClockGet (clock : AlClock) (sysTick : UInt32) : UInt32 × UInt32 :=
  let now := utcClockGet sysTick
  let ct := now.tvSec + (now.tvUsec.tdiv 1000 + clock.clockOfAdjust).tdiv 1000
  (UInt32.ofInt ct, clock.gvClockSrc)

def alClockGetTotalMs (clock : AlClock) (sysTick : UInt32) : UInt64 :=
  let now := utcClockGet sysTick
  let ms := now.tvSec * 1000 + now.tvUsec.tdiv 1000
  UInt64.ofInt (ms - clock.clockAtBoot)

/-! ### Runs -/

/-- The clock, the tick now and at the start, and what was set and read last, and when. -/
structure World where
  clock : AlClock
  sysTick : UInt32
  boot : UInt32
  lastSet : Option (UInt32 × UInt32)
  lastGet : Option UInt32
  lastTotalMs : Option (UInt64 × UInt32)

def start (boot : UInt32) : World :=
  { clock := alClockInit boot, sysTick := boot, boot := boot, lastSet := none, lastGet := none,
    lastTotalMs := none }

inductive Call
  | wait (ms : UInt32)
  | set (timestamp clockSrc : UInt32)
  | resetSrc
  | get
  | totalMs

/-- The tick does not wrap. The readings before a successful `al_clock_set` are forgotten. -/
def step (w : World) : Call → Option World
  | .wait ms =>
    if w.sysTick.toNat + ms.toNat < 2 ^ 32 then some { w with sysTick := w.sysTick + ms }
    else none
  | .set timestamp clockSrc =>
    match alClockSet w.clock timestamp clockSrc w.sysTick with
    | none => some w
    | some clock =>
      some { w with clock := clock, lastSet := some (timestamp, w.sysTick), lastGet := none }
  | .resetSrc => some { w with clock := alClockResetSrc w.clock }
  | .get => some { w with lastGet := some (alClockGet w.clock w.sysTick).1 }
  | .totalMs =>
    some { w with lastTotalMs := some (alClockGetTotalMs w.clock w.sysTick, w.sysTick) }

/-- Within a second of the time that was set at `tick` and the whole seconds since. -/
def IsNear (clock : AlClock) (timestamp tick sysTick : UInt32) : Prop :=
  (alClockGet clock sysTick).1.toNat ≤
      timestamp.toNat + (sysTick.toNat - tick.toNat) / 1000 + 1 ∧
    timestamp.toNat + (sysTick.toNat - tick.toNat) / 1000 ≤
      (alClockGet clock sysTick).1.toNat + 1

instance (clock : AlClock) (timestamp tick sysTick : UInt32) :
    Decidable (IsNear clock timestamp tick sysTick) :=
  inferInstanceAs (Decidable (_ ∧ _))

/-- What would be read next is right, and not behind what was read last. -/
structure KeepsTime (w : World) : Prop where
  near : ∀ timestamp tick, w.lastSet = some (timestamp, tick) →
    IsNear w.clock timestamp tick w.sysTick
  forward : w.lastSet.isSome → ∀ time, w.lastGet = some time →
    time ≤ (alClockGet w.clock w.sysTick).1
  totalForward : ∀ ms tick, w.lastTotalMs = some (ms, tick) →
    ms ≤ alClockGetTotalMs w.clock w.sysTick

/-- How often the microseconds have passed the end of a `long`. -/
def period (sysTick : UInt32) : Nat := (1000 * sysTick.toNat + 2 ^ 31) / 2 ^ 32

/-- The seconds, rounded up, stay below `2 ^ 32`. -/
def Fits (timestamp tick sysTick : UInt32) : Prop :=
  1000 * timestamp.toNat + (sysTick.toNat - tick.toNat) < 1000 * (2 ^ 32 - 1)

instance (timestamp tick sysTick : UInt32) : Decidable (Fits timestamp tick sysTick) :=
  inferInstanceAs (Decidable (_ < _))

/-- The microseconds as a `long`. -/
def micros (sysTick : UInt32) : Int := 1000 * sysTick.toNat - 2 ^ 32 * period sysTick

/-- The milliseconds they come to. -/
def millis (sysTick : UInt32) : Int := (micros sysTick).tdiv 1000

/-- Since the total was read at `tick` neither the end of a `long` is passed nor the count of
`al_clock_init`, below which the total is negative. -/
def Onward (boot tick sysTick : UInt32) : Prop :=
  period tick = period sysTick ∧ (millis tick < millis boot → millis sysTick < millis boot)

/-- No wait leads past the end of a `long` after the time was set or the total read, or to a
time that has no 32 bits. -/
def Calm (w : World) : Call → Prop
  | .wait ms =>
    (∀ set ∈ w.lastSet,
      period set.2 = period (w.sysTick + ms) ∧ Fits set.1 set.2 (w.sysTick + ms)) ∧
    ∀ total ∈ w.lastTotalMs, Onward w.boot total.2 (w.sysTick + ms)
  | .set timestamp _ => Fits timestamp w.sysTick w.sysTick
  | _ => True

/-! ### The microseconds -/

/-- C divides towards zero. -/
theorem tdiv_cases (a b : Int) :
    0 ≤ a ∧ a.tdiv b = a / b ∨ a < 0 ∧ a.tdiv b = -(-a / b) := by
  rcases lt_or_ge a 0 with hneg | hpos
  · right
    refine ⟨hneg, ?_⟩
    rw [← Int.tdiv_eq_ediv_of_nonneg (by omega), Int.neg_tdiv, Int.neg_neg]
  · exact .inl ⟨hpos, Int.tdiv_eq_ediv_of_nonneg hpos⟩

theorem toInt_mul (sysTick : UInt32) :
    (osTick2ms (sysTick * 1000)).toBitVec.toInt = micros sysTick := by
  have hmul : (osTick2ms (sysTick * 1000)).toNat = 1000 * sysTick.toNat % 2 ^ 32 := by
    rw [osTick2ms, portTickRateMs, UInt32.mul_one, UInt32.toNat_mul, Nat.mul_comm]
    rfl
  rw [BitVec.toInt_eq_toNat_cond, UInt32.toNat_toBitVec, hmul, micros, period]
  split <;> omega

/-- A `long` of microseconds. -/
theorem millis_bounds (sysTick : UInt32) :
    -2147484 < millis sysTick ∧ millis sysTick < 2147484 := by
  have hmilli := tdiv_cases (micros sysTick) 1000
  rw [millis]
  rw [micros, period] at *
  omega

theorem utcClockGet_ms (sysTick : UInt32) :
    (utcClockGet sysTick).tvSec * 1000 + (utcClockGet sysTick).tvUsec.tdiv 1000 =
      1539772551000 + millis sysTick := by
  rw [utcClockGet]
  dsimp only
  rw [toInt_mul, millis, Int.tmod_def]
  have hsec := tdiv_cases (micros sysTick) 1000000
  have hmilli := tdiv_cases (micros sysTick) 1000
  have hrest := tdiv_cases (micros sysTick - 1000000 * (micros sysTick).tdiv 1000000) 1000
  omega

theorem utcClockGet_tvSec (sysTick : UInt32) :
    (utcClockGet sysTick).tvSec = 1539772551 + (millis sysTick).tdiv 1000 := by
  rw [utcClockGet]
  dsimp only
  rw [toInt_mul, millis, Int.add_comm]
  have hsec := tdiv_cases (micros sysTick) 1000000
  have hmilli := tdiv_cases (micros sysTick) 1000
  have hwhole := tdiv_cases ((micros sysTick).tdiv 1000) 1000
  omega

theorem period_mono {tick later : UInt32} (h : tick ≤ later) : period tick ≤ period later := by
  rw [UInt32.le_iff_toNat_le] at h
  exact Nat.div_le_div_right (by omega)

theorem micros_sub {tick later : UInt32} (hperiod : period tick = period later) :
    micros later = micros tick + 1000 * (later.toNat - tick.toNat) := by
  rw [micros, micros, hperiod]
  omega

theorem millis_mono {tick later : UInt32} (h : tick ≤ later)
    (hperiod : period tick = period later) : millis tick ≤ millis later := by
  rw [UInt32.le_iff_toNat_le] at h
  apply Int.tdiv_le_tdiv (by decide)
  rw [micros_sub hperiod]
  omega

/-- Within a period the milliseconds go with the tick, up to one. -/
theorem millis_near {tick later : UInt32} (hperiod : period tick = period later) :
    millis later - millis tick ≤ later.toNat - tick.toNat + 1 ∧
      (later.toNat : Int) - tick.toNat ≤ millis later - millis tick + 1 := by
  have hfirst := tdiv_cases (micros tick) 1000
  have hsecond := tdiv_cases (micros later) 1000
  have hsub := micros_sub hperiod
  rw [millis, millis]
  omega

/-- After the end of a period they are far behind. -/
theorem millis_back {tick later : UInt32} (hperiod : period tick < period later) :
    millis later - millis tick < (later.toNat : Int) - tick.toNat - 4290000 ∧
      (later.toNat : Int) - tick.toNat - 4300000000 < millis later - millis tick := by
  have hfew : period later ≤ 1000 := by
    have hlt := later.toNat_lt
    rw [period]
    omega
  have hmicros : micros later - micros tick =
      1000 * (later.toNat - tick.toNat) - 2 ^ 32 * (period later - period tick) := by
    rw [micros, micros]
    omega
  have hfirst := tdiv_cases (micros tick) 1000
  have hsecond := tdiv_cases (micros later) 1000
  rw [millis, millis]
  omega

/-! ### Reading the time -/

/-- The seconds that `al_clock_get` finds. -/
def seconds (clock : AlClock) (sysTick : UInt32) : Int :=
  1539772551 + (millis sysTick).tdiv 1000 +
    ((millis sysTick).tmod 1000 + clock.clockOfAdjust).tdiv 1000

theorem alClockGet_eq (clock : AlClock) (sysTick : UInt32) :
    alClockGet clock sysTick = (UInt32.ofInt (seconds clock sysTick), clock.gvClockSrc) := by
  have hms := utcClockGet_ms sysTick
  have hsec := utcClockGet_tvSec sysTick
  have husec : (utcClockGet sysTick).tvUsec.tdiv 1000 = (millis sysTick).tmod 1000 := by
    rw [Int.tmod_def]
    omega
  rw [alClockGet, seconds, hsec, husec]

theorem tdiv_add_le (a : Int) {b : Int} (hb : 0 ≤ b) :
    (a + 1000 * b).tdiv 1000 ≤ a.tdiv 1000 + b := by
  have hsum := tdiv_cases (a + 1000 * b) 1000
  have hfirst := tdiv_cases a 1000
  omega

theorem seconds_mono (clock : AlClock) {tick later : UInt32} (h : tick ≤ later)
    (hperiod : period tick = period later) : seconds clock tick ≤ seconds clock later := by
  have hmillis := millis_mono h hperiod
  have hwhole := Int.tdiv_le_tdiv (show (0 : Int) < 1000 by decide) hmillis
  have hct := tdiv_add_le ((millis later).tmod 1000 + clock.clockOfAdjust)
    (sub_nonneg.mpr hwhole)
  have hle : ((millis tick).tmod 1000 + clock.clockOfAdjust).tdiv 1000 ≤
      ((millis later).tmod 1000 + clock.clockOfAdjust +
        1000 * ((millis later).tdiv 1000 - (millis tick).tdiv 1000)).tdiv 1000 := by
    apply Int.tdiv_le_tdiv (by decide)
    rw [Int.tmod_def, Int.tmod_def]
    omega
  rw [seconds, seconds]
  omega

theorem toNat_ofInt {x : Int} (hpos : 0 ≤ x) (hlt : x < 2 ^ 32) :
    ((UInt32.ofInt x).toNat : Int) = x := by
  rw [UInt32.ofInt, UInt32.toNat_ofNat', Int.emod_eq_of_lt hpos hlt]
  omega

theorem toNat_ofInt_neg {x : Int} (hneg : x < 0) (hlt : - 2 ^ 32 ≤ x) :
    ((UInt32.ofInt x).toNat : Int) = x + 2 ^ 32 := by
  have hmod : x % 2 ^ 32 = x + 2 ^ 32 := by omega
  rw [UInt32.ofInt, UInt32.toNat_ofNat', hmod]
  omega

section

variable {clock : AlClock} {timestamp tick : UInt32}
  (hadjust : clock.clockOfAdjust =
    (timestamp.toNat : Int) * 1000 - (1539772551000 + millis tick))
include hadjust

theorem seconds_bounds (sysTick : UInt32) :
    1000 * (seconds clock sysTick - timestamp.toNat) < millis sysTick - millis tick + 1000 ∧
      millis sysTick - millis tick < 1000 * (seconds clock sysTick - timestamp.toNat) + 1000 := by
  have hct := tdiv_cases ((millis sysTick).tmod 1000 + clock.clockOfAdjust) 1000
  have hmod := Int.tmod_def (millis sysTick) 1000
  rw [seconds]
  omega

theorem seconds_nonneg {sysTick : UInt32} (h : tick ≤ sysTick)
    (hperiod : period tick = period sysTick) : 0 ≤ seconds clock sysTick := by
  have hbounds := seconds_bounds hadjust sysTick
  have hmono := millis_mono h hperiod
  omega

theorem seconds_lt {sysTick : UInt32} (hperiod : period tick = period sysTick)
    (hfits : Fits timestamp tick sysTick) : seconds clock sysTick < 2 ^ 32 := by
  have hbounds := seconds_bounds hadjust sysTick
  have hnear := millis_near hperiod
  rw [Fits] at hfits
  omega

/-- The time is kept exactly as long as no end of a `long` is passed. -/
theorem isNear_iff {sysTick : UInt32} (h : tick ≤ sysTick)
    (hfits : Fits timestamp tick sysTick) :
    IsNear clock timestamp tick sysTick ↔ period tick = period sysTick := by
  have hbounds := seconds_bounds hadjust sysTick
  rw [IsNear, alClockGet_eq]
  dsimp only
  constructor
  · intro hnear
    by_contra hperiod
    have hlater := Nat.lt_of_le_of_ne (period_mono h) hperiod
    obtain ⟨hback, hless⟩ := millis_back hlater
    rw [Fits] at hfits
    rw [UInt32.le_iff_toNat_le] at h
    rcases lt_or_ge (seconds clock sysTick) 0 with hneg | hpos
    · have hvalue := toNat_ofInt_neg hneg (by omega)
      omega
    · have hvalue := toNat_ofInt hpos (by omega)
      omega
  · intro hperiod
    have hpos := seconds_nonneg hadjust h hperiod
    have hlt := seconds_lt hadjust hperiod hfits
    have hvalue := toNat_ofInt hpos hlt
    have hmillis := millis_near hperiod
    rw [UInt32.le_iff_toNat_le] at h
    clear hadjust hfits hlt
    omega

end

/-! ### Every run -/

/-- The clock after a successful `al_clock_set`. -/
structure IsSet (w : World) (timestamp tick : UInt32) : Prop where
  adjust : w.clock.clockOfAdjust =
    (timestamp.toNat : Int) * 1000 - (1539772551000 + millis tick)
  set : tick ≤ w.sysTick
  period : period tick = period w.sysTick
  fits : Fits timestamp tick w.sysTick
  lastGet : ∀ time, w.lastGet = some time →
    ∃ before, tick ≤ before ∧ before ≤ w.sysTick ∧ time = (alClockGet w.clock before).1

structure Inv (w : World) : Prop where
  atBoot : w.clock.clockAtBoot = 1539772551000 + millis w.boot
  set : ∀ timestamp tick, w.lastSet = some (timestamp, tick) → IsSet w timestamp tick
  total : ∀ ms tick, w.lastTotalMs = some (ms, tick) → tick ≤ w.sysTick ∧
    Onward w.boot tick w.sysTick ∧ ms = alClockGetTotalMs w.clock tick

theorem inv_start (boot : UInt32) : Inv (start boot) where
  atBoot := utcClockGet_ms boot
  set _ _ h := by cases h
  total _ _ h := by cases h

theorem alClockSet_eq_some {clock clock' : AlClock} {timestamp clockSrc sysTick : UInt32}
    (h : alClockSet clock timestamp clockSrc sysTick = some clock') :
    clock'.clockAtBoot = clock.clockAtBoot ∧
      clock'.clockOfAdjust =
        (timestamp.toNat : Int) * 1000 - (1539772551000 + millis sysTick) := by
  rw [alClockSet] at h
  split at h
  · cases h
  · rw [← Option.some.inj h, ← utcClockGet_ms]
    exact ⟨rfl, rfl⟩

theorem alClockGetTotalMs_congr {clock clock' : AlClock}
    (h : clock'.clockAtBoot = clock.clockAtBoot) (sysTick : UInt32) :
    alClockGetTotalMs clock' sysTick = alClockGetTotalMs clock sysTick := by
  rw [alClockGetTotalMs, alClockGetTotalMs, h]

theorem le_add {sysTick ms : UInt32} (h : sysTick.toNat + ms.toNat < 2 ^ 32) :
    sysTick ≤ sysTick + ms := by
  rw [UInt32.le_iff_toNat_le, UInt32.toNat_add, Nat.mod_eq_of_lt h]
  omega

theorem Inv.step {w w' : World} {call : Call} (h : Inv w) (hcalm : Calm w call)
    (hnext : step w call = some w') : Inv w' := by
  cases call with
  | wait ms =>
    rw [Clock.step] at hnext
    split at hnext
    · rename_i hwrap
      have hlater := le_add hwrap
      cases hnext
      refine ⟨h.atBoot, fun timestamp tick hset => ?_, fun ms tick htotal => ?_⟩
      · have hold := h.set timestamp tick hset
        obtain ⟨hperiod, hfits⟩ := hcalm.1 _ hset
        refine ⟨hold.adjust, UInt32.le_trans hold.set hlater, hperiod, hfits,
          fun time htime => ?_⟩
        obtain ⟨before, hafter, hle, heq⟩ := hold.lastGet time htime
        exact ⟨before, hafter, UInt32.le_trans hle hlater, heq⟩
      · obtain ⟨hle, -, heq⟩ := h.total ms tick htotal
        exact ⟨UInt32.le_trans hle hlater, hcalm.2 _ htotal, heq⟩
    · cases hnext
  | set timestamp clockSrc =>
    have hfits : Fits timestamp w.sysTick w.sysTick := by
      rw [Calm] at hcalm
      exact hcalm
    rw [Clock.step] at hnext
    split at hnext
    · cases hnext
      exact h
    · rename_i clock hclock
      obtain ⟨hboot, hadjust⟩ := alClockSet_eq_some hclock
      cases hnext
      refine ⟨hboot.trans h.atBoot, fun timestamp' tick hset => ?_, fun ms tick htotal => ?_⟩
      · cases hset
        exact ⟨hadjust, UInt32.le_refl _, rfl, hfits, fun _ htime => by cases htime⟩
      · obtain ⟨hle, honward, heq⟩ := h.total ms tick htotal
        exact ⟨hle, honward, heq.trans (alClockGetTotalMs_congr hboot tick).symm⟩
  | resetSrc =>
    cases hnext
    refine ⟨h.atBoot, fun timestamp tick hset => ?_, h.total⟩
    have hold := h.set timestamp tick hset
    exact ⟨hold.adjust, hold.set, hold.period, hold.fits, hold.lastGet⟩
  | get =>
    cases hnext
    refine ⟨h.atBoot, fun timestamp tick hset => ?_, h.total⟩
    have hold := h.set timestamp tick hset
    refine ⟨hold.adjust, hold.set, hold.period, hold.fits, fun time htime => ?_⟩
    exact ⟨w.sysTick, hold.set, UInt32.le_refl _, (Option.some.inj htime).symm⟩
  | totalMs =>
    cases hnext
    refine ⟨h.atBoot, fun timestamp tick hset => ?_, fun ms tick htotal => ?_⟩
    · have hold := h.set timestamp tick hset
      exact ⟨hold.adjust, hold.set, hold.period, hold.fits, hold.lastGet⟩
    · cases htotal
      exact ⟨UInt32.le_refl _, ⟨rfl, id⟩, rfl⟩

/-- Between two ticks of one period all are of it. -/
theorem period_between {tick before later : UInt32} (hafter : tick ≤ before)
    (hle : before ≤ later) (hperiod : period tick = period later) :
    period tick = period before :=
  Nat.le_antisymm (period_mono hafter) (hperiod ▸ period_mono hle)

theorem toNat_ofInt64 {x : Int} (hpos : 0 ≤ x) (hlt : x < 2 ^ 64) :
    ((UInt64.ofInt x).toNat : Int) = x := by
  rw [UInt64.ofInt, UInt64.toNat_ofNat', Int.emod_eq_of_lt hpos hlt]
  omega

theorem toNat_ofInt64_neg {x : Int} (hneg : x < 0) (hlt : - 2 ^ 64 ≤ x) :
    ((UInt64.ofInt x).toNat : Int) = x + 2 ^ 64 := by
  have hmod : x % 2 ^ 64 = x + 2 ^ 64 := by omega
  rw [UInt64.ofInt, UInt64.toNat_ofNat', hmod]
  omega

theorem ofInt_le_ofInt {x y : Int} (hpos : 0 ≤ x) (hle : x ≤ y) (hlt : y < 2 ^ 32) :
    UInt32.ofInt x ≤ UInt32.ofInt y := by
  have hx := toNat_ofInt hpos (by omega)
  have hy := toNat_ofInt (hpos.trans hle) hlt
  rw [UInt32.le_iff_toNat_le]
  omega

theorem alClockGetTotalMs_eq {clock : AlClock} {boot : UInt32}
    (h : clock.clockAtBoot = 1539772551000 + millis boot) (sysTick : UInt32) :
    alClockGetTotalMs clock sysTick = UInt64.ofInt (millis sysTick - millis boot) := by
  rw [alClockGetTotalMs, utcClockGet_ms, h]
  exact congrArg UInt64.ofInt (by omega)

theorem alClockGetTotalMs_mono {clock : AlClock} {boot tick later : UInt32}
    (h : clock.clockAtBoot = 1539772551000 + millis boot) (htick : tick ≤ later)
    (honward : Onward boot tick later) :
    alClockGetTotalMs clock tick ≤ alClockGetTotalMs clock later := by
  obtain ⟨hperiod, hbehind⟩ := honward
  have hmono := millis_mono htick hperiod
  have hboot := millis_bounds boot
  have hfirst := millis_bounds tick
  have hlast := millis_bounds later
  rw [alClockGetTotalMs_eq h, alClockGetTotalMs_eq h, UInt64.le_iff_toNat_le]
  rcases lt_or_ge (millis tick) (millis boot) with hneg | hpos
  · have hvalue := toNat_ofInt64_neg (x := millis tick - millis boot) (by omega) (by omega)
    have hlater := toNat_ofInt64_neg (x := millis later - millis boot)
      (by have := hbehind hneg; omega) (by omega)
    omega
  · have hvalue := toNat_ofInt64 (x := millis tick - millis boot) (by omega) (by omega)
    have hlater := toNat_ofInt64 (x := millis later - millis boot) (by omega) (by omega)
    omega

theorem keepsTime_of_inv {w : World} (h : Inv w) : KeepsTime w where
  near timestamp tick hset := by
    have hold := h.set timestamp tick hset
    exact (isNear_iff hold.adjust hold.set hold.fits).mpr hold.period
  forward hset time htime := by
    obtain ⟨⟨timestamp, tick⟩, hset⟩ := Option.isSome_iff_exists.mp hset
    have hold := h.set timestamp tick hset
    obtain ⟨before, hafter, hle, rfl⟩ := hold.lastGet time htime
    have hperiod := period_between hafter hle hold.period
    rw [alClockGet_eq, alClockGet_eq]
    exact ofInt_le_ofInt (seconds_nonneg hold.adjust hafter hperiod)
      (seconds_mono w.clock hle (hperiod.symm.trans hold.period))
      (seconds_lt hold.adjust hold.period hold.fits)
  totalForward ms tick htotal := by
    obtain ⟨hle, honward, rfl⟩ := h.total ms tick htotal
    exact alClockGetTotalMs_mono h.atBoot hle honward

theorem keepsTime {boot : UInt32} {calls : List Call} {w : World}
    (hrun : Run step Calm (start boot) calls w) : KeepsTime w :=
  keepsTime_of_inv (hrun.invariant (inv_start boot) fun _ _ _ h hcalm hnext => h.step hcalm hnext)

/-- The time is set when the first end of a `long` has been passed. -/
def setLate : List Call :=
  [.get, .wait 2147484, .set 10000 0x1280, .get, .totalMs, .wait 140000, .get, .totalMs]

instance (boot tick sysTick : UInt32) : Decidable (Onward boot tick sysTick) :=
  inferInstanceAs (Decidable (_ ∧ _))

instance (w : World) : (call : Call) → Decidable (Calm w call)
  | .wait _ => @instDecidableAnd _ _ (Option.decidableForallMem _) (Option.decidableForallMem _)
  | .set .. => inferInstanceAs (Decidable (Fits ..))
  | .resetSrc | .get | .totalMs => .isTrue trivial

theorem keepsTime_setLate :
    ∃ w, exec step (start 0) setLate = some w ∧ w.lastGet = some 10140 ∧ KeepsTime w := by
  have hexec : (exec (guarded step fun w call => decide (Calm w call)) (start 0) setLate).any
      fun w => decide (w.lastGet = some 10140) := by
    decide
  obtain ⟨w, hw, hread⟩ := (Option.any_eq_true _ _).mp hexec
  have hrun := (Run.of_exec_guarded hw).mono fun _ _ h => of_decide_eq_true h
  exact ⟨w, hrun.exec_eq, of_decide_eq_true hread, keepsTime hrun⟩

/-- A time set at the start by the highest of the sources. -/
def setAtStart : World :=
  { start 0 with
    clock := { alClockInit 0 with
      gvClockSrc := 0x1280, clockOfAdjust := 10000 * 1000 - 1539772551000 }
    lastSet := some (10000, 0) }

theorem run_setAtStart {allowed : World → Call → Prop}
    (h : allowed (start 0) (.set 10000 0x1280)) :
    Run step allowed (start 0) [.set 10000 0x1280] setAtStart :=
  Run.nil.snoc h rfl

theorem run_read {allowed : World → Call → Prop} (h : allowed (start 0) (.set 10000 0x1280))
    (hget : allowed setAtStart .get) :
    Run step allowed (start 0) [.set 10000 0x1280, .get]
      { setAtStart with lastGet := some 10000 } :=
  (run_setAtStart h).snoc hget rfl

theorem step_wait {w : World} {ms : UInt32} (h : w.sysTick.toNat + ms.toNat < 2 ^ 32) :
    step w (.wait ms) = some { w with sysTick := w.sysTick + ms } :=
  if_pos h

/-- After 2147 seconds the time falls back by 4294 seconds. -/
theorem afterHalfHour_back :
    ∃ w, Run step anyStep (start 0) [.set 10000 0x1280, .get, .wait 2147484] w ∧
      w.lastGet = some 10000 ∧ (alClockGet w.clock w.sysTick).1 = 7853 ∧ ¬ KeepsTime w := by
  have hwait : Run step anyStep (start 0) [.set 10000 0x1280, .get, .wait 2147484]
      { setAtStart with sysTick := 0 + 2147484, lastGet := some 10000 } :=
    (run_read trivial trivial).snoc trivial (step_wait (by decide))
  have hback : (alClockGet setAtStart.clock (0 + 2147484)).1 = 7853 := by decide
  refine ⟨_, hwait, rfl, hback, fun hkeeps => ?_⟩
  have hforward := hkeeps.forward rfl 10000 rfl
  rw [hback] at hforward
  exact absurd hforward (by decide)

end Sv6x66.Ayla.Clock
