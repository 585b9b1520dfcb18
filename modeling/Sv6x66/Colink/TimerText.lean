import Sv6x66.Lib.CString
import Sv6x66.Colink.MinTime

/-! The texts of a timer entry: the date of `at`, the cron line of a `repeat`
timer and the two numbers behind the date of a `duration` timer. The parsers
jump to fixed places of the text; where one of them leaves the text, or an
operation is not defined, there is no result. -/
namespace Sv6x66.Colink.TimerText
open Sv6x66.Lib.CString
open Sv6x66.Colink.MinTime

structure MyDateTime where
  year : UInt16
  mon : UInt8
  day : UInt8
  hour : UInt8
  min : UInt8
  sec : UInt8
  wday : UInt8
deriving DecidableEq, Repr

def dayMonth : List Int := [0, 31, 59, 90, 120, 151, 181, 212, 243, 273, 304, 334, 365]

def isMon2Day (n : Nat) : Nat :=
  if n % 4 ≠ 0 then 0 else if n % 100 ≠ 0 then 1 else if n % 400 ≠ 0 then 0 else 1

def year366Num (n : Int) : Int :=
  (n - 1968).tdiv 4 - (n - 1900).tdiv 100 + (n - 1600).tdiv 400

/-- `value` is an `unsigned int` all the way: what is added is converted first. -/
def dateToSecond (date : MyDateTime) : UInt32 :=
  let year := date.year.toNat
  let mon := date.mon.toNat
  if year < 1970 ∨ mon < 1 ∨ mon > 12 then 0
  else
    let value := UInt32.ofInt (((year : Int) - 1970) * 365)
    let value := value + UInt32.ofInt (year366Num year)
    let value := value + UInt32.ofInt (dayMonth.getD (mon - 1) 0)
    let value := if isMon2Day year ≠ 0 ∧ mon ≤ 2 then value - 1 else value
    let value := value + UInt32.ofInt ((date.day.toNat : Int) - 1)
    let value := value * UInt32.ofNat daySecond
    value + UInt32.ofNat (date.hour.toNat * 3600 + date.min.toNat * 60 + date.sec.toNat)

/-- `text + offset`, which may point at the NUL but not behind it. -/
def textAt (text : Bytes) (offset : Nat) : Option Bytes :=
  if offset ≤ text.length then some (text.drop offset) else none

section

variable [AtoiBeyond]

def mytimeStrToTime (timestr : Bytes) : Option UInt32 := do
  let year := UInt16.ofInt (atoiInt timestr)
  let mon := UInt8.ofInt (atoiInt (← textAt timestr 5))
  let day := UInt8.ofInt (atoiInt (← textAt timestr 8))
  let hour := UInt8.ofInt (atoiInt (← textAt timestr 11))
  let min := UInt8.ofInt (atoiInt (← textAt timestr 14))
  let sec := UInt8.ofInt (atoiInt (← textAt timestr 17))
  return dateToSecond ⟨year, mon, day, hour, min, sec, 0⟩

def mytimeStrDuration : Bytes → UInt16
  | [] => 0
  | byte :: rest => if byte.toNat = 0x20 then UInt16.ofInt (atoiInt rest) else mytimeStrDuration rest

/-- The members `min` and `hour` while they may still be unassigned. -/
structure CronHead where
  min : Option UInt8
  hour : Option UInt8
deriving DecidableEq, Repr

/-- The first loop of `mytime_str_repeat`, with the text at `p`, the text at `p1`
and whether `p1` still is `cronstr`; the result has the text at which it stops. -/
def cronHead : (p p1 : Bytes) → (atStart : Bool) → CronHead → Option (Bytes × CronHead)
  | [], _, _, cron => some ([], cron)
  | byte :: rest, p1, atStart, cron =>
    if byte.toNat = 0x20 then
      let value := UInt8.ofInt (atoiInt p1)
      cronHead rest rest false
        (if atStart then { cron with min := some value } else { cron with hour := some value })
    else if byte.toNat = 42 then (textAt (byte :: rest) 4).map (·, cron)
    else cronHead rest p1 atStart cron

/-- `1 << atoi(p1)`, as far as `week_bit` keeps it. -/
def weekBit (p1 : Bytes) : Option UInt8 :=
  let day := atoiInt p1
  if 0 ≤ day ∧ day < 32 then some (UInt8.ofNat (2 ^ day.toNat)) else none

/-- The second loop of `mytime_str_repeat` and the bit behind it. -/
def weekBits : (p p1 : Bytes) → UInt8 → Option UInt8
  | [], p1, bits => (weekBit p1).map (bits ||| ·)
  | byte :: rest, p1, bits =>
    if byte.toNat = 44 then do weekBits rest rest (bits ||| (← weekBit p1))
    else weekBits rest p1 bits

/-- A member that was not assigned has no value. -/
def mytimeStrRepeat (cronstr : Bytes) : Option CronLite := do
  let (p, cron) ← cronHead cronstr cronstr true ⟨none, none⟩
  let bits ← weekBits p p 0
  return ⟨← cron.hour, ← cron.min, 0, bits⟩

end

/-- The word that overlays a `cron_lite` in `colink_app_timer`. -/
def cronWord (cron : CronLite) : UInt32 :=
  UInt32.ofNat (cron.hour.toNat + 2 ^ 8 * cron.min.toNat + 2 ^ 16 * cron.sec.toNat +
    2 ^ 24 * cron.weekBit.toNat)

/-- What is written through `cron` is read back through it. -/
theorem cron_cronWord (cron : CronLite) (t : ColinkAppTimer) (h : t.atTime = cronWord cron) :
    t.cron = cron := by
  have hhour := cron.hour.toNat_lt
  have hmin := cron.min.toNat_lt
  have hsec := cron.sec.toNat_lt
  have hweek := cron.weekBit.toNat_lt
  have hword : (cronWord cron).toNat = cron.hour.toNat + 2 ^ 8 * cron.min.toNat +
      2 ^ 16 * cron.sec.toNat + 2 ^ 24 * cron.weekBit.toNat := by
    unfold cronWord
    rw [UInt32.toNat_ofNat', Nat.mod_eq_of_lt (by omega)]
  unfold ColinkAppTimer.cron
  rw [h]
  cases cron with
  | mk hour min sec weekBit =>
    simp only [CronLite.mk.injEq, ← UInt8.toNat_inj, UInt32.toNat_toUInt8,
      UInt32.toNat_shiftRight, hword, Nat.shiftRight_eq_div_pow]
    simp only at hhour hmin hsec hweek
    refine ⟨?_, ?_, ?_, ?_⟩
    · omega
    · change _ / 2 ^ 8 % 2 ^ 8 = _
      omega
    · change _ / 2 ^ 16 % 2 ^ 8 = _
      omega
    · change _ / 2 ^ 24 % 2 ^ 8 = _
      omega

theorem textAt_of_le {text : Bytes} {offset : Nat} (h : offset ≤ text.length) :
    textAt text offset = some (text.drop offset) := if_pos h

/-- The date is read up to its seconds, and no farther. -/
theorem mytimeStrToTime_isSome [AtoiBeyond] {timestr : Bytes} :
    (mytimeStrToTime timestr).isSome ↔ 17 ≤ timestr.length := by
  unfold mytimeStrToTime
  by_cases hlength : 17 ≤ timestr.length
  · simp [textAt_of_le (show 5 ≤ timestr.length by omega),
      textAt_of_le (show 8 ≤ timestr.length by omega),
      textAt_of_le (show 11 ≤ timestr.length by omega),
      textAt_of_le (show 14 ≤ timestr.length by omega), textAt_of_le hlength, hlength]
  · have hnone : textAt timestr 17 = none := if_neg hlength
    simp [hnone, hlength]

local instance : AtoiBeyond := saturating

example : mytimeStrToTime (ofString "2018-10-08T05:46:00.000Z") = some 1538977560 := by
  decide

example : mytimeStrRepeat (ofString "59 8 * * 1,3,5,6") = some ⟨8, 59, 0, 0b1101010⟩ := by
  decide

end Sv6x66.Colink.TimerText
