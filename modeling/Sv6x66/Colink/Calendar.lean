import Sv6x66.Lib.Gregorian
import Sv6x66.Colink.TimerText

/-! `second_to_date` of `mytime.c` and its way back. The year is guessed by a division by
365 and corrected by the number of leap days before it; every `int` stays far from its
bounds. -/
namespace Sv6x66.Colink.Calendar
open Sv6x66.Lib.CString
open Sv6x66.Lib.Gregorian
open Sv6x66.Colink.MinTime
open Sv6x66.Colink.TimerText

/-- `day_month[i]`, with no value outside of the table. -/
def dayMonthAt (i : Int) : Option Int := if i < 0 then none else dayMonth[i.toNat]?

/-- `date.year` and what is left of `day`, counted from 0. -/
def yearAndDay (day : Int) : UInt16 × Int :=
  let i := 1970 + day.tdiv 365
  let day := day - year366Num (1969 + day.tdiv 365)
  let year := UInt16.ofInt (1970 + day.tdiv 365)
  let day := day.tmod 365
  (year, if isMon2Day year.toNat ≠ 0 ∧ i ≠ year.toNat then day + 1 else day)

/-- `date.mon` and `date.day`; `value` is `IS_MON2DAY` of the year. -/
def monthAndDay (value : Nat) (day : Int) : Option (UInt8 × UInt8) := do
  let i := dayMonth.findIdx fun days => day < days
  let mon := UInt8.ofNat i
  let day := day - (← dayMonthAt (i - 1))
  let day := if i > 2 ∧ value ≠ 0 then day - 1 else day
  if day < 0 then
    let mon := mon - 1
    let day := day + ((← dayMonthAt mon.toNat) - (← dayMonthAt (mon.toNat - 1)))
    let day := if mon = 2 then day + 1 else day
    return (mon, UInt8.ofInt (day + 1))
  else
    return (mon, UInt8.ofInt (day + 1))

def secondToDate (second : UInt32) : Option MyDateTime := do
  let value := second.toNat % daySecond
  let hour := UInt8.ofNat (value / 3600)
  let value := value % 3600
  let min := UInt8.ofNat (value / 60)
  let sec := UInt8.ofNat (value % 60)
  let day : Int := (second.toNat / daySecond : Nat)
  let wday := UInt8.ofInt ((day + week197011).tmod 7)
  let (year, day) := yearAndDay day
  let (mon, day) ← monthAndDay (isMon2Day year.toNat) day
  return ⟨year, mon, day, hour, min, sec, wday⟩

/-- The date and time of a second in UTC. 1970-01-01 was a Thursday. -/
structure IsUtc (second : UInt32) (date : MyDateTime) : Prop where
  year : date.year.toNat = (dateOf 1970 (second.toNat / daySecond)).year
  mon : date.mon.toNat = (dateOf 1970 (second.toNat / daySecond)).month
  day : date.day.toNat = (dateOf 1970 (second.toNat / daySecond)).day
  hour : date.hour.toNat < 24
  min : date.min.toNat < 60
  sec : date.sec.toNat < 60
  time : date.hour.toNat * 3600 + date.min.toNat * 60 + date.sec.toNat =
    second.toNat % daySecond
  wday : date.wday.toNat = (4 + second.toNat / daySecond) % 7

theorem isMon2Day_eq (year : Nat) : isMon2Day year = if isLeap year then 1 else 0 := by
  unfold isMon2Day isLeap
  by_cases h4 : year % 4 = 0
  · by_cases h100 : year % 100 = 0
    · by_cases h400 : year % 400 = 0 <;> simp [h4, h100, h400]
    · simp [h4, h100]
  · simp [h4]

/-! ### The month -/

theorem monthAndDay_spec (leap : Bool) (month : Fin 13) (day : Fin 32)
    (hmonth : 1 ≤ month.val) (hday : 1 ≤ day.val) (hlast : day.val ≤ monthLength leap month) :
    monthAndDay (if leap then 1 else 0)
        ((daysOfMonths leap (month - 1) + (day - 1) : Nat) : Int) =
      some (UInt8.ofNat month, UInt8.ofNat day) := by
  revert leap month day
  decide +kernel

/-! ### The year -/

theorem div_succ (n d : Nat) :
    (n + 1) / d = n / d + if (n + 1) % d = 0 then 1 else 0 := by
  rw [Nat.succ_div]
  simp only [Nat.dvd_iff_mod_eq_zero]

/-- The days of the first years since 1970. -/
theorem daysOfYears_1970 (years : Nat) :
    daysOfYears 1970 years + (years + 69) / 100 =
      365 * years + (years + 1) / 4 + (years + 369) / 400 := by
  induction years with
  | zero => rfl
  | succ years ih =>
    have h4 : (years + 1 + 1) % 4 = 0 ↔ (1970 + years) % 4 = 0 := by omega
    have h100 : (years + 69 + 1) % 100 = 0 ↔ (1970 + years) % 100 = 0 := by omega
    have h400 : (years + 369 + 1) % 400 = 0 ↔ (1970 + years) % 400 = 0 := by omega
    have h4of100 : (1970 + years) % 100 = 0 → (1970 + years) % 4 = 0 := by omega
    have h100of400 : (1970 + years) % 400 = 0 → (1970 + years) % 100 = 0 := by omega
    rw [daysOfYears, show years + 1 + 69 = years + 69 + 1 by omega,
      show years + 1 + 369 = years + 369 + 1 by omega, div_succ _ 4,
      div_succ _ 100, div_succ _ 400]
    simp only [h4, h100, h400, yearLength, isLeap, decide_eq_true_eq]
    generalize daysOfYears 1970 years = days at *
    generalize (years + 69) / 100 = centuries at *
    generalize (years + 1) / 4 = fours at *
    generalize (years + 369) / 400 = eras at *
    split_ifs <;> omega

theorem year366Num_1969 (years : Nat) :
    year366Num (1969 + years) = (daysOfYears 1970 years : Int) - 365 * years := by
  have h4 : (1969 + years - 1968 : Int) = (years + 1 : Nat) := by omega
  have h100 : (1969 + years - 1900 : Int) = (years + 69 : Nat) := by omega
  have h400 : (1969 + years - 1600 : Int) = (years + 369 : Nat) := by omega
  have hdays := daysOfYears_1970 years
  unfold year366Num
  rw [h4, h100, h400, Int.tdiv_eq_ediv_of_nonneg (Int.natCast_nonneg _),
    Int.tdiv_eq_ediv_of_nonneg (Int.natCast_nonneg _),
    Int.tdiv_eq_ediv_of_nonneg (Int.natCast_nonneg _)]
  omega

theorem tdiv_natCast (n : Nat) : (n : Int).tdiv 365 = (n / 365 : Nat) := rfl

theorem tmod_natCast (n : Nat) : (n : Int).tmod 365 = (n % 365 : Nat) := rfl

theorem year_toNat {years : Nat} (hyears : years ≤ 136) :
    (UInt16.ofInt (1970 + (years : Int))).toNat = 1970 + years := by
  unfold UInt16.ofInt
  rw [UInt16.toNat_ofNat']
  omega

/-- Where the division by 365 guesses the next year, the leap day of this one is taken off
too early and put back. -/
theorem yearAndDay_spec {years day : Nat} (hyears : years ≤ 136)
    (hday : day < yearLength (isLeap (1970 + years))) :
    yearAndDay ((daysOfYears 1970 years + day : Nat) : Int) =
      (UInt16.ofInt (1970 + (years : Int)), (day : Int)) := by
  obtain ⟨hlow, hhigh⟩ := daysOfYears_bounds 1970 years
  have hvalue := isMon2Day_eq (1970 + years)
  have hlength : yearLength (isLeap (1970 + years)) =
      365 + isMon2Day (1970 + years) := by
    rw [hvalue]
    cases isLeap (1970 + years) <;> rfl
  have hle : isMon2Day (1970 + years) ≤ 1 := by
    rw [hvalue]
    split <;> decide
  rw [hlength] at hday
  generalize hguess : (daysOfYears 1970 years + day) / 365 = guess
  -- the day with the leap days of the guessed years taken off
  obtain ⟨rest, hrest, hdays, hback⟩ : ∃ rest < 365,
      ((daysOfYears 1970 years + day : Nat) : Int) - year366Num (1969 + guess) =
        ((365 * years + rest : Nat) : Int) ∧
      (if isMon2Day (1970 + years) ≠ 0 ∧ guess ≠ years then rest + 1 else rest) = day := by
    rw [year366Num_1969]
    have hcases : guess = years ∨ guess = years + 1 := by omega
    rcases hcases with rfl | rfl
    · refine ⟨day, by omega, by omega, ?_⟩
      rw [if_neg fun h => h.2 rfl]
    · refine ⟨day - isMon2Day (1970 + years), by omega, ?_, ?_⟩
      · rw [daysOfYears, hlength]
        omega
      · split_ifs <;> omega
  unfold yearAndDay
  dsimp only
  rw [tdiv_natCast, hguess, hdays, tdiv_natCast, tmod_natCast,
    Nat.mul_add_div (by decide), Nat.div_eq_of_lt hrest, Nat.add_zero, Nat.mul_add_mod,
    Nat.mod_eq_of_lt hrest, year_toNat hyears]
  rw [Prod.mk.injEq]
  refine ⟨rfl, ?_⟩
  rw [← hback]
  have hsame : (1970 + (guess : Int) ≠ ((1970 + years : Nat) : Int)) ↔ guess ≠ years := by omega
  simp only [hsame]
  split <;> rfl

/-! ### The whole date -/

/-- The day number of a 32-bit second. -/
theorem days_lt (second : UInt32) : second.toNat / daySecond < 49711 := by
  have := second.toNat_lt
  unfold daySecond
  omega

theorem year_lt (second : UInt32) : (dateOf 1970 (second.toNat / daySecond)).year < 2107 := by
  have hnumber := number_dateOf 1970 (second.toNat / daySecond)
  have hdays := days_lt second
  obtain ⟨hlow, -⟩ := daysOfYears_bounds 1970
    ((dateOf 1970 (second.toNat / daySecond)).year - 1970)
  unfold Date.number at hnumber
  omega

theorem toNat_ofNat_byte {n : Nat} (hn : n < 2 ^ 8) : (UInt8.ofNat n).toNat = n := by
  rw [UInt8.toNat_ofNat', Nat.mod_eq_of_lt hn]

/-- The parts of the date that `second_to_date` computes. -/
theorem secondToDate_eq (second : UInt32) :
    secondToDate second = some
      { year := UInt16.ofNat (dateOf 1970 (second.toNat / daySecond)).year
        mon := UInt8.ofNat (dateOf 1970 (second.toNat / daySecond)).month
        day := UInt8.ofNat (dateOf 1970 (second.toNat / daySecond)).day
        hour := UInt8.ofNat (second.toNat % daySecond / 3600)
        min := UInt8.ofNat (second.toNat % daySecond % 3600 / 60)
        sec := UInt8.ofNat (second.toNat % daySecond % 3600 % 60)
        wday := UInt8.ofNat ((4 + second.toNat / daySecond) % 7) } := by
  have hnumber := number_dateOf 1970 (second.toNat / daySecond)
  have hepoch := le_year_dateOf 1970 (second.toNat / daySecond)
  have hlt := year_lt second
  unfold secondToDate
  generalize second.toNat / daySecond = days at *
  generalize second.toNat % daySecond = rest
  generalize dateOf 1970 days = date at *
  have hyears : date.year - 1970 ≤ 136 := by omega
  have hyear : 1970 + (date.year - 1970) = date.year := Nat.add_sub_cancel' hepoch
  have hdate : yearAndDay (days : Int) = (UInt16.ofNat date.year, (date.dayOfYear : Int)) := by
    have hparts := yearAndDay_spec hyears (hyear.symm ▸ date.dayOfYear_lt)
    have hofInt : UInt16.ofInt (1970 + ((date.year - 1970 : Nat) : Int)) =
        UInt16.ofNat date.year := by
      rw [← UInt16.toNat_inj, year_toNat hyears, hyear, UInt16.toNat_ofNat',
        Nat.mod_eq_of_lt (by omega)]
    rw [← hnumber]
    exact hparts.trans (by rw [hofInt])
  have hmonth : monthAndDay (isMon2Day date.year) (date.dayOfYear : Int) =
      some (UInt8.ofNat date.month, UInt8.ofNat date.day) := by
    rw [isMon2Day_eq]
    exact monthAndDay_spec (isLeap date.year) ⟨date.month, Nat.lt_succ_of_le date.month_le⟩
      ⟨date.day, Nat.lt_succ_of_le (date.day_le.trans (monthLength_le _ _))⟩
      date.one_le_month date.one_le_day date.day_le
  have hword : (UInt16.ofNat date.year).toNat = date.year := by
    rw [UInt16.toNat_ofNat', Nat.mod_eq_of_lt (by omega)]
  have hwday : UInt8.ofInt (((days : Int) + week197011).tmod 7) =
      UInt8.ofNat ((4 + days) % 7) := by
    have hcast : ((days : Int) + week197011).tmod 7 = ((days + 4) % 7 : Nat) := rfl
    rw [hcast, Nat.add_comm, ← UInt8.toNat_inj, UInt8.ofInt, UInt8.toNat_ofNat',
      UInt8.toNat_ofNat']
    omega
  simp only [hdate, hword, hmonth, hwday]
  rfl

theorem isUtc_secondToDate {second : UInt32} {date : MyDateTime}
    (h : secondToDate second = some date) : IsUtc second date := by
  rw [secondToDate_eq] at h
  cases h
  have hdays := days_lt second
  have hrest : second.toNat % daySecond < 86400 := Nat.mod_lt _ (by decide)
  have hlast := (dateOf 1970 (second.toNat / daySecond)).day_le.trans (monthLength_le _ _)
  have hmonth := (dateOf 1970 (second.toNat / daySecond)).month_le
  have hyear : (dateOf 1970 (second.toNat / daySecond)).year < 2 ^ 16 :=
    (year_lt second).trans (by decide)
  generalize htime : second.toNat % daySecond = rest at *
  have hhour : (UInt8.ofNat (rest / 3600)).toNat = rest / 3600 := toNat_ofNat_byte (by omega)
  have hmin : (UInt8.ofNat (rest % 3600 / 60)).toNat = rest % 3600 / 60 :=
    toNat_ofNat_byte (by omega)
  have hsec : (UInt8.ofNat (rest % 3600 % 60)).toNat = rest % 3600 % 60 :=
    toNat_ofNat_byte (by omega)
  exact
    { year := by rw [UInt16.toNat_ofNat', Nat.mod_eq_of_lt hyear]
      mon := toNat_ofNat_byte (by omega)
      day := toNat_ofNat_byte (by omega)
      hour := by dsimp only; omega
      min := by dsimp only; omega
      sec := by dsimp only; omega
      time := by dsimp only; omega
      wday := toNat_ofNat_byte (by omega) }

/-! ### The way back -/

theorem daysOfMonths_eq (leap : Bool) (month : Fin 13) (hmonth : 1 ≤ month.val) :
    (daysOfMonths leap (month - 1) : Int) = dayMonth.getD (month - 1) 0 +
      (if leap then 1 else 0) + if leap = true ∧ month.val ≤ 2 then -1 else 0 := by
  revert leap month
  decide +kernel

/-- The day number is computed with one leap day too many before March. -/
theorem number_eq (date : Date) (hepoch : 1970 ≤ date.year) :
    (date.number 1970 : Int) = ((date.year : Int) - 1970) * 365 + year366Num date.year +
      dayMonth.getD (date.month - 1) 0 +
      (if isMon2Day date.year ≠ 0 ∧ date.month ≤ 2 then -1 else 0) + ((date.day : Int) - 1) := by
  obtain ⟨years, hyears⟩ := Nat.exists_eq_add_of_le hepoch
  have hleap := year366Num_1969 (years + 1)
  have hmonths := daysOfMonths_eq (isLeap date.year)
    ⟨date.month, Nat.lt_succ_of_le date.month_le⟩ date.one_le_month
  have hyear : (date.year : Int) = 1969 + ((years + 1 : Nat) : Int) := by omega
  have hvalue : isMon2Day date.year ≠ 0 ↔ isLeap date.year = true := by
    rw [isMon2Day_eq]
    cases isLeap date.year <;> decide
  have hlength : (yearLength (isLeap date.year) : Int) =
      365 + if isLeap date.year = true then 1 else 0 := by
    cases isLeap date.year <;> rfl
  have hday := date.one_le_day
  rw [← hyear, daysOfYears, ← hyears] at hleap
  rw [hleap]
  unfold Date.number Date.dayOfYear
  have hback : date.year - 1970 = years := by omega
  simp only [hback, hvalue]
  simp only at hmonths
  push_cast
  rw [hmonths, hlength]
  omega

theorem ofInt_natCast (n : Nat) : UInt32.ofInt (n : Int) = UInt32.ofNat n := by
  rw [← UInt32.toNat_inj, UInt32.ofInt, UInt32.toNat_ofNat', UInt32.toNat_ofNat']
  omega

theorem dateToSecond_of_isUtc {second : UInt32} {date : MyDateTime} (h : IsUtc second date) :
    dateToSecond date = second := by
  have hnumber := number_dateOf 1970 (second.toNat / daySecond)
  have hepoch := le_year_dateOf 1970 (second.toNat / daySecond)
  have hmonth := (dateOf 1970 (second.toNat / daySecond)).one_le_month
  have hmonth' := (dateOf 1970 (second.toNat / daySecond)).month_le
  have hsum := number_eq _ hepoch
  rw [hnumber, ← h.year, ← h.mon, ← h.day] at hsum
  rw [← h.year] at hepoch
  rw [← h.mon] at hmonth hmonth'
  have hvalid : ¬ (date.year.toNat < 1970 ∨ date.mon.toNat < 1 ∨ date.mon.toNat > 12) := by omega
  have hdays : UInt32.ofInt (((date.year.toNat : Int) - 1970) * 365) +
        UInt32.ofInt (year366Num date.year.toNat) +
        UInt32.ofInt (dayMonth.getD (date.mon.toNat - 1) 0) +
        UInt32.ofInt (if isMon2Day date.year.toNat ≠ 0 ∧ date.mon.toNat ≤ 2 then -1 else 0) +
        UInt32.ofInt ((date.day.toNat : Int) - 1) =
      UInt32.ofNat (second.toNat / daySecond) := by
    rw [← ofInt_natCast, hsum]
    simp only [UInt32.ofInt_add]
  have hadjust (value : UInt32) :
      (if isMon2Day date.year.toNat ≠ 0 ∧ date.mon.toNat ≤ 2 then value - 1 else value) =
        value + UInt32.ofInt
          (if isMon2Day date.year.toNat ≠ 0 ∧ date.mon.toNat ≤ 2 then -1 else 0) := by
    split
    · exact UInt32.sub_eq_add_neg _ _
    · exact (UInt32.add_zero _).symm
  unfold dateToSecond
  dsimp only
  rw [if_neg hvalid, hadjust, hdays, h.time, ← UInt32.ofNat_mul, ← UInt32.ofNat_add,
    Nat.div_add_mod', UInt32.ofNat_toNat]

/-! ### The text -/

def twoDigits (n : Nat) : Bytes := [digitByte (n / 10), digitByte (n % 10)]

/-- `YYYY-MM-DDThh:mm:ss`; the separators are `-`, `T` and `:`. -/
def isoText (date : MyDateTime) : Bytes :=
  twoDigits (date.year.toNat / 100) ++ twoDigits (date.year.toNat % 100) ++
    45 :: (twoDigits date.mon.toNat ++ 45 :: (twoDigits date.day.toNat ++
      84 :: (twoDigits date.hour.toNat ++ 58 :: (twoDigits date.min.toNat ++
        58 :: (twoDigits date.sec.toNat ++ [])))))

theorem atoi_twoDigits {n : Nat} (hn : n < 100) {rest : Bytes}
    (hrest : ∀ byte ∈ rest.head?, isDigit byte = false) : atoi (twoDigits n ++ rest) = n := by
  have hdigits : ∀ digit ∈ [n / 10, n % 10], digit < 10 := by
    simp only [List.mem_cons, List.not_mem_nil, or_false, forall_eq_or_imp, forall_eq]
    omega
  have hvalue := atoi_append hdigits hrest
  refine hvalue.trans (congrArg Nat.cast ?_)
  simp only [List.reverse_cons, List.reverse_nil, List.nil_append, List.cons_append,
    Nat.ofDigits_cons, Nat.ofDigits_nil]
  omega

theorem atoi_fourDigits {n : Nat} (hn : n < 10000) {rest : Bytes}
    (hrest : ∀ byte ∈ rest.head?, isDigit byte = false) :
    atoi (twoDigits (n / 100) ++ twoDigits (n % 100) ++ rest) = n := by
  have hdigits : ∀ digit ∈ [n / 100 / 10, n / 100 % 10, n % 100 / 10, n % 100 % 10],
      digit < 10 := by
    simp only [List.mem_cons, List.not_mem_nil, or_false, forall_eq_or_imp, forall_eq]
    omega
  have hvalue := atoi_append hdigits hrest
  refine hvalue.trans (congrArg Nat.cast ?_)
  simp only [List.reverse_cons, List.reverse_nil, List.nil_append, List.cons_append,
    Nat.ofDigits_cons, Nat.ofDigits_nil]
  omega

theorem ofInt_toNat (byte : UInt8) : UInt8.ofInt byte.toNat = byte := by
  have := byte.toNat_lt
  rw [← UInt8.toNat_inj, UInt8.ofInt, UInt8.toNat_ofNat']
  omega

theorem year_ofInt_toNat (year : UInt16) : UInt16.ofInt year.toNat = year := by
  have := year.toNat_lt
  rw [← UInt16.toNat_inj, UInt16.ofInt, UInt16.toNat_ofNat']
  omega

/-- The text is read back field by field. -/
theorem mytimeStrToTime_isoText [AtoiBeyond] {date : MyDateTime} (hyear : date.year.toNat < 10000)
    (hmon : date.mon.toNat < 100) (hday : date.day.toNat < 100) (hhour : date.hour.toNat < 100)
    (hmin : date.min.toNat < 100) (hsec : date.sec.toNat < 100) :
    mytimeStrToTime (isoText date) = some (dateToSecond date) := by
  have hseparator {byte : UInt8} (hbyte : isDigit byte = false) (rest : Bytes) :
      ∀ b ∈ (byte :: rest).head?, isDigit b = false := by
    rintro b ⟨⟩
    exact hbyte
  have hyear' : atoiInt (isoText date) = date.year.toNat :=
    atoiInt_eq (atoi_fourDigits hyear (hseparator rfl _)) (by omega)
  have hmon' : atoiInt ((isoText date).drop 5) = date.mon.toNat :=
    atoiInt_eq (atoi_twoDigits hmon (hseparator rfl _)) (by omega)
  have hday' : atoiInt ((isoText date).drop 8) = date.day.toNat :=
    atoiInt_eq (atoi_twoDigits hday (hseparator rfl _)) (by omega)
  have hhour' : atoiInt ((isoText date).drop 11) = date.hour.toNat :=
    atoiInt_eq (atoi_twoDigits hhour (hseparator rfl _)) (by omega)
  have hmin' : atoiInt ((isoText date).drop 14) = date.min.toNat :=
    atoiInt_eq (atoi_twoDigits hmin (hseparator rfl _)) (by omega)
  have hsec' : atoiInt ((isoText date).drop 17) = date.sec.toNat :=
    atoiInt_eq (atoi_twoDigits hsec (by simp)) (by omega)
  have hlength : (isoText date).length = 19 := rfl
  have htext {offset : Nat} (hoffset : offset ≤ 19) :
      textAt (isoText date) offset = some ((isoText date).drop offset) := textAt_of_le hoffset
  generalize isoText date = text at *
  unfold mytimeStrToTime
  rw [htext (show 5 ≤ 19 by decide), htext (show 8 ≤ 19 by decide),
    htext (show 11 ≤ 19 by decide), htext (show 14 ≤ 19 by decide), htext (show 17 ≤ 19 by decide)]
  show some (dateToSecond ⟨UInt16.ofInt (atoiInt text), UInt8.ofInt (atoiInt (text.drop 5)),
    UInt8.ofInt (atoiInt (text.drop 8)), UInt8.ofInt (atoiInt (text.drop 11)),
    UInt8.ofInt (atoiInt (text.drop 14)), UInt8.ofInt (atoiInt (text.drop 17)), 0⟩) = _
  rw [hyear', hmon', hday', hhour', hmin', hsec', year_ofInt_toNat, ofInt_toNat, ofInt_toNat,
    ofInt_toNat, ofInt_toNat, ofInt_toNat]
  rfl

/-- The date of a 32-bit second is the Gregorian one, and both ways back lead to it. -/
theorem calendar_roundTrip [AtoiBeyond] (second : UInt32) :
    ∃ date, secondToDate second = some date ∧ IsUtc second date ∧
      dateToSecond date = second ∧ mytimeStrToTime (isoText date) = some second := by
  obtain ⟨date, hdate⟩ : ∃ date, secondToDate second = some date := ⟨_, secondToDate_eq second⟩
  have hutc := isUtc_secondToDate hdate
  have hsecond := dateToSecond_of_isUtc hutc
  refine ⟨date, hdate, hutc, hsecond, ?_⟩
  have hmon := hutc.mon.trans_le (dateOf 1970 (second.toNat / daySecond)).month_le
  have hday := hutc.day.trans_le
    ((dateOf 1970 (second.toNat / daySecond)).day_le.trans (monthLength_le _ _))
  rw [mytimeStrToTime_isoText ((hutc.year.trans_lt (year_lt second)).trans (by decide))
    (by omega) (by omega) (hutc.hour.trans (by decide)) (hutc.min.trans (by decide))
    (hutc.sec.trans (by decide)), hsecond]

example : secondToDate 951782400 = some ⟨2000, 2, 29, 0, 0, 0, 2⟩ := by
  decide +kernel

end Sv6x66.Colink.Calendar
