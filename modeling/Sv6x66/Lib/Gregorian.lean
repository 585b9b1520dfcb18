import Mathlib.Logic.Function.Iterate
import Mathlib.Tactic

/-! The proleptic Gregorian calendar: its dates, the day after a date, and the days counted
from the first of January of a year. -/
namespace Sv6x66.Lib.Gregorian

def isLeap (year : Nat) : Bool := year % 4 = 0 ∧ (year % 100 ≠ 0 ∨ year % 400 = 0)

def monthLength (leap : Bool) : Nat → Nat
  | 2 => if leap then 29 else 28
  | 4 | 6 | 9 | 11 => 30
  | _ => 31

def yearLength (leap : Bool) : Nat := if leap then 366 else 365

structure Date where
  year : Nat
  month : Nat
  day : Nat
  one_le_month : 1 ≤ month
  month_le : month ≤ 12
  one_le_day : 1 ≤ day
  day_le : day ≤ monthLength (isLeap year) month

theorem one_le_monthLength (leap : Bool) (month : Nat) : 1 ≤ monthLength leap month := by
  unfold monthLength
  split
  · split <;> decide
  all_goals decide

theorem monthLength_le (leap : Bool) (month : Nat) : monthLength leap month ≤ 31 := by
  unfold monthLength
  split
  · split <;> decide
  all_goals decide

/-- The first of a month. -/
def firstOf (year month : Nat) (one_le_month : 1 ≤ month) (month_le : month ≤ 12) : Date where
  year := year
  month := month
  day := 1
  one_le_month := one_le_month
  month_le := month_le
  one_le_day := le_refl 1
  day_le := one_le_monthLength _ _

def newYear (year : Nat) : Date := firstOf year 1 (by decide) (by decide)

def Date.next (date : Date) : Date :=
  if hday : date.day < monthLength (isLeap date.year) date.month then
    { date with
      day := date.day + 1
      one_le_day := Nat.le_add_left 1 date.day
      day_le := hday }
  else if hmonth : date.month < 12 then
    firstOf date.year (date.month + 1) (Nat.le_add_left 1 date.month) hmonth
  else newYear (date.year + 1)

/-- The date `n` days after the first of January of `epoch`. -/
def dateOf (epoch n : Nat) : Date := Date.next^[n] (newYear epoch)

/-! ### The number of a day -/

/-- The length of the first months of a year together. -/
def daysOfMonths (leap : Bool) : Nat → Nat
  | 0 => 0
  | month + 1 => daysOfMonths leap month + monthLength leap (month + 1)

/-- The length of the years from `epoch` on together. -/
def daysOfYears (epoch : Nat) : Nat → Nat
  | 0 => 0
  | years + 1 => daysOfYears epoch years + yearLength (isLeap (epoch + years))

/-- Counted from 0. -/
def Date.dayOfYear (date : Date) : Nat :=
  daysOfMonths (isLeap date.year) (date.month - 1) + (date.day - 1)

def Date.number (epoch : Nat) (date : Date) : Nat :=
  daysOfYears epoch (date.year - epoch) + date.dayOfYear

@[simp] theorem daysOfMonths_zero (leap : Bool) : daysOfMonths leap 0 = 0 := rfl

theorem daysOfMonths_year (leap : Bool) : daysOfMonths leap 12 = yearLength leap := by
  cases leap <;> rfl

theorem daysOfMonths_mono (leap : Bool) : Monotone (daysOfMonths leap) :=
  monotone_nat_of_le_succ fun _ => Nat.le_add_right _ _

theorem daysOfYears_bounds (epoch years : Nat) :
    365 * years ≤ daysOfYears epoch years ∧ daysOfYears epoch years ≤ 366 * years := by
  induction years with
  | zero => exact ⟨le_refl _, le_refl _⟩
  | succ years ih =>
    have hlength : 365 ≤ yearLength (isLeap (epoch + years)) ∧
        yearLength (isLeap (epoch + years)) ≤ 366 := by
      cases isLeap (epoch + years) <;> decide
    rw [daysOfYears]
    omega

theorem Date.daysOfMonths_month (date : Date) :
    daysOfMonths (isLeap date.year) date.month =
      daysOfMonths (isLeap date.year) (date.month - 1) +
        monthLength (isLeap date.year) date.month := by
  have hmonth : date.month - 1 + 1 = date.month := Nat.sub_add_cancel date.one_le_month
  rw [← hmonth]
  rfl

theorem Date.dayOfYear_lt (date : Date) : date.dayOfYear < yearLength (isLeap date.year) := by
  have hmonths := daysOfMonths_mono (isLeap date.year) date.month_le
  have hmonth := date.daysOfMonths_month
  have hday := date.day_le
  have hday' := date.one_le_day
  rw [daysOfMonths_year] at hmonths
  unfold dayOfYear
  omega

theorem Date.le_year_next (date : Date) : date.year ≤ date.next.year := by
  unfold next
  split
  · exact le_refl _
  split
  · exact le_refl _
  · exact Nat.le_succ _

theorem Date.number_next {epoch : Nat} {date : Date} (hepoch : epoch ≤ date.year) :
    date.next.number epoch = date.number epoch + 1 := by
  have hmonth := date.daysOfMonths_month
  have hday := date.one_le_day
  have hday' := date.day_le
  unfold next
  split
  · unfold number dayOfYear
    dsimp only
    omega
  rename_i hlast
  split
  · unfold number dayOfYear firstOf
    simp only [Nat.add_sub_cancel]
    omega
  · rename_i hdecember
    have htwelve : date.month = 12 := le_antisymm date.month_le (not_lt.mp hdecember)
    have hyears : date.year + 1 - epoch = date.year - epoch + 1 := Nat.sub_add_comm hepoch
    have hyear := daysOfMonths_year (isLeap date.year)
    rw [htwelve] at hmonth hday' hlast
    unfold number dayOfYear newYear firstOf
    dsimp only
    rw [hyears, daysOfYears, Nat.add_sub_cancel' hepoch, htwelve]
    simp only [Nat.sub_self, daysOfMonths_zero]
    omega

theorem le_year_dateOf (epoch n : Nat) : epoch ≤ (dateOf epoch n).year := by
  induction n with
  | zero => exact le_refl epoch
  | succ n ih =>
    unfold dateOf at *
    rw [Function.iterate_succ_apply']
    exact ih.trans (Date.le_year_next _)

/-- The date `n` days after the first of January has the number `n`. -/
theorem number_dateOf (epoch n : Nat) : (dateOf epoch n).number epoch = n := by
  induction n with
  | zero => simp [dateOf, newYear, firstOf, Date.number, Date.dayOfYear, daysOfYears]
  | succ n ih =>
    have hepoch := le_year_dateOf epoch n
    unfold dateOf at *
    rw [Function.iterate_succ_apply', Date.number_next hepoch, ih]

end Sv6x66.Lib.Gregorian
