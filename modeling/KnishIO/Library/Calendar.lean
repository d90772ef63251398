import Mathlib.Algebra.BigOperators.Intervals
import Mathlib.Tactic

namespace Calendar

/-- Leap years of the proleptic Gregorian calendar. -/
def isLeap (year : Int) : Bool := year % 4 = 0 && (year % 100 ≠ 0 || year % 400 = 0)

def yearLength (year : Int) : Int := if isLeap year then 366 else 365

def monthLength (year : Int) (month : Nat) : Nat :=
  if month = 2 then if isLeap year then 29 else 28
  else if month = 4 ∨ month = 6 ∨ month = 9 ∨ month = 11 then 30
  else 31

theorem monthLength_le (year : Int) (month : Nat) : monthLength year month ≤ 31 := by
  unfold monthLength
  split_ifs <;> omega

/-- The days from the start of 1970 to the start of a year; negative before 1970. -/
def daysToYear (year : Int) : Int :=
  if 1970 ≤ year then ∑ i ∈ Finset.range (year - 1970).toNat, yearLength (1970 + i)
  else -∑ i ∈ Finset.range (1970 - year).toNat, yearLength (1969 - i)

/-- The number of a day. -/
def dayNumber (year : Int) (month day : Nat) : Int :=
  daysToYear year + (∑ m ∈ Finset.Ico 1 month, monthLength year m : Nat) + (day - 1)

/-- The days of the years from year 1 on, up to the end of a year. -/
def daysThrough (year : Int) : Int := 365 * year + year / 4 - year / 100 + year / 400

theorem daysThrough_sub (year : Int) : daysThrough year - daysThrough (year - 1) = yearLength year := by
  simp only [daysThrough, yearLength, isLeap, Bool.and_eq_true, Bool.or_eq_true, decide_eq_true_eq]
  split_ifs <;> omega

theorem sum_yearLength_up (n : Nat) :
    ∑ i ∈ Finset.range n, yearLength (1970 + i) = daysThrough (1970 + n - 1) - daysThrough 1969 := by
  induction n with
  | zero => rfl
  | succ n ih =>
    have hstep := daysThrough_sub (1970 + n)
    rw [Finset.sum_range_succ, ih]
    push_cast
    rw [show (1970 + ((n : Int) + 1) - 1) = 1970 + n by ring]
    omega

theorem sum_yearLength_down (n : Nat) :
    ∑ i ∈ Finset.range n, yearLength (1969 - i) = daysThrough 1969 - daysThrough (1969 - n) := by
  induction n with
  | zero => rfl
  | succ n ih =>
    have hstep := daysThrough_sub (1969 - n)
    rw [Finset.sum_range_succ, ih]
    push_cast
    rw [show (1969 - ((n : Int) + 1)) = 1969 - n - 1 by ring]
    omega

/-- The leap days are counted in closed form. -/
theorem daysToYear_eq (year : Int) : daysToYear year = daysThrough (year - 1) - daysThrough 1969 := by
  rw [daysToYear]
  split_ifs with h
  · rw [sum_yearLength_up, show (1970 + ((year - 1970).toNat : Int) - 1) = year - 1 by omega]
  · rw [sum_yearLength_down, show (1969 - ((1970 - year).toNat : Int)) = year - 1 by omega]
    ring

end Calendar
