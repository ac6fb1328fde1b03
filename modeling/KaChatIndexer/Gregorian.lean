import Mathlib.Algebra.BigOperators.Group.Finset.Basic
import Mathlib.Algebra.BigOperators.Intervals
import Mathlib.Order.Bounds.Basic
import Mathlib.Tactic

/-!
# The Gregorian calendar

Months are numbered from January 1970, backwards too. The first day of a month is counted from the
lengths of the months before it, and a closed form gives it without counting: in a year that begins
in March the leap day comes last.
-/
namespace Gregorian

def IsLeap (year : ℤ) : Prop := year % 4 = 0 ∧ (year % 100 ≠ 0 ∨ year % 400 = 0)

instance (year : ℤ) : Decidable (IsLeap year) := inferInstanceAs (Decidable (_ ∧ _))

/-- The days of a month of the year, January being month 0. -/
def daysIn (year month : ℤ) : ℤ :=
  if month = 1 then if IsLeap year then 29 else 28
  else if month = 3 ∨ month = 5 ∨ month = 8 ∨ month = 10 then 30
  else 31

/-- The days of the `n`th month from January 1970. -/
def monthLength (n : ℤ) : ℤ := daysIn (1970 + n / 12) (n % 12)

/-- The first day of a month, counted from 1 January 1970. -/
def firstDay : ℤ → ℤ
  | .ofNat n => ∑ i ∈ Finset.range n, monthLength i
  | .negSucc n => -∑ i ∈ Finset.range (n + 1), monthLength (-(i + 1))

theorem firstDay_succ (n : ℤ) : firstDay (n + 1) = firstDay n + monthLength n := by
  cases n with
  | ofNat n => exact Finset.sum_range_succ _ n
  | negSucc n =>
    cases n with
    | zero => simp [firstDay]
    | succ n =>
      change firstDay (Int.negSucc n) = _
      simp only [firstDay]
      rw [Finset.sum_range_succ _ (n + 1), Int.negSucc_eq]
      push_cast
      ring

/-- Days before the first of the `m`th month of a year that begins in March. -/
def marchDays (m : ℤ) : ℤ := (153 * m + 2) / 5

/-- Days before 1 March of a year, counted from 1 March of the year 0. -/
def marchYear (y : ℤ) : ℤ := 365 * y + y / 4 - y / 100 + y / 400

/-- The day of the calendar on which the month begins that is the `k`th from March of the year 0. -/
def marchMonth (k : ℤ) : ℤ := marchYear (k / 12) + marchDays (k % 12)

/-- A year from March to February is longer by the leap day at its end. -/
theorem marchYear_succ (y : ℤ) : marchYear (y + 1) = marchYear y + if IsLeap (y + 1) then 366 else 365 := by
  unfold marchYear IsLeap
  split_ifs <;> omega

theorem marchMonth_eq (y m : ℤ) (h0 : 0 ≤ m) (h : m < 12) :
    marchMonth (12 * y + m) = marchYear y + marchDays m := by
  have hyear : (12 * y + m) / 12 = y := by omega
  have hmonth : (12 * y + m) % 12 = m := by omega
  rw [marchMonth, hyear, hmonth]

theorem marchMonth_succ (n : ℤ) :
    marchMonth (n + 23638 + 1) = marchMonth (n + 23638) + monthLength n := by
  obtain ⟨y, m, rfl, hm0, hm⟩ : ∃ y m, n = 12 * y + m ∧ 0 ≤ m ∧ m < 12 :=
    ⟨n / 12, n % 12, by omega, by omega, by omega⟩
  have hyear : (12 * y + m) / 12 = y := by omega
  have hmonth : (12 * y + m) % 12 = m := by omega
  rw [monthLength, hyear, hmonth]
  rcases lt_trichotomy m 1 with hjanuary | rfl | hmarch
  · obtain rfl : m = 0 := by omega
    have hthis := marchMonth_eq (y + 1969) 10 (by omega) (by omega)
    have hnext := marchMonth_eq (y + 1969) 11 (by omega) (by omega)
    rw [show 12 * y + 0 + 23638 + 1 = 12 * (y + 1969) + 11 by ring, hnext,
      show 12 * y + 0 + 23638 = 12 * (y + 1969) + 10 by ring, hthis]
    simp [daysIn, marchDays, add_assoc]
  · -- February ends the year that began in March
    have hthis := marchMonth_eq (y + 1969) 11 (by omega) (by omega)
    have hnext := marchMonth_eq (y + 1970) 0 (by omega) (by omega)
    have hlong := marchYear_succ (y + 1969)
    rw [show 12 * y + 1 + 23638 + 1 = 12 * (y + 1970) + 0 by ring, hnext,
      show 12 * y + 1 + 23638 = 12 * (y + 1969) + 11 by ring, hthis]
    rw [show y + 1969 + 1 = 1970 + y by ring] at hlong
    rw [add_comm y 1970, hlong, daysIn, if_pos rfl]
    unfold marchDays
    split_ifs <;> omega
  · have hthis := marchMonth_eq (y + 1970) (m - 2) (by omega) (by omega)
    have hnext := marchMonth_eq (y + 1970) (m - 1) (by omega) (by omega)
    rw [show 12 * y + m + 23638 + 1 = 12 * (y + 1970) + (m - 1) by ring, hnext,
      show 12 * y + m + 23638 = 12 * (y + 1970) + (m - 2) by ring, hthis, daysIn,
      if_neg (by omega), add_assoc]
    congr 1
    interval_cases m <;> rfl

/-- The first day of a month in closed form. -/
theorem firstDay_eq (n : ℤ) : firstDay n = marchMonth (n + 23638) - 719468 := by
  induction n using Int.induction_on with
  | zero => rfl
  | succ n ih =>
    rw [firstDay_succ, ih, add_right_comm, marchMonth_succ]
    ring
  | pred n ih =>
    have hstep := firstDay_succ (-(n : ℤ) - 1)
    have hmarch := marchMonth_succ (-(n : ℤ) - 1)
    rw [sub_add_cancel] at hstep
    rw [add_right_comm, sub_add_cancel] at hmarch
    omega

theorem monthLength_pos (n : ℤ) : 0 < monthLength n := by
  unfold monthLength daysIn
  split_ifs <;> norm_num

theorem firstDay_strictMono : StrictMono firstDay :=
  strictMono_int_of_lt_succ fun n => by
    rw [firstDay_succ]
    have := monthLength_pos n
    omega

end Gregorian
