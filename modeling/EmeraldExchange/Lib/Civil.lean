import Mathlib.Data.Int.Notation
import Mathlib.Order.Basic
import Mathlib.Tactic.IntervalCases

/-!
# The civil calendar

The days of the proleptic Gregorian calendar, numbered from the first of January 1970
(`day`).

Algorithms that compute with it take cycles of 400 years that begin in March, which are cut into
centuries and fourths of years (`exists_cycleDay`).
-/

namespace EmeraldExchange.Civil

/-! ### The calendar -/

/-- Every fourth year is a leap year, but of the centuries only every fourth. -/
def IsLeap (y : ℤ) : Prop := y % 4 = 0 ∧ (y % 100 ≠ 0 ∨ y % 400 = 0)

instance (y : ℤ) : Decidable (IsLeap y) := inferInstanceAs (Decidable (_ ∧ _))

def monthDays (y m : ℤ) : ℤ :=
  if m = 2 then if IsLeap y then 29 else 28
  else if m = 4 ∨ m = 6 ∨ m = 9 ∨ m = 11 then 30
  else 31

structure Date where
  year : ℤ
  month : ℤ
  day : ℤ
  deriving DecidableEq

/-- **A date of the calendar.** -/
structure Date.Valid (date : Date) : Prop where
  one_le_month : 1 ≤ date.month
  month_le : date.month ≤ 12
  one_le_day : 1 ≤ date.day
  day_le : date.day ≤ monthDays date.year date.month

def daysBefore (y m : ℤ) : ℤ :=
  (367 * m - 362) / 12 - (if m ≤ 2 then 0 else if IsLeap y then 1 else 2)

/-- **The number of a date**: the days of the years before, those of the months before, and those
of the month. -/
def day (date : Date) : ℤ :=
  365 * (date.year - 1) + (date.year - 1) / 4 - (date.year - 1) / 100 + (date.year - 1) / 400 +
    daysBefore date.year date.month + date.day - 719163

example : day ⟨1970, 1, 1⟩ = 0 := by decide

theorem ediv_eq_pred_add (y : ℤ) {k : ℤ} (hk : 1 < k) :
    y / k = (y - 1) / k + if y % k = 0 then 1 else 0 := by
  have hy := Int.emod_add_mul_ediv y k
  have hmod := Int.emod_nonneg y (show k ≠ 0 by omega)
  have hlt := Int.emod_lt_of_pos y (show 0 < k by omega)
  split_ifs with h
  · have hpred : y - 1 = (k - 1) + k * (y / k - 1) := by
      rw [Int.mul_sub, Int.mul_one]
      omega
    rw [hpred, Int.add_mul_ediv_left _ _ (show k ≠ 0 by omega),
      Int.ediv_eq_zero_of_lt (show 0 ≤ k - 1 by omega) (by omega)]
    omega
  · have hpred : y - 1 = (y % k - 1) + k * (y / k) := by omega
    rw [hpred, Int.add_mul_ediv_left _ _ (show k ≠ 0 by omega),
      Int.ediv_eq_zero_of_lt (show 0 ≤ y % k - 1 by omega) (by omega)]
    omega

/-- **A leap year is counted with the years up to it.** -/
theorem leaps_eq_pred_add (y : ℤ) : y / 4 - y / 100 + y / 400 =
    (y - 1) / 4 - (y - 1) / 100 + (y - 1) / 400 + if IsLeap y then 1 else 0 := by
  rw [ediv_eq_pred_add y (show 1 < 4 by decide), ediv_eq_pred_add y (show 1 < 100 by decide),
    ediv_eq_pred_add y (show 1 < 400 by decide)]
  generalize (y - 1) / 4 = a
  generalize (y - 1) / 100 = b
  generalize (y - 1) / 400 = c
  have hcentury : y % 100 = 0 → y % 4 = 0 := by omega
  have hcycle : y % 400 = 0 → y % 100 = 0 := by omega
  unfold IsLeap
  by_cases h4 : y % 4 = 0
  · by_cases h100 : y % 100 = 0
    · by_cases h400 : y % 400 = 0
      · simp only [h4, h100, h400, ne_eq, not_true, or_true, and_true, if_true]
        omega
      · simp only [h4, h100, h400, ne_eq, not_true, or_false, and_false, if_true, if_false]
        omega
    · have h400 : ¬y % 400 = 0 := fun h => h100 (hcycle h)
      simp only [h4, h100, h400, ne_eq, not_false_eq_true, true_or, and_true, if_true, if_false]
      omega
  · have h100 : ¬y % 100 = 0 := fun h => h4 (hcentury h)
    have h400 : ¬y % 400 = 0 := fun h => h100 (hcycle h)
    simp only [h4, h100, h400, false_and, if_false]
    omega

theorem monthDays_le (y m : ℤ) : monthDays y m ≤ 31 := by
  unfold monthDays
  split_ifs <;> omega

theorem day_bounds (date : Date) (h1 : 1 ≤ date.month) (h12 : date.month ≤ 12)
    (hd : 1 ≤ date.day) (hd' : date.day ≤ 31) :
    365 * (date.year - 1) + (date.year - 1) / 4 - (date.year - 1) / 100 + (date.year - 1) / 400 -
        719163 < day date ∧
      day date ≤ 365 * (date.year - 1) + (date.year - 1) / 4 - (date.year - 1) / 100 +
        (date.year - 1) / 400 - 719163 + 366 := by
  have hbefore : 0 ≤ daysBefore date.year date.month ∧ daysBefore date.year date.month ≤ 335 := by
    unfold daysBefore
    split_ifs <;> omega
  rw [day]
  omega

/-! ### The years of a cycle

In a year that begins in March the day that a leap year adds is the last one. The 146097 days of
400 such years are three centuries of 36524 days and one of 36525, a century is twenty-five times
four years of 1461 days, but for its last day, and of four years the last one may have 366 days.
-/

/-- A day of a cycle, by the century, the four years in it, the year in these and the day of the
year. -/
structure CycleDay (doe b j u w : ℤ) : Prop where
  eq : doe = 36524 * b + 1461 * j + 365 * u + w
  century : 0 ≤ b ∧ b ≤ 3
  fours : 0 ≤ j ∧ j ≤ 24
  year : 0 ≤ u ∧ u ≤ 3
  day : 0 ≤ w ∧ (w < 365 ∨ w = 365 ∧ u = 3 ∧ (j < 24 ∨ b = 3))

theorem exists_cycleDay {doe : ℤ} (h0 : 0 ≤ doe) (h1 : doe < 146097) :
    ∃ b j u w, CycleDay doe b j u w := by
  -- the last day of the cycle is the one that its last century has more than the others
  obtain ⟨b, r, hb, hr⟩ : ∃ b r, doe = 36524 * b + r ∧ 0 ≤ b ∧ b ≤ 3 ∧ 0 ≤ r ∧
      (r < 36524 ∨ r = 36524 ∧ b = 3) := by
    by_cases hlast : doe = 146096
    · exact ⟨3, 36524, by omega, by omega⟩
    · exact ⟨doe / 36524, doe % 36524, by omega, by omega⟩
  obtain ⟨j, t, ht, hj⟩ : ∃ j t, r = 1461 * j + t ∧ 0 ≤ j ∧ j ≤ 24 ∧ 0 ≤ t ∧ t < 1461 ∧
      (t < 1460 ∨ j < 24 ∨ b = 3) := ⟨r / 1461, r % 1461, by omega, by omega⟩
  obtain ⟨u, w, hw, hu⟩ : ∃ u w, t = 365 * u + w ∧ 0 ≤ u ∧ u ≤ 3 ∧ 0 ≤ w ∧
      (w < 365 ∨ w = 365 ∧ u = 3 ∧ t = 1460) := by
    by_cases hlast : t = 1460
    · exact ⟨3, 365, by omega, by omega⟩
    · exact ⟨t / 365, t % 365, by omega, by omega⟩
  exact ⟨b, j, u, w, by omega, by omega, by omega, by omega, by omega⟩

end EmeraldExchange.Civil
