import Mathlib.Data.Int.Basic
import Rewrap.Timestamp.Basic

/-! # The calendar

Every day has a date that the calendar knows. -/

namespace Rewrap.Timestamp

/-- The number of a year in its span of four centuries, from the number of a day in the span. -/
def yearOfSpan (day : Int) : Int := (day - day / 1460 + day / 36524 - day / 146096) / 365

/-- The number of a day in its year, which begins in March. -/
def dayOfYear (day : Int) : Int :=
  day - (365 * yearOfSpan day + yearOfSpan day / 4 - yearOfSpan day / 100)

variable {day : Int}

/-- The centuries of a day and of its year, which decide how many leap days came before. -/
theorem centuries (h : 0 ≤ day) (h' : day < 146097) :
    (day / 146096 = 0 ∨ day / 146096 = 1) ∧
      (day / 36524 = 0 ∨ day / 36524 = 1 ∨ day / 36524 = 2 ∨ day / 36524 = 3 ∨
        day / 36524 = 4) ∧
      (yearOfSpan day / 100 = 0 ∨ yearOfSpan day / 100 = 1 ∨ yearOfSpan day / 100 = 2 ∨
        yearOfSpan day / 100 = 3 ∨ yearOfSpan day / 100 = 4) := by
  have hspan : day / 146096 = 0 ∨ day / 146096 = 1 := by omega
  have hcentury : day / 36524 = 0 ∨ day / 36524 = 1 ∨ day / 36524 = 2 ∨ day / 36524 = 3 ∨
      day / 36524 = 4 := by omega
  refine ⟨hspan, hcentury, ?_⟩
  unfold yearOfSpan
  omega

theorem dayOfYear_bounds (h : 0 ≤ day) (h' : day < 146097) :
    0 ≤ dayOfYear day ∧ dayOfYear day ≤ 365 := by
  obtain ⟨hspan, hcentury, hyear⟩ := centuries h h'
  unfold dayOfYear
  unfold yearOfSpan at hyear ⊢
  rcases hspan with hs | hs <;> rcases hcentury with hc | hc | hc | hc | hc <;>
    rcases hyear with hy | hy | hy | hy | hy <;> omega

/-- The last day that a year can have is there only before a leap day. -/
theorem leap_of_dayOfYear (h : 0 ≤ day) (h' : day < 146097) (hlast : dayOfYear day = 365) :
    yearOfSpan day % 4 = 3 ∧ (yearOfSpan day % 100 ≠ 99 ∨ yearOfSpan day % 400 = 399) := by
  obtain ⟨hspan, hcentury, hyear⟩ := centuries h h'
  unfold dayOfYear at hlast
  unfold yearOfSpan at hyear hlast ⊢
  rcases hspan with hs | hs <;> rcases hcentury with hc | hc | hc | hc | hc <;>
    rcases hyear with hy | hy | hy | hy | hy <;> omega

theorem day_le_daysInMonth {year day fromMarch : Int} (h : 0 ≤ day) (h' : day ≤ 365)
    (hleap : day = 365 → isLeapYear year = true) (hmonth : fromMarch = (5 * day + 2) / 153) :
    0 ≤ fromMarch ∧ fromMarch ≤ 11 ∧ 1 ≤ day - (153 * fromMarch + 2) / 5 + 1 ∧
      (day - (153 * fromMarch + 2) / 5 + 1).toNat ≤
        daysInMonth year (if fromMarch < 10 then fromMarch + 3 else fromMarch - 9).toNat := by
  have hcases : fromMarch = 0 ∨ fromMarch = 1 ∨ fromMarch = 2 ∨ fromMarch = 3 ∨
      fromMarch = 4 ∨ fromMarch = 5 ∨ fromMarch = 6 ∨ fromMarch = 7 ∨ fromMarch = 8 ∨
      fromMarch = 9 ∨ fromMarch = 10 ∨ fromMarch = 11 := by omega
  rcases hcases with hm | hm | hm | hm | hm | hm | hm | hm | hm | hm | hm | hm
  case inr.inr.inr.inr.inr.inr.inr.inr.inr.inr.inr =>
    -- February, whose last day is there in a leap year
    subst hm
    by_cases hlast : day = 365
    · simp [daysInMonth, hleap hlast]
      omega
    · simp [daysInMonth]
      split <;> omega
  all_goals
    subst hm
    simp [daysInMonth]
    omega

theorem isLeapYear_iff {year : Int} :
    isLeapYear year = true ↔ year % 4 = 0 ∧ (year % 100 ≠ 0 ∨ year % 400 = 0) := by
  simp [isLeapYear]

theorem dateOf_eq {n rest : Int} (hrest : n + 719468 - (n + 719468) / 146097 * 146097 = rest) :
    dateOf n =
      (let month := (5 * dayOfYear rest + 2) / 153
        let number := if month < 10 then month + 3 else month - 9
        (yearOfSpan rest + (n + 719468) / 146097 * 400 +
            (if number ≤ 2 then 1 else 0), number.toNat,
          (dayOfYear rest - (153 * month + 2) / 5 + 1).toNat)) := by
  have hspan : Int.fdiv (n + 719468) 146097 = (n + 719468) / 146097 :=
    Int.fdiv_eq_ediv_of_nonneg _ (by decide)
  unfold dateOf
  simp only [hspan, hrest]
  rfl

/-- A number of a day stands for a date of the calendar. -/
theorem dateOf_spec (n : Int) :
    1 ≤ (dateOf n).2.1 ∧ (dateOf n).2.1 ≤ 12 ∧ 1 ≤ (dateOf n).2.2 ∧
      (dateOf n).2.2 ≤ daysInMonth (dateOf n).1 (dateOf n).2.1 := by
  generalize hrest : n + 719468 - (n + 719468) / 146097 * 146097 = rest
  obtain ⟨hlow, hhigh⟩ : 0 ≤ rest ∧ rest < 146097 := by omega
  obtain ⟨hfirst, hlast⟩ := dayOfYear_bounds hlow hhigh
  rw [dateOf_eq hrest]
  simp only
  generalize hmonth : (5 * dayOfYear rest + 2) / 153 = month
  -- a day at the end of the year from March on falls into the next year
  have hleap : dayOfYear rest = 365 →
      isLeapYear (yearOfSpan rest + (n + 719468) / 146097 * 400
        + (if (if month < 10 then month + 3 else month - 9) ≤ 2 then 1 else 0)) = true := by
    intro hend
    obtain ⟨hfour, hcentury⟩ := leap_of_dayOfYear hlow hhigh hend
    have heleven : month = 11 := by omega
    subst heleven
    rw [isLeapYear_iff]
    simp only [show ¬((11 : Int) < 10) by decide, if_false,
      show (11 : Int) - 9 ≤ 2 by decide, if_true]
    omega
  obtain ⟨hzero, heleven, hone, hbound⟩ := day_le_daysInMonth hfirst hlast hleap hmonth.symm
  refine ⟨?_, ?_, by omega, hbound⟩
  · split <;> omega
  · split <;> omega

end Rewrap.Timestamp
