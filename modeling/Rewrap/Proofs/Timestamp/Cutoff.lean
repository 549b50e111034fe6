import Rewrap.Proofs.Timestamp.Calendar
import Rewrap.Proofs.Timestamp.Text

/-! # Going back in the calendar

The dates of the calendar are ordered as the numbers of their days. So the date that comes some days
before another is found by its number, as far as the calendar goes back. -/

namespace Rewrap.Timestamp

/-! ## The order of time -/

theorem compareNumbers_swap (as bs : List Int) :
    (compareNumbers as bs).swap = compareNumbers bs as := by
  induction as generalizing bs with
  | nil =>
      cases bs with
      | nil => rfl
      | cons b bs => rfl
  | cons a as ih =>
      cases bs with
      | nil => rfl
      | cons b bs =>
          have hswap : Ord.compare b a = (Ord.compare a b).swap := Std.OrientedCmp.eq_swap
          rw [compareNumbers, compareNumbers, Ordering.swap_then, ih, hswap]

theorem le_eq_false_iff {s t : Timestamp} : s.le t = false ↔ t.compare s = .lt := by
  have hswap : (s.compare t).swap = t.compare s := compareNumbers_swap s.numbers t.numbers
  rw [le, ← hswap]
  cases s.compare t with
  | lt => decide
  | eq => decide
  | gt => decide

/-! ## Numbers of days -/

theorem dayNumber_march (year : Int) :
    dayNumber year 3 1 = year / 400 * 146097 + year % 400 * 365 + year % 400 / 4 - year % 400 /
      100 - 719468 := by
  have hspan : Int.fdiv year 400 = year / 400 := Int.fdiv_eq_ediv_of_nonneg _ (by decide)
  have hrest : year - year / 400 * 400 = year % 400 := by omega
  unfold dayNumber
  simp only [show ¬(3 : Nat) ≤ 2 by decide, if_false, hspan, hrest]
  omega

theorem dayNumber_late (year : Int) {month : Nat} (h : 2 < month) (day : Nat) :
    dayNumber year month day =
      dayNumber year 3 1 + ((153 * (month - 3 : Int) + 2) / 5 + day - 1) := by
  unfold dayNumber
  simp only [show ¬month ≤ 2 by omega, show ¬(3 : Nat) ≤ 2 by decide, if_false]
  omega

theorem dayNumber_early (year : Int) {month : Nat} (h : month ≤ 2) (day : Nat) :
    dayNumber year month day =
      dayNumber (year - 1) 3 1 + ((153 * (month + 9 : Int) + 2) / 5 + day - 1) := by
  unfold dayNumber
  simp only [h, show ¬(3 : Nat) ≤ 2 by decide, if_true, if_false]
  omega

/-- From one March to the next there is a leap day exactly in a leap year. -/
theorem dayNumber_march_succ (year : Int) :
    dayNumber year 3 1 = dayNumber (year - 1) 3 1 + if isLeapYear year then 366 else 365 := by
  rw [dayNumber_march, dayNumber_march]
  split
  · next h =>
      rw [isLeapYear_iff] at h
      omega
  · next h =>
      rw [isLeapYear_iff] at h
      omega

theorem dayNumber_first (year : Int) : dayNumber year 1 1 = dayNumber (year - 1) 3 1 + 306 := by
  rw [dayNumber_early year (by decide)]
  rfl

theorem dayNumber_first_le {year year' : Int} (h : year ≤ year') :
    dayNumber year 1 1 ≤ dayNumber year' 1 1 := by
  have hmarch : ∀ n : Nat, dayNumber (year - 1) 3 1 ≤ dayNumber (year + n - 1) 3 1 := by
    intro n
    induction n with
    | zero => simp
    | succ n ih =>
        have hstep := dayNumber_march_succ (year + (n + 1 : Nat) - 1)
        have hbefore : year + (n + 1 : Nat) - 1 - 1 = year + n - 1 := by omega
        rw [hbefore] at hstep
        split at hstep
        · omega
        · omega
  obtain ⟨n, rfl⟩ := Int.le.dest h
  rw [dayNumber_first, dayNumber_first]
  exact Int.add_le_add_right (hmarch n) 306

theorem dayNumber_lt_of_month {year : Int} {month month' day day' : Nat} (hmonth : 1 ≤ month)
    (hlt : month < month') (hmonth' : month' ≤ 12) (hday : day ≤ daysInMonth year month)
    (hday' : 1 ≤ day') : dayNumber year month day < dayNumber year month' day' := by
  have hmarch := dayNumber_march_succ year
  unfold daysInMonth at hday
  by_cases hearly : month' ≤ 2
  · obtain rfl : month = 1 := by omega
    obtain rfl : month' = 2 := by omega
    simp at hday
    rw [dayNumber_early year (by decide), dayNumber_early year (by decide)]
    omega
  · have hlate : 2 < month' := by omega
    rw [dayNumber_late year hlate]
    have hcases : month = 1 ∨ month = 2 ∨ month = 3 ∨ month = 4 ∨ month = 5 ∨
        month = 6 ∨ month = 7 ∨ month = 8 ∨ month = 9 ∨ month = 10 ∨ month = 11 := by omega
    rcases hcases with rfl | rfl | rfl | rfl | rfl | rfl | rfl | rfl | rfl | rfl | rfl
    case inl =>
      simp at hday
      rw [dayNumber_early year (by decide)]
      split at hmarch
      · omega
      · omega
    case inr.inl =>
      -- February, whose last day is there in a leap year
      simp at hday
      rw [dayNumber_early year (by decide)]
      split at hmarch
      · next hleap =>
          rw [if_pos hleap] at hday
          omega
      · next hleap =>
          rw [if_neg hleap] at hday
          omega
    all_goals
      simp at hday
      rw [dayNumber_late year (by decide)]
      omega

theorem daysInMonth_le (year : Int) (month : Nat) : daysInMonth year month ≤ 31 := by
  unfold daysInMonth
  split
  · split
    · decide
    · decide
  · split
    · decide
    · decide

theorem dayNumber_bounds {year : Int} {month day : Nat} (hmonth : 1 ≤ month ∧ month ≤ 12)
    (hday : 1 ≤ day ∧ day ≤ daysInMonth year month) :
    dayNumber year 1 1 ≤ dayNumber year month day ∧
      dayNumber year month day < dayNumber (year + 1) 1 1 := by
  have hlast : day ≤ 31 := hday.2.trans (daysInMonth_le year month)
  have hmarch := dayNumber_march_succ year
  have hlength : 365 ≤ (if isLeapYear year then 366 else 365 : Int) := by
    split
    · decide
    · decide
  rw [dayNumber_first, dayNumber_first, Int.add_sub_cancel]
  by_cases hearly : month ≤ 2
  · rw [dayNumber_early year hearly]
    omega
  · rw [dayNumber_late year (by omega)]
    omega

theorem isDate_iff {year : Int} {month day : Nat} : isDate year month day = true ↔
    (-262143 ≤ year ∧ year ≤ 262142) ∧ (1 ≤ month ∧ month ≤ 12) ∧ 1 ≤ day ∧
      day ≤ daysInMonth year month := by
  simp only [isDate, isYear, Bool.and_eq_true, decide_eq_true_eq]
  tauto

theorem dayNumber_lt_of_year {year year' : Int} {month month' day day' : Nat}
    (h : isDate year month day = true) (h' : isDate year' month' day' = true) (hlt : year < year') :
    dayNumber year month day < dayNumber year' month' day' := by
  obtain ⟨-, hmonth, hday⟩ := isDate_iff.mp h
  obtain ⟨-, hmonth', hday'⟩ := isDate_iff.mp h'
  have hend := (dayNumber_bounds hmonth hday).2
  have hnext := dayNumber_first_le (show year + 1 ≤ year' from hlt)
  have hstart := (dayNumber_bounds hmonth' hday').1
  omega

/-- Dates are ordered as the numbers of their days. -/
theorem compare_dayNumber {year year' : Int} {month month' day day' : Nat}
    (h : isDate year month day = true) (h' : isDate year' month' day' = true) :
    Ord.compare (dayNumber year month day) (dayNumber year' month' day') =
      (Ord.compare year year').then
        ((Ord.compare (month : Int) month').then (Ord.compare (day : Int) day')) := by
  obtain ⟨-, hmonth, hday⟩ := isDate_iff.mp h
  obtain ⟨-, hmonth', hday'⟩ := isDate_iff.mp h'
  rcases lt_trichotomy year year' with hyear | rfl | hyear
  · rw [compare_lt_iff_lt.mpr hyear, compare_lt_iff_lt.mpr (dayNumber_lt_of_year h h' hyear)]
    rfl
  · rw [compare_eq_iff_eq.mpr (rfl : year = year), Ordering.eq_then]
    rcases lt_trichotomy month month' with hlt | rfl | hlt
    · rw [compare_lt_iff_lt.mpr (Int.ofNat_lt.mpr hlt),
        compare_lt_iff_lt.mpr (dayNumber_lt_of_month hmonth.1 hlt hmonth'.2 hday.2 hday'.1)]
      rfl
    · have hsame : dayNumber year month day' - dayNumber year month day = (day' : Int) - day := by
        unfold dayNumber
        simp only
        omega
      rw [compare_eq_iff_eq.mpr (rfl : (month : Int) = month), Ordering.eq_then]
      rcases lt_trichotomy (day : Int) day' with hlt | heq | hlt
      · rw [compare_lt_iff_lt.mpr hlt, compare_lt_iff_lt.mpr (by omega)]
      · rw [compare_eq_iff_eq.mpr heq, compare_eq_iff_eq.mpr (by omega)]
      · rw [compare_gt_iff_gt.mpr hlt, compare_gt_iff_gt.mpr (show _ > _ by omega)]
    · rw [compare_gt_iff_gt.mpr (Int.ofNat_lt.mpr hlt),
        compare_gt_iff_gt.mpr (dayNumber_lt_of_month hmonth'.1 hlt hmonth.2 hday'.2 hday.1)]
      rfl
  · rw [compare_gt_iff_gt.mpr hyear, compare_gt_iff_gt.mpr (dayNumber_lt_of_year h' h hyear)]
    rfl

/-- The numbers of the clock, from the one that counts most. -/
def clock (t : Timestamp) : List Int := [t.hour, t.minute, t.second, t.nano]

/-- The order of time is that of days, and on one day that of the clock. -/
theorem compare_eq_dayCount {s t : Timestamp} (hs : isDate s.year s.month s.day = true)
    (ht : isDate t.year t.month t.day = true) :
    s.compare t = compareNumbers (s.dayCount :: s.clock) (t.dayCount :: t.clock) := by
  rw [compareNumbers, dayCount, dayCount, compare_dayNumber hs ht, Ordering.then_assoc,
    Ordering.then_assoc]
  rfl

theorem yearOfSpan_bounds {day : Int} (h : 0 ≤ day) (h' : day < 146097) :
    0 ≤ yearOfSpan day ∧ yearOfSpan day < 400 := by
  obtain ⟨hspan, hcentury, -⟩ := centuries h h'
  unfold yearOfSpan
  omega

/-- The number of a date that was found for a number is that number. -/
theorem dayNumber_dateOf (n : Int) : dayNumber (dateOf n).1 (dateOf n).2.1 (dateOf n).2.2 = n := by
  generalize hrest : n + 719468 - (n + 719468) / 146097 * 146097 = rest
  obtain ⟨hlow, hhigh⟩ : 0 ≤ rest ∧ rest < 146097 := by omega
  obtain ⟨hfirst, hlast⟩ := dayOfYear_bounds hlow hhigh
  obtain ⟨hzero, hspan⟩ := yearOfSpan_bounds hlow hhigh
  rw [dateOf_eq hrest]
  simp only
  generalize hmonth : (5 * dayOfYear rest + 2) / 153 = month
  have hmarch : dayNumber (yearOfSpan rest + (n + 719468) / 146097 * 400) 3 1 +
      dayOfYear rest = n := by
    rw [dayNumber_march, dayOfYear, Int.add_mul_ediv_right _ _ (by decide),
      Int.ediv_eq_zero_of_lt hzero hspan,
      Int.add_mul_emod_self_right, Int.emod_eq_of_lt hzero hspan]
    omega
  -- the months from January on belong to the next year
  by_cases hlate : month < 10
  · have hyear : ¬month + 3 ≤ 2 := by omega
    rw [if_pos hlate, if_neg hyear, Int.add_zero, dayNumber_late _ (by omega)]
    omega
  · have hyear : month - 9 ≤ 2 := by omega
    rw [if_neg hlate, if_pos hyear, dayNumber_early _ (by omega), Int.add_sub_cancel]
    omega

/-! ## Days before -/

theorem isYear_iff {year : Int} : isYear year = true ↔ -262143 ≤ year ∧ year ≤ 262142 := by
  simp [isYear]

/-- The number of the first day of the calendar. -/
def firstDay : Int := dayNumber (-262143) 1 1

/-- The number of the day after the last one of the calendar. -/
def endDay : Int := dayNumber 262143 1 1

/-- A day has a date in the calendar from the first to the last one. -/
theorem isYear_dateOf_iff (n : Int) :
    isYear (dateOf n).1 = true ↔ firstDay ≤ n ∧ n < endDay := by
  obtain ⟨hmonth, hmonth', hday, hday'⟩ := dateOf_spec n
  obtain ⟨hstart, hend⟩ := dayNumber_bounds ⟨hmonth, hmonth'⟩ ⟨hday, hday'⟩
  rw [dayNumber_dateOf] at hstart hend
  rw [isYear_iff, firstDay, endDay]
  constructor
  · rintro ⟨hlow, hhigh⟩
    have hfirst := dayNumber_first_le hlow
    have hlast := dayNumber_first_le (show (dateOf n).1 + 1 ≤ 262143 by omega)
    omega
  · rintro ⟨hlow, hhigh⟩
    constructor
    · by_contra hearly
      have hfirst := dayNumber_first_le (show (dateOf n).1 + 1 ≤ -262143 by omega)
      omega
    · by_contra hlate
      have hlast := dayNumber_first_le (show 262143 ≤ (dateOf n).1 by omega)
      omega

theorem isDate_dateOf {n : Int} (h : isYear (dateOf n).1 = true) :
    isDate (dateOf n).1 (dateOf n).2.1 (dateOf n).2.2 = true := by
  obtain ⟨hmonth, hmonth', hday⟩ := dateOf_spec n
  exact isDate_iff.mpr ⟨isYear_iff.mp h, ⟨hmonth, hmonth'⟩, hday⟩

variable {t u : Timestamp} {days : Nat}

theorem IsValid.dayCount_bounds (h : t.IsValid) :
    firstDay ≤ t.dayCount ∧ t.dayCount < endDay := by
  obtain ⟨⟨hlow, hhigh⟩, hmonth, hday⟩ := isDate_iff.mp h.date
  obtain ⟨hstart, hend⟩ := dayNumber_bounds hmonth hday
  have hfirst := dayNumber_first_le hlow
  have hlast := dayNumber_first_le (show t.year + 1 ≤ 262143 by omega)
  rw [firstDay, endDay, dayCount]
  omega

/-- Going back finds the date of a day by its number. -/
theorem daysBefore?_eq (t : Timestamp) (days : Nat) :
    t.daysBefore? days =
      (let date := dateOf (t.dayCount - days)
        if isYear date.1 then some { t with year := date.1, month := date.2.1, day := date.2.2 }
          else none) := by
  unfold daysBefore?
  generalize dateOf (t.dayCount - days) = date
  rfl

/-- Going back fails exactly before the first day of the calendar. -/
theorem daysBefore?_eq_none_iff (h : t.IsValid) :
    t.daysBefore? days = none ↔ t.dayCount - days < firstDay := by
  have hlast := h.dayCount_bounds.2
  have hyear := isYear_dateOf_iff (t.dayCount - days)
  rw [daysBefore?_eq]
  simp only
  split
  · next hknown =>
      have hfirst := (hyear.mp hknown).1
      exact iff_of_false (by simp) (by omega)
  · next hunknown =>
      refine iff_of_true rfl ?_
      by_contra hfirst
      exact hunknown (hyear.mpr (by omega))

theorem daysBefore?_eq_some {cutoff : Timestamp} (h : t.daysBefore? days = some cutoff) :
    isDate cutoff.year cutoff.month cutoff.day = true ∧ cutoff.dayCount = t.dayCount - days ∧
      cutoff.clock = t.clock := by
  rw [daysBefore?_eq] at h
  have hnumber := dayNumber_dateOf (t.dayCount - days)
  have hdate := isDate_dateOf (n := t.dayCount - days)
  revert h hnumber hdate
  generalize dateOf (t.dayCount - days) = date
  intro h hnumber hdate
  simp only at h
  split at h
  · next hyear =>
      obtain rfl := Option.some.inj h
      exact ⟨hdate hyear, hnumber, rfl⟩
  · cases h

/-- Whether some days before a point in time comes no later than another one. -/
def ReachesBack (t : Timestamp) (days : Nat) (u : Timestamp) : Prop :=
  (compareNumbers ((t.dayCount - days) :: t.clock) (u.dayCount :: u.clock)).isLE = true

instance (t : Timestamp) (days : Nat) (u : Timestamp) : Decidable (t.ReachesBack days u) :=
  inferInstanceAs (Decidable (_ = _))

theorem reachesBack_of_dayCount_lt (h : t.dayCount - days < u.dayCount) : t.ReachesBack days u := by
  rw [ReachesBack, compareNumbers, compare_lt_iff_lt.mpr h]
  rfl

/-- The point in time that was gone back to tells what comes after it. -/
theorem le_iff_reachesBack {cutoff : Timestamp} (hcutoff : t.daysBefore? days = some cutoff)
    (hu : u.IsValid) : cutoff.le u = true ↔ t.ReachesBack days u := by
  obtain ⟨hdate, hday, hclock⟩ := daysBefore?_eq_some hcutoff
  rw [le, compare_eq_dayCount hdate hu.date, hday, hclock, ReachesBack]

end Rewrap.Timestamp
