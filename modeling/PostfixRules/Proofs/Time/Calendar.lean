import Mathlib.Tactic.ByContra
import PostfixRules.Time.Calendar

/-!
# The date of a day

Every day has a date that the calendar has, and counting the days up to that date leads back to the
day. Both are shown on years that begin in March: in every era a day lies in a year that has begun
and is not over, and only a year whose February has 29 days has a day with the number 365.
-/

namespace PostfixRules.Date

/-! ## Years that begin in March -/

/-- The days of an era before a year of it. -/
def daysBeforeYear (year : Int) : Int :=
  365 * year + year / 4 - year / 100

/-- The year of an era that a day of the era is taken to lie in. -/
def yearOfDay (day : Int) : Int :=
  (day - day / 1460 + day / 36524 - day / 146096) / 365

/-- The day of its year that a day of an era is taken to be, counted from zero. -/
def dayOfYear (day : Int) : Int :=
  day - daysBeforeYear (yearOfDay day)

variable {day : Int}

theorem yearOfDay_bounds (h : 0 ≤ day) (hlt : day < 146097) :
    0 ≤ yearOfDay day ∧ yearOfDay day < 400 := by
  unfold yearOfDay
  omega

/-- The year of a day has begun by the day and is not over, in whichever century the day lies. -/
theorem dayOfYear_bounds (h : 0 ≤ day) (hlt : day < 146097) :
    0 ≤ dayOfYear day ∧ dayOfYear day ≤ 365 := by
  have hyear := yearOfDay_bounds h hlt
  unfold dayOfYear daysBeforeYear
  generalize hy : yearOfDay day = year at hyear ⊢
  unfold yearOfDay at hy
  have hcentury : year / 100 = 0 ∨ year / 100 = 1 ∨ year / 100 = 2 ∨ year / 100 = 3 := by omega
  have hdays : day / 36524 = 0 ∨ day / 36524 = 1 ∨ day / 36524 = 2 ∨ day / 36524 = 3 ∨
      day / 36524 = 4 := by omega
  rcases hcentury with hc | hc | hc | hc <;>
    rcases hdays with hd | hd | hd | hd | hd <;> omega

/-- A year with a day of the number 365 ends in a February with 29 days. After any other year the
next one begins 365 days later, so that the day would be taken to lie in that. -/
theorem isLeap_of_dayOfYear (h : 0 ≤ day) (hlt : day < 146097) (hlast : dayOfYear day = 365)
    (era : Int) : isLeap (yearOfDay day + era * 400 + 1) = true := by
  have hyear := yearOfDay_bounds h hlt
  unfold dayOfYear daysBeforeYear at hlast
  generalize hy : yearOfDay day = year at hyear hlast ⊢
  unfold yearOfDay at hy
  have hfour : year % 4 = 3 := by
    by_contra hrest
    have hquarters : day / 1460 = year / 4 := by omega
    have hcenturies : year / 100 ≤ day / 36524 := by omega
    have hera : day / 146096 = 0 := by omega
    omega
  have hhundred : (year + 1) % 100 = 0 → (year + 1) % 400 = 0 := by
    intro hend
    have hcentury : year / 100 = 0 ∨ year / 100 = 1 ∨ year / 100 = 2 ∨ year / 100 = 3 := by omega
    rcases hcentury with hc | hc | hc | hc <;> omega
  simp only [isLeap, Bool.and_eq_true, Bool.or_eq_true, beq_iff_eq, bne_iff_ne]
  omega

/-! ## Months from March on -/

/-- The days of a year before a month. -/
def daysBeforeMonth (month : Int) : Int :=
  (153 * month + 2) / 5

/-- The month that a day of a year lies in. -/
def monthOfDay (day : Int) : Int :=
  (5 * day + 2) / 153

theorem monthOfDay_bounds (h : 0 ≤ day) (hle : day ≤ 365) :
    0 ≤ monthOfDay day ∧ monthOfDay day ≤ 11 := by
  unfold monthOfDay
  omega

/-- The month of a day has begun by the day and is not over. -/
theorem daysBeforeMonth_bounds (day : Int) : daysBeforeMonth (monthOfDay day) ≤ day ∧
    day < daysBeforeMonth (monthOfDay day + 1) := by
  unfold daysBeforeMonth monthOfDay
  omega

/-- The number of a month in the calendar. -/
def monthNumber (month : Int) : Int :=
  if month < 10 then month + 3 else month - 9

theorem toNat_monthNumber_le_two_iff {month : Int} (h : 0 ≤ month) (hle : month ≤ 11) :
    (monthNumber month).toNat ≤ 2 ↔ 10 ≤ month := by
  unfold monthNumber
  split <;> omega

/-- All months but February have as many days in every year as their places say. -/
theorem daysInMonth_monthNumber (year : Int) {month : Int} (h : 0 ≤ month) (hlt : month < 11) :
    (daysInMonth year (monthNumber month).toNat : Int) =
      daysBeforeMonth (month + 1) - daysBeforeMonth month := by
  have hmonth : month = 0 ∨ month = 1 ∨ month = 2 ∨ month = 3 ∨ month = 4 ∨ month = 5 ∨
      month = 6 ∨ month = 7 ∨ month = 8 ∨ month = 9 ∨ month = 10 := by omega
  rcases hmonth with rfl | rfl | rfl | rfl | rfl | rfl | rfl | rfl | rfl | rfl | rfl <;> rfl

theorem daysInMonth_february (year : Int) :
    daysInMonth year (monthNumber 11).toNat = if isLeap year then 29 else 28 := rfl

/-! ## Dates from March on -/

/-- The date of a day of a month, where the year is counted in an era. -/
def ofMarch (era year month day : Int) : Date :=
  ⟨if monthNumber month ≤ 2 then year + era * 400 + 1 else year + era * 400,
    (monthNumber month).toNat, day.toNat⟩

/-- The date of a day is made up of its era, year, month and day of the month. -/
theorem exists_ofDays_eq (days : Int) : ∃ era year day, (0 ≤ year ∧ year < 400) ∧
    (0 ≤ day ∧ day ≤ 365) ∧ (day = 365 → isLeap (year + era * 400 + 1) = true) ∧
    days = era * 146097 + daysBeforeYear year + day - 719468 ∧
    ofDays days =
      ofMarch era year (monthOfDay day) (day - daysBeforeMonth (monthOfDay day) + 1) := by
  have h : 0 ≤ days + 719468 - (days + 719468) / 146097 * 146097 := by omega
  have hlt : days + 719468 - (days + 719468) / 146097 * 146097 < 146097 := by omega
  refine ⟨(days + 719468) / 146097, _, _, yearOfDay_bounds h hlt, dayOfYear_bounds h hlt,
    fun hlast => isLeap_of_dayOfYear h hlt hlast _, ?_, rfl⟩
  unfold dayOfYear
  omega

/-- Counting the days up to a date adds up the days of its parts. -/
theorem toDays_ofMarch {era year month day : Int} (hyear : 0 ≤ year ∧ year < 400)
    (hmonth : 0 ≤ month ∧ month ≤ 11) (hday : 1 ≤ day) : (ofMarch era year month day).toDays =
      era * 146097 + daysBeforeYear year + daysBeforeMonth month + (day - 1) - 719468 := by
  have hera : (year + era * 400) / 400 = era := by omega
  have hdate : (day.toNat : Int) = day := Int.toNat_of_nonneg (by omega)
  have hlate := toNat_monthNumber_le_two_iff hmonth.1 hmonth.2
  unfold daysBeforeYear daysBeforeMonth
  by_cases hm : 10 ≤ month
  · have hnumber : monthNumber month = month - 9 := if_neg (by omega)
    rw [hnumber] at hlate
    have hcast : ((month - 9).toNat : Int) = month - 9 := Int.toNat_of_nonneg (by omega)
    have hearly : month - 9 ≤ 2 := by omega
    simp only [ofMarch, toDays, hnumber, if_pos (hlate.mpr hm), if_pos hearly, hcast, hdate,
      Int.add_sub_cancel, hera, Int.sub_add_cancel]
    omega
  · have hnumber : monthNumber month = month + 3 := if_pos (by omega)
    rw [hnumber] at hlate
    have hcast : ((month + 3).toNat : Int) = month + 3 := Int.toNat_of_nonneg (by omega)
    have hearly : ¬ month + 3 ≤ 2 := by omega
    simp only [ofMarch, toDays, hnumber, if_neg (mt hlate.mp hm), if_neg hearly, hcast, hdate,
      Int.add_sub_cancel, hera]
    omega

/-- Counting the days up to the date of a day leads back to the day. -/
theorem toDays_ofDays (days : Int) : (ofDays days).toDays = days := by
  obtain ⟨era, year, day, hyear, hday, -, hdays, hdate⟩ := exists_ofDays_eq days
  obtain ⟨hbegun, -⟩ := daysBeforeMonth_bounds day
  rw [hdate, toDays_ofMarch hyear (monthOfDay_bounds hday.1 hday.2) (by omega)]
  omega

/-- The calendar has the date of every day. -/
theorem isValid_ofDays (days : Int) : (ofDays days).isValid = true := by
  obtain ⟨era, year, day, hyear, hday, hleap, -, hdate⟩ := exists_ofDays_eq days
  obtain ⟨hbegun, hover⟩ := daysBeforeMonth_bounds day
  obtain ⟨hmonth, hmonth'⟩ := monthOfDay_bounds hday.1 hday.2
  rw [hdate]
  generalize monthOfDay day = month at *
  have hnumber : 1 ≤ (monthNumber month).toNat ∧ (monthNumber month).toNat ≤ 12 := by
    unfold monthNumber
    split <;> omega
  have hlength : (day - daysBeforeMonth month + 1).toNat ≤
      daysInMonth (ofMarch era year month (day - daysBeforeMonth month + 1)).year
        (monthNumber month).toNat := by
    by_cases hother : month < 11
    · have hdays := daysInMonth_monthNumber (ofMarch era year month
        (day - daysBeforeMonth month + 1)).year hmonth hother
      omega
    · obtain rfl : month = 11 := by omega
      have hbefore : daysBeforeMonth 11 = 337 := rfl
      have hyear' : (ofMarch era year 11 (day - daysBeforeMonth 11 + 1)).year =
          year + era * 400 + 1 := rfl
      rw [daysInMonth_february, hyear', hbefore]
      by_cases hlast : day = 365
      · rw [if_pos (hleap hlast)]
        omega
      · split <;> omega
  simp only [isValid, Bool.and_eq_true, decide_eq_true_eq]
  exact ⟨⟨⟨hnumber.1, hnumber.2⟩, by simp only [ofMarch]; omega⟩, hlength⟩

end PostfixRules.Date
