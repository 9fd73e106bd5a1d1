import Mathlib.Algebra.Group.Nat.Defs
import Mathlib.Data.Int.Order.Basic

/-!
# Days and dates

Days since 1970-01-01 and the dates of the Gregorian calendar. Days are counted in eras of
400 years that begin in March, so that a leap day is the last of its year.
-/

namespace JobFlow.Lib.Calendar

structure Date where
  year : Int
  month : Int
  day : Int
  deriving DecidableEq

/-- A year of an era and a day of it; the last of four centuries and the last of four
years have a day more. -/
def yearOfEra (doe : Int) : Int × Int :=
  let century := min (doe / 36524) 3
  let doc := doe - 36524 * century
  let year := min (doc % 1461 / 365) 3
  (100 * century + 4 * (doc / 1461) + year, doc % 1461 - 365 * year)

/-- The days of an era before a year. -/
def daysBefore (yoe : Int) : Int := 365 * yoe + yoe / 4 - yoe / 100

/-- The days of a year that begins in March, before a month. -/
def daysBeforeMonth (mp : Int) : Int := (153 * mp + 2) / 5

/-- The month of a day of the year, counted from March. -/
def monthFromMarch (doy : Int) : Int := (5 * doy + 2) / 153

/-- A date from a year that begins in March. -/
def fromMarch (year mp day : Int) : Date :=
  if mp < 10 then ⟨year, mp + 3, day⟩ else ⟨year + 1, mp - 9, day⟩

def civil (days : Int) : Date :=
  let (yoe, doy) := yearOfEra ((days + 719468) % 146097)
  let mp := monthFromMarch doy
  fromMarch ((days + 719468) / 146097 * 400 + yoe) mp (doy - daysBeforeMonth mp + 1)

def days (d : Date) : Int :=
  let y := if d.month ≤ 2 then d.year - 1 else d.year
  let mp := if d.month ≤ 2 then d.month + 9 else d.month - 3
  y / 400 * 146097 + daysBefore (y % 400) + (daysBeforeMonth mp + d.day - 1) - 719468

example : civil 19782 = ⟨2024, 2, 29⟩ ∧ civil (-1) = ⟨1969, 12, 31⟩ := by decide

/-- A day of an era lies in one year. -/
theorem yearOfEra_spec {doe : Int} (h0 : 0 ≤ doe) (h : doe < 146097) :
    0 ≤ (yearOfEra doe).1 ∧ (yearOfEra doe).1 < 400 ∧
      0 ≤ (yearOfEra doe).2 ∧ (yearOfEra doe).2 ≤ 365 ∧
      daysBefore (yearOfEra doe).1 + (yearOfEra doe).2 = doe := by
  simp only [yearOfEra, daysBefore]
  have hcentury : 0 ≤ min (doe / 36524) 3 ∧ min (doe / 36524) 3 ≤ 3 := by omega
  have hdoc : 0 ≤ doe - 36524 * min (doe / 36524) 3 ∧
      doe - 36524 * min (doe / 36524) 3 ≤ 36524 := by omega
  generalize hc : min (doe / 36524) 3 = c at *
  obtain ⟨doc, rfl⟩ : ∃ doc, doe = doc + 36524 * c := ⟨doe - 36524 * c, by omega⟩
  rw [Int.add_sub_cancel] at *
  have hyear : 0 ≤ min (doc % 1461 / 365) 3 ∧ min (doc % 1461 / 365) 3 ≤ 3 := by omega
  have hday : 0 ≤ doc % 1461 - 365 * min (doc % 1461 / 365) 3 ∧
      doc % 1461 - 365 * min (doc % 1461 / 365) 3 ≤ 365 := by omega
  generalize min (doc % 1461 / 365) 3 = y at *
  have hquad : 0 ≤ doc / 1461 ∧ doc / 1461 ≤ 24 := by omega
  have hsplit := Int.mul_ediv_add_emod doc 1461
  generalize doc / 1461 = q at *
  generalize doc % 1461 = r at *
  refine ⟨by omega, by omega, by omega, by omega, ?_⟩
  have hfour : (100 * c + 4 * q + y) / 4 = 25 * c + q := by omega
  have hhundred : (100 * c + 4 * q + y) / 100 = c := by omega
  rw [hfour, hhundred]
  omega

theorem monthFromMarch_spec {doy : Int} (h0 : 0 ≤ doy) (h : doy ≤ 365) :
    0 ≤ monthFromMarch doy ∧ monthFromMarch doy ≤ 11 ∧
      daysBeforeMonth (monthFromMarch doy) ≤ doy ∧
      doy < daysBeforeMonth (monthFromMarch doy) + 31 := by
  unfold monthFromMarch daysBeforeMonth
  omega

/-- A day by its era, the year of the era and the day of the year. -/
theorem civil_eq (n : Int) : ∃ era yoe doy : Int, 0 ≤ yoe ∧ yoe < 400 ∧ 0 ≤ doy ∧ doy ≤ 365 ∧
    n = era * 146097 + daysBefore yoe + doy - 719468 ∧
    civil n = fromMarch (era * 400 + yoe) (monthFromMarch doy)
      (doy - daysBeforeMonth (monthFromMarch doy) + 1) := by
  obtain ⟨hyoe0, hyoe, hdoy0, hdoy, hsum⟩ := yearOfEra_spec
    (Int.emod_nonneg (n + 719468) (by decide)) (Int.emod_lt_of_pos (n + 719468) (by decide))
  have hera := Int.mul_ediv_add_emod (n + 719468) 146097
  exact ⟨_, _, _, hyoe0, hyoe, hdoy0, hdoy, by omega, rfl⟩

theorem fromMarch_bounds (year : Int) {mp : Int} (h0 : 0 ≤ mp) (h : mp ≤ 11) (day : Int) :
    1 ≤ (fromMarch year mp day).month ∧ (fromMarch year mp day).month ≤ 12 ∧
      (fromMarch year mp day).day = day := by
  unfold fromMarch
  split
  · exact ⟨by dsimp only; omega, by dsimp only; omega, rfl⟩
  · exact ⟨by dsimp only; omega, by dsimp only; omega, rfl⟩

/-- A day has the month and the day of a date. -/
theorem civil_bounds (n : Int) :
    1 ≤ (civil n).month ∧ (civil n).month ≤ 12 ∧ 1 ≤ (civil n).day ∧ (civil n).day ≤ 31 := by
  obtain ⟨era, yoe, doy, -, -, hdoy0, hdoy, -, hcivil⟩ := civil_eq n
  obtain ⟨hmp0, hmp, hle, hlt⟩ := monthFromMarch_spec hdoy0 hdoy
  obtain ⟨hmonth1, hmonth12, hday⟩ := fromMarch_bounds (era * 400 + yoe) hmp0 hmp
    (doy - daysBeforeMonth (monthFromMarch doy) + 1)
  rw [hcivil, hday]
  exact ⟨hmonth1, hmonth12, by omega, by omega⟩

/-- In the mean a year has 146097 / 400 days. -/
theorem year_near (n : Int) :
    ((civil n).year * 146097 - (n + 719468) * 400).natAbs ≤ 300000 := by
  obtain ⟨era, yoe, doy, hyoe0, hyoe, hdoy0, hdoy, hn, hcivil⟩ := civil_eq n
  have hyear : (civil n).year = era * 400 + yoe ∨ (civil n).year = era * 400 + yoe + 1 := by
    rw [hcivil, fromMarch]
    split
    · exact .inl rfl
    · exact .inr rfl
  unfold daysBefore at hn
  omega

/-- The years that a number of days reaches. -/
theorem year_lt {n : Int} (h : n.natAbs ≤ 10 ^ 8) : (civil n).year.natAbs < 10 ^ 6 := by
  have hnear := year_near n
  omega

/-- The days that a number of years takes. -/
theorem le_of_year {n : Int} (h : (civil n).year.natAbs ≤ 9999) : n.natAbs ≤ 10 ^ 7 := by
  have hnear := year_near n
  omega

/-- January and February are the last months of the year before. -/
theorem days_fromMarch (year : Int) {mp : Int} (h0 : 0 ≤ mp) (h : mp ≤ 11) (day : Int) :
    days (fromMarch year mp day) = year / 400 * 146097 + daysBefore (year % 400) +
      (daysBeforeMonth mp + day - 1) - 719468 := by
  unfold days fromMarch
  by_cases hearly : mp < 10
  · have hmonth : ¬ mp + 3 ≤ 2 := by omega
    simp only [if_pos hearly, if_neg hmonth, Int.add_sub_cancel]
  · have hmonth : mp - 9 ≤ 2 := by omega
    simp only [if_neg hearly, if_pos hmonth, Int.add_sub_cancel, Int.sub_add_cancel]

/-- A day is the day of its date. -/
theorem days_civil (n : Int) : days (civil n) = n := by
  obtain ⟨era, yoe, doy, hyoe0, hyoe, hdoy0, hdoy, hn, hcivil⟩ := civil_eq n
  obtain ⟨hmp0, hmp, -, -⟩ := monthFromMarch_spec hdoy0 hdoy
  have hquot : (era * 400 + yoe) / 400 = era := by omega
  have hrem : (era * 400 + yoe) % 400 = yoe := by omega
  rw [hcivil, days_fromMarch _ hmp0 hmp, hquot, hrem]
  omega

end JobFlow.Lib.Calendar
