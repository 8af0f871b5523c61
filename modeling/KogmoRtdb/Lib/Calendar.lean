/-!
# The Gregorian calendar

Days are counted from 1970-01-01, in both directions. The year is taken to begin in March, so
that the day that comes and goes is its last one; an era is 400 years.
-/

/-- A date, with the month and the day counted from 1. -/
structure Date where
  year : Int
  month : Int
  day : Int
  deriving DecidableEq

namespace Date

def toDays (d : Date) : Int :=
  let year := if d.month ≤ 2 then d.year - 1 else d.year
  let month := if d.month ≤ 2 then d.month + 9 else d.month - 3
  365 * year + year / 4 - year / 100 + year / 400 + (153 * month + 2) / 5 + d.day - 719469

def yearOfEra (day : Int) : Int := (day - day / 1460 + day / 36524 - day / 146096) / 365

def dayOfYear (day : Int) : Int :=
  day - (365 * yearOfEra day + yearOfEra day / 4 - yearOfEra day / 100)

def monthOfYear (day : Int) : Int := (5 * day + 2) / 153

def ofDays (days : Int) : Date :=
  let era := (days + 719468) / 146097
  let dayOfEra := (days + 719468) % 146097
  let month := monthOfYear (dayOfYear dayOfEra)
  { year := yearOfEra dayOfEra + 400 * era + if month < 10 then 0 else 1
    month := if month < 10 then month + 3 else month - 9
    day := dayOfYear dayOfEra - (153 * month + 2) / 5 + 1 }

theorem yearOfCentury_bounds {day year : Int} (century : Int) (h0 : 0 ≤ century) (h3 : century ≤ 3)
    (hday : 0 ≤ day) (hlt : day < 36524)
    (hyear : year = (day - (24 * century + day) / 1460) / 365) :
    0 ≤ year ∧ year < 100 ∧ 0 ≤ day - 365 * year - year / 4 ∧
      day - 365 * year - year / 4 < 366 := by
  obtain rfl | rfl | rfl | rfl : century = 0 ∨ century = 1 ∨ century = 2 ∨ century = 3 := by omega
  all_goals omega

theorem yearOfEra_bounds (day : Int) (h0 : 0 ≤ day) (hlt : day < 146097) :
    0 ≤ yearOfEra day ∧ yearOfEra day < 400 ∧ 0 ≤ dayOfYear day ∧ dayOfYear day < 366 := by
  unfold dayOfYear
  generalize hyear : yearOfEra day = year
  unfold yearOfEra at hyear
  obtain ⟨century, rest, hday, hrest0, hrest⟩ :
      ∃ century rest : Int, day = 36524 * century + rest ∧ 0 ≤ rest ∧ rest < 36524 :=
    ⟨day / 36524, day % 36524, by omega, by omega, by omega⟩
  subst hday
  by_cases hlast : century = 4
  · -- the last day of the era
    subst hlast
    obtain rfl : rest = 0 := by omega
    omega
  · have hwithin := yearOfCentury_bounds century (by omega) (by omega) hrest0 hrest rfl
    generalize hy : (rest - (24 * century + rest) / 1460) / 365 = y at hwithin
    have heq : year = 100 * century + y := by omega
    have h4 : (100 * century + y) / 4 = 25 * century + y / 4 := by omega
    have h100 : (100 * century + y) / 100 = century := by omega
    clear hyear hy
    subst heq
    rw [h4, h100]
    omega

theorem monthOfYear_bounds {day : Int} (h0 : 0 ≤ day) (hlt : day < 366) :
    0 ≤ monthOfYear day ∧ monthOfYear day ≤ 11 ∧ 0 ≤ day - (153 * monthOfYear day + 2) / 5 ∧
      day - (153 * monthOfYear day + 2) / 5 ≤ 30 := by
  unfold monthOfYear
  omega

theorem ofDays_bounds (days : Int) :
    1 ≤ (ofDays days).month ∧ (ofDays days).month ≤ 12 ∧ 1 ≤ (ofDays days).day ∧
      (ofDays days).day ≤ 31 := by
  obtain ⟨-, -, hday0, hday⟩ := yearOfEra_bounds ((days + 719468) % 146097) (by omega)
    (by omega)
  obtain ⟨hmonth0, hmonth, hmday0, hmday⟩ := monthOfYear_bounds hday0 hday
  unfold ofDays
  dsimp only
  generalize monthOfYear _ = month at *
  split <;> omega

theorem toDays_first (y m d : Int) : toDays ⟨y, m, 1⟩ + d - 1 = toDays ⟨y, m, d⟩ := by
  unfold toDays
  dsimp only
  omega

theorem toDays_march {y m d : Int} (hm : 2 < m) :
    toDays ⟨y, m, d⟩ =
      365 * y + y / 4 - y / 100 + y / 400 + (153 * (m - 3) + 2) / 5 + d - 719469 := by
  have hm' : ¬ m ≤ 2 := Int.not_le.mpr hm
  simp only [toDays, hm', if_false]

theorem toDays_january {y m d : Int} (hm : m ≤ 2) :
    toDays ⟨y, m, d⟩ =
      365 * (y - 1) + (y - 1) / 4 - (y - 1) / 100 + (y - 1) / 400 + (153 * (m + 9) + 2) / 5 + d
        - 719469 := by
  simp only [toDays, hm, if_true]

/-- The days of a date are those it has been made from. -/
theorem toDays_ofDays (days : Int) : (ofDays days).toDays = days := by
  obtain ⟨hyear0, hyear, hday0, hday⟩ := yearOfEra_bounds ((days + 719468) % 146097)
    (by omega) (by omega)
  obtain ⟨hmonth0, hmonth, -, -⟩ := monthOfYear_bounds hday0 hday
  have hera : dayOfYear ((days + 719468) % 146097) = (days + 719468) % 146097 -
    (365 * yearOfEra ((days + 719468) % 146097) + yearOfEra ((days + 719468) % 146097) / 4 -
      yearOfEra ((days + 719468) % 146097) / 100) := rfl
  unfold ofDays
  dsimp only
  generalize monthOfYear _ = month at *
  generalize dayOfYear _ = day at *
  generalize yearOfEra _ = year at *
  have h4 (era : Int) : (year + 400 * era) / 4 = year / 4 + 100 * era := by omega
  have h100 (era : Int) : (year + 400 * era) / 100 = year / 100 + 4 * era := by omega
  have h400 (era : Int) : (year + 400 * era) / 400 = era := by omega
  -- January and February belong to the year before
  by_cases hmarch : month < 10
  · rw [if_pos hmarch, if_pos hmarch, toDays_march (by omega), Int.add_zero, Int.add_sub_cancel,
      h4, h100, h400]
    omega
  · rw [if_neg hmarch, if_neg hmarch, toDays_january (by omega), Int.add_sub_cancel,
      Int.sub_add_cancel, h4, h100, h400]
    omega

example : ofDays 11016 = ⟨2000, 2, 29⟩ ∧ ofDays 11017 = ⟨2000, 3, 1⟩ := by decide

end Date
