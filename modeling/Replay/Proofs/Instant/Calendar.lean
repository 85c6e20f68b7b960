import Replay.Instant.Basic
set_option autoImplicit false

/-!
The calendar and its days. Counted from March on, a day is in one year of an era of four hundred
(`yearOf_spec`), and a day of that year is in one month (`month_spec`). So every day has a date
that exists (`day_le_daysInMonth`) and that leads back to it (`toDays_ofDays`).
-/

namespace Replay.Instant.Date

def yearStart (year : Nat) : Nat := 365 * year + year / 4 - year / 100 + year / 400

/-- The days of an era without its leap days, roughly: enough to divide by the length of a year. -/
def withoutLeapDays (day : Nat) : Nat := day - day / 1460 + day / 36524 - day / 146096

theorem withoutLeapDays_mono {a b : Nat} (h : a ≤ b) (hb : b < 146097) :
    withoutLeapDays a ≤ withoutLeapDays b := by
  unfold withoutLeapDays
  omega

/-- The estimate is right on the first and the last day of every year. -/
theorem withoutLeapDays_ends : ∀ year < 400, withoutLeapDays (yearStart year) / 365 = year ∧
    withoutLeapDays (yearStart (year + 1) - 1) / 365 = year := by
  decide +kernel

theorem exists_year {day count : Nat} (h : day < yearStart count) :
    ∃ year < count, yearStart year ≤ day ∧ day < yearStart (year + 1) := by
  induction count with
  | zero => exact absurd h (Nat.not_lt_zero day)
  | succ count ih =>
    obtain hlt | hle := Nat.lt_or_ge day (yearStart count)
    · obtain ⟨year, hyear, hday⟩ := ih hlt
      exact ⟨year, Nat.lt_succ_of_lt hyear, hday⟩
    · exact ⟨count, Nat.lt_succ_self count, hle, h⟩

def yearOf (day : Nat) : Nat := withoutLeapDays day / 365

theorem yearOf_spec {day : Nat} (h : day < 146097) :
    yearOf day < 400 ∧ yearStart (yearOf day) ≤ day ∧ day < yearStart (yearOf day + 1) := by
  have hera : day < yearStart 400 := h
  obtain ⟨year, hyear, hfirst, hlast⟩ := exists_year hera
  obtain ⟨hlow, hhigh⟩ := withoutLeapDays_ends year hyear
  have hle := withoutLeapDays_mono hfirst h
  have hge := withoutLeapDays_mono (Nat.le_sub_one_of_lt hlast) (by unfold yearStart; omega)
  obtain rfl : yearOf day = year := by
    have hquotient := Nat.div_le_div_right (c := 365) hle
    have hquotient' := Nat.div_le_div_right (c := 365) hge
    unfold yearOf
    omega
  exact ⟨hyear, hfirst, hlast⟩

def shiftedMonth (dayOfYear : Nat) : Nat := (5 * dayOfYear + 2) / 153

def monthOf (dayOfYear : Nat) : Nat :=
  if shiftedMonth dayOfYear < 10 then shiftedMonth dayOfYear + 3 else shiftedMonth dayOfYear - 9

def dayOf (dayOfYear : Nat) : Nat := dayOfYear - (153 * shiftedMonth dayOfYear + 2) / 5 + 1

/-- Months end where they should, February on the last day of a year from March on. -/
theorem month_spec : ∀ dayOfYear < 366, 1 ≤ monthOf dayOfYear ∧ monthOf dayOfYear ≤ 12 ∧
    1 ≤ dayOf dayOfYear ∧ (dayOf dayOfYear ≤ daysInMonth 1 (monthOf dayOfYear) ∨
      monthOf dayOfYear = 2 ∧ dayOf dayOfYear = 29 ∧ dayOfYear = 365) ∧
    (153 * ((monthOf dayOfYear + 9) % 12) + 2) / 5 + dayOf dayOfYear = dayOfYear + 1 := by
  decide +kernel

def ofParts (era : Int) (yearOfEra dayOfYear : Nat) : Date :=
  ⟨era * 400 + yearOfEra + (if monthOf dayOfYear ≤ 2 then 1 else 0), monthOf dayOfYear,
    dayOf dayOfYear⟩

def dayOfEra (days : Int) : Nat := ((days + 719468) % 146097).toNat

theorem exists_parts (days : Int) : ∃ (era : Int) (yearOfEra dayOfYear : Nat),
    ofDays days = ofParts era yearOfEra dayOfYear ∧ yearOfEra < 400 ∧
      yearStart yearOfEra + dayOfYear < yearStart (yearOfEra + 1) ∧
      days + 719468 = era * 146097 + yearStart yearOfEra + dayOfYear := by
  have hday : (dayOfEra days : Int) = (days + 719468) % 146097 := by
    unfold dayOfEra
    omega
  obtain ⟨hyear, hfirst, hlast⟩ := yearOf_spec (show dayOfEra days < 146097 by omega)
  have hdate : ofDays days = ofParts ((days + 719468) / 146097) (yearOf (dayOfEra days))
      (dayOfEra days - (365 * yearOf (dayOfEra days) + yearOf (dayOfEra days) / 4 -
        yearOf (dayOfEra days) / 100)) := rfl
  have hstart : 365 * yearOf (dayOfEra days) + yearOf (dayOfEra days) / 4 -
      yearOf (dayOfEra days) / 100 = yearStart (yearOf (dayOfEra days)) := by
    unfold yearStart
    omega
  rw [hstart] at hdate
  exact ⟨_, _, _, hdate, hyear, by omega, by omega⟩

theorem lt_366 {yearOfEra dayOfYear : Nat}
    (h : yearStart yearOfEra + dayOfYear < yearStart (yearOfEra + 1)) : dayOfYear < 366 := by
  unfold yearStart at h
  omega

theorem isLeapYear_of_last (era : Int) {yearOfEra : Nat} (hyear : yearOfEra < 400)
    (h : yearStart yearOfEra + 365 < yearStart (yearOfEra + 1)) :
    isLeapYear (era * 400 + yearOfEra + 1) = true := by
  unfold yearStart at h
  simp only [isLeapYear, Bool.and_eq_true, Bool.or_eq_true, beq_iff_eq, bne_iff_ne]
  omega

theorem daysInMonth_le (year : Int) (month : Nat) :
    daysInMonth 1 month ≤ daysInMonth year month := by
  unfold daysInMonth
  split
  · cases isLeapYear year <;> decide
  · exact Nat.le_refl _

/-- Every day has a date that exists. -/
theorem day_le_daysInMonth (days : Int) : 1 ≤ (ofDays days).month ∧ (ofDays days).month ≤ 12 ∧
    1 ≤ (ofDays days).day ∧ (ofDays days).day ≤ daysInMonth (ofDays days).year (ofDays days).month := by
  obtain ⟨era, yearOfEra, dayOfYear, hparts, hyear, hlast, -⟩ := exists_parts days
  obtain ⟨hmonth, hmonth', hday, hlength, -⟩ := month_spec dayOfYear (lt_366 hlast)
  rw [hparts]
  refine ⟨hmonth, hmonth', hday, ?_⟩
  obtain hle | ⟨htwo, hday, rfl⟩ := hlength
  · exact Nat.le_trans hle (daysInMonth_le _ _)
  · have hleap := isLeapYear_of_last era hyear hlast
    simp only [ofParts, htwo, hday]
    simp [daysInMonth, hleap]

/-- The date of a day leads back to it. -/
theorem toDays_ofDays (days : Int) : (ofDays days).toDays = days := by
  obtain ⟨era, yearOfEra, dayOfYear, hparts, hyear, hlast, hdays⟩ := exists_parts days
  obtain ⟨hmonth, hmonth', hday, -, hback⟩ := month_spec dayOfYear (lt_366 hlast)
  rw [hparts]
  have hshifted : (if monthOf dayOfYear ≤ 2 then
      era * 400 + yearOfEra + (if monthOf dayOfYear ≤ 2 then 1 else 0) - 1 else
      era * 400 + yearOfEra + (if monthOf dayOfYear ≤ 2 then 1 else 0)) =
        era * 400 + (yearOfEra : Int) := by
    split <;> omega
  have hera : (era * 400 + yearOfEra) / 400 = era := by omega
  have hrest : (era * 400 + (yearOfEra : Int)) % 400 = yearOfEra := by omega
  have hcast : ((153 * (((monthOf dayOfYear : Int) + 9) % 12) + 2) / 5 : Int) =
      ((153 * ((monthOf dayOfYear + 9) % 12) + 2) / 5 : Nat) := by norm_cast
  unfold toDays ofParts
  dsimp only
  rw [hshifted, hera, hrest, hcast]
  unfold yearStart at hdays
  omega

end Replay.Instant.Date
