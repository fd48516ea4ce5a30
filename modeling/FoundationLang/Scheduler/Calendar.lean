/-
**The calendar of the scheduler.**

* `Date.next`, `civil` — the proleptic Gregorian calendar, day by day from 1970-01-01.
* `Date.number` — the days in front of a date; one more for the next date (`Date.number_next`).
-/

import FoundationLang.Library.Outcome
import Mathlib.Logic.Function.Iterate
import Mathlib.Tactic.IntervalCases

namespace FoundationLang.Scheduler

open Library Outcome

/-! ### The components of an instant -/

/-- The parts of an instant that a schedule looks at. -/
structure UtcComponents where
  minute : ℕ
  hour : ℕ
  day : ℕ
  month : ℕ
  weekday : ℕ
deriving DecidableEq, Repr

/-- `utcParts`, with the arithmetic of `u64`. -/
def utcParts (seconds : ℕ) : Outcome Empty UtcComponents := do
  let days := seconds / 86400
  let z ← checked (days + 719468)
  let era := z / 146097
  let dayOfEra ← checkedSub z (← checked (era * 146097))
  let common ← checkedSub dayOfEra (dayOfEra / 1460)
  let common ← checked (common + dayOfEra / 36524)
  let common ← checkedSub common (dayOfEra / 146096)
  let yearOfEra := common / 365
  let before ← checked ((← checked (365 * yearOfEra)) + yearOfEra / 4)
  let dayOfYear ← checkedSub dayOfEra (← checkedSub before (yearOfEra / 100))
  let monthPart := (← checked ((← checked (dayOfYear * 5)) + 2)) / 153
  let monthStart := (← checked ((← checked (monthPart * 153)) + 2)) / 5
  let day ← checked ((← checkedSub dayOfYear monthStart) + 1)
  let month ← if monthPart < 10 then checked (monthPart + 3) else checkedSub monthPart 9
  let weekday ← checked (days + 4)
  .ok {
    minute := seconds / 60 % 60
    hour := seconds / 3600 % 24
    day
    month
    weekday := weekday % 7 }

/-! ### The calendar -/

/-- A date of the civil calendar. -/
structure Date where
  year : ℕ
  month : ℕ
  day : ℕ
deriving DecidableEq, Repr

namespace Date

variable {date : Date}

/-- A leap year. -/
def Leap (year : ℕ) : Prop :=
  year % 4 = 0 ∧ (year % 100 ≠ 0 ∨ year % 400 = 0)

instance (year : ℕ) : Decidable (Leap year) :=
  inferInstanceAs (Decidable (_ ∧ _))

/-- The number of days of a month. -/
def monthLength (year month : ℕ) : ℕ :=
  if month = 2 then if Leap year then 29 else 28
  else if month = 4 ∨ month = 6 ∨ month = 9 ∨ month = 11 then 30 else 31

/-- The day after. -/
def next (date : Date) : Date :=
  if date.day < monthLength date.year date.month then { date with day := date.day + 1 }
  else if date.month < 12 then { date with month := date.month + 1, day := 1 }
  else ⟨date.year + 1, 1, 1⟩

/-- A day that there is. -/
structure Valid (date : Date) : Prop where
  month : 1 ≤ date.month ∧ date.month ≤ 12
  day : 1 ≤ date.day ∧ date.day ≤ monthLength date.year date.month

/-- The year that starts in March, counted from the era. -/
def marchYear (date : Date) : ℕ :=
  if date.month ≤ 2 then date.year - 1 else date.year

/-- The month of a year that starts in March. -/
def marchMonth (date : Date) : ℕ :=
  if date.month ≤ 2 then date.month + 9 else date.month - 3

/-- The day, counted from March. -/
def dayOfYear (date : Date) : ℕ :=
  (153 * date.marchMonth + 2) / 5 + (date.day - 1)

/-- The leap days up to a year. -/
def leapDays (year : ℕ) : ℕ :=
  year / 4 - year / 100 + year / 400

/-- The days in front of a date. -/
def number (date : Date) : ℕ :=
  365 * date.marchYear + leapDays date.marchYear + date.dayOfYear

theorem leapDays_succ (year : ℕ) :
    leapDays (year + 1) = leapDays year + if Leap (year + 1) then 1 else 0 := by
  unfold leapDays
  by_cases four : (year + 1) % 4 = 0
  · by_cases hundred : (year + 1) % 100 = 0
    · by_cases era : (year + 1) % 400 = 0
      · rw [if_pos ⟨four, .inr era⟩]
        omega
      · rw [if_neg fun leap => leap.2.elim (fun plain => plain hundred) era]
        omega
    · rw [if_pos ⟨four, .inl hundred⟩]
      omega
  · rw [if_neg fun leap => four leap.1]
    omega

theorem number_month (month : 1 ≤ date.month ∧ date.month < 12) (since : 1 ≤ date.year)
    (last : date.day = monthLength date.year date.month) :
    (⟨date.year, date.month + 1, 1⟩ : Date).number = date.number + 1 := by
  obtain ⟨year, month, day⟩ := date
  obtain ⟨x, early⟩ := month
  unfold number dayOfYear marchYear marchMonth
  unfold monthLength at last
  dsimp only at x early since last ⊢
  by_cases february : month = 2
  · subst february
    obtain ⟨year, rfl⟩ := Nat.exists_eq_add_of_le' since
    have leap := leapDays_succ year
    rw [if_pos rfl] at last
    simp
    split_ifs at last leap <;> omega
  · rw [if_neg february] at last
    interval_cases month
    all_goals simp at last ⊢
    all_goals omega

/-- **The next date is valid, and has one more day in front of it.** -/
theorem number_next (valid : Valid date) (since : 1 ≤ date.year) :
    Valid date.next ∧ date.next.number = date.number + 1 ∧ date.year ≤ date.next.year := by
  have length (year month : ℕ) : 28 ≤ monthLength year month := by
    unfold monthLength
    split_ifs <;> omega
  obtain ⟨month, day⟩ := valid
  unfold next
  split_ifs with inside early
  · refine ⟨⟨month, by dsimp only; omega⟩, ?_, Nat.le_refl _⟩
    unfold number dayOfYear marchYear marchMonth
    dsimp only
    omega
  · refine ⟨⟨by dsimp only; omega, Nat.le_refl _, ?_⟩, ?_, Nat.le_refl _⟩
    · exact Nat.le_trans (Nat.le_of_ble_eq_true rfl) (length _ _)
    · exact number_month ⟨month.1, early⟩ since (by omega)
  · refine ⟨⟨⟨Nat.le_refl _, Nat.le_of_ble_eq_true rfl⟩, Nat.le_refl _,
      Nat.le_trans (Nat.le_of_ble_eq_true rfl) (length _ _)⟩, ?_, Nat.le_succ _⟩
    obtain ⟨year, month', day'⟩ := date
    obtain rfl : month' = 12 := by dsimp only at month early; omega
    have december : monthLength year 12 = 31 := rfl
    dsimp only at day inside
    rw [december] at day inside
    unfold number dayOfYear marchYear marchMonth
    simp
    omega

end Date

/-- **The date some days after 1970-01-01.** -/
def civil (days : ℕ) : Date :=
  (Date.next^[days]) ⟨1970, 1, 1⟩

theorem civil_number (days : ℕ) :
    (civil days).Valid ∧ (civil days).number = days + 719468 ∧ 1970 ≤ (civil days).year := by
  induction days with
  | zero => exact ⟨⟨by decide, by decide⟩, rfl, Nat.le_refl _⟩
  | succ days ih =>
    obtain ⟨valid, number, since⟩ := ih
    obtain ⟨valid', number', later⟩ := Date.number_next valid (by omega)
    unfold civil at *
    rw [Function.iterate_succ_apply']
    exact ⟨valid', by omega, by omega⟩

/-! ### The era -/

theorem yearOfEra_eq {century cycle rest day : ℕ} (centuries : century < 4) (cycles : cycle < 25)
    (years : rest < 4)
    (days : day < 365 ∨ day = 365 ∧ rest = 3 ∧ (cycle < 24 ∨ century = 3)) {dayOfEra : ℕ}
    (whole : dayOfEra = 36524 * century + 1461 * cycle + 365 * rest + day) :
    (dayOfEra - dayOfEra / 1460 + dayOfEra / 36524 - dayOfEra / 146096) / 365 =
      100 * century + 4 * cycle + rest := by
  by_cases last : dayOfEra = 146096
  · rw [last]
    omega
  · have leaps : dayOfEra / 146096 = 0 := by omega
    have centuries' : dayOfEra / 36524 = century := by omega
    -- The quotient by 1460 is one more when the leap days of the era make up for it.
    obtain ⟨early, cycles', small, large⟩ : ∃ early, dayOfEra / 1460 = 25 * century + cycle + early ∧
        early ≤ day ∧ day < early + 365 := by
      by_cases early : 24 * century + cycle + 365 * rest + day < 1460
      · exact ⟨0, by omega, by omega, by omega⟩
      · exact ⟨1, by omega, by omega, by omega⟩
    rw [leaps, centuries', cycles', whole]
    omega

theorem Date.Valid.march {date : Date} (valid : date.Valid) (since : 1 ≤ date.year) :
    (date.dayOfYear * 5 + 2) / 153 = date.marchMonth ∧
      (153 * date.marchMonth + 2) / 5 + date.day = date.dayOfYear + 1 ∧
      (if date.marchMonth < 10 then date.marchMonth + 3 else date.marchMonth - 9) = date.month ∧
      (date.dayOfYear < 365 ∨ date.dayOfYear = 365 ∧ Leap (date.marchYear + 1)) := by
  obtain ⟨year, month, day⟩ := date
  obtain ⟨⟨x, late⟩, start, stop⟩ := valid
  unfold dayOfYear marchYear marchMonth
  unfold monthLength at stop
  dsimp only at x late start stop since ⊢
  by_cases february : month = 2
  · subst february
    obtain ⟨year, rfl⟩ := Nat.exists_eq_add_of_le' since
    rw [if_pos rfl] at stop
    simp
    split_ifs at stop with leap
    · simp only [leap, and_true]
      omega
    · omega
  · rw [if_neg february] at stop
    interval_cases month
    all_goals simp at stop ⊢
    all_goals omega

/-- **The era and what is left of it, from the days in front of a date.** -/
theorem dayOfEra_eq {date : Date} (valid : date.Valid) (since : 1 ≤ date.year) :
    ∃ yearOfEra dayOfEra, date.number = 146097 * (date.marchYear / 400) + dayOfEra ∧
      dayOfEra < 146097 ∧ yearOfEra < 400 ∧
      dayOfEra = 365 * yearOfEra + yearOfEra / 4 - yearOfEra / 100 + date.dayOfYear ∧
      (dayOfEra - dayOfEra / 1460 + dayOfEra / 36524 - dayOfEra / 146096) / 365 = yearOfEra := by
  obtain ⟨_, _, _, days⟩ := valid.march since
  unfold Date.number Date.leapDays
  generalize date.marchYear = year at days ⊢
  generalize date.dayOfYear = day at days ⊢
  have days' : day < 365 ∨ day = 365 ∧ year % 400 % 100 % 4 = 3 ∧
      (year % 400 % 100 / 4 < 24 ∨ year % 400 / 100 = 3) := by
    refine days.imp_right fun last => ⟨last.1, ?_⟩
    obtain ⟨_, four, leap⟩ := last
    omega
  have whole : 365 * (year % 400) + year % 400 / 4 - year % 400 / 100 + day =
      36524 * (year % 400 / 100) + 1461 * (year % 400 % 100 / 4) +
        365 * (year % 400 % 100 % 4) + day := by omega
  refine ⟨year % 400, _, ?_, ?_, Nat.mod_lt _ (by decide), rfl, ?_⟩
  · omega
  · omega
  · rw [yearOfEra_eq (by omega) (by omega) (by omega) days' whole]
    omega

/-- **The components of an instant are those of the calendar**, and no arithmetic leaves `u64`. The
first day was a Thursday. -/
theorem utcParts_civil (seconds : ℕ) (range : seconds < 2 ^ 64) :
    utcParts seconds = .ok {
      minute := seconds / 60 % 60
      hour := seconds / 3600 % 24
      day := (civil (seconds / 86400)).day
      month := (civil (seconds / 86400)).month
      weekday := (seconds / 86400 + 4) % 7 } := by
  obtain ⟨valid, number, since⟩ := civil_number (seconds / 86400)
  generalize civil (seconds / 86400) = date at *
  obtain ⟨month, day, named, _⟩ := valid.march (by omega)
  obtain ⟨yearOfEra, dayOfEra, whole, small, year, days, found⟩ := dayOfEra_eq valid (by omega)
  have era : (seconds / 86400 + 719468) / 146097 = date.marchYear / 400 := by omega
  have rest : seconds / 86400 + 719468 - date.marchYear / 400 * 146097 = dayOfEra := by omega
  have left : dayOfEra - (365 * yearOfEra + yearOfEra / 4 - yearOfEra / 100) = date.dayOfYear := by
    omega
  unfold utcParts
  dsimp only
  rw [checked_bind (by omega), era, checked_bind (by omega), checkedSub_bind (by omega), rest,
    checkedSub_bind (by omega), checked_bind (by omega), checkedSub_bind (by omega), found,
    checked_bind (by omega), checked_bind (by omega), checkedSub_bind (by omega),
    checkedSub_bind (by omega), left,
    checked_bind (by omega), checked_bind (by omega), month,
    Nat.mul_comm date.marchMonth, checked_bind (by omega), checked_bind (by omega),
    checkedSub_bind (by omega), checked_bind (by omega)]
  have day' : date.dayOfYear - (153 * date.marchMonth + 2) / 5 + 1 = date.day := by omega
  rw [day', ← named]
  split_ifs with early
  · rw [checked_bind (by omega), checked_eq (by omega)]
    rfl
  · rw [checkedSub_bind (by omega), checked_eq (by omega)]
    rfl

/-- 29 February 2000 was a Tuesday. -/
theorem utcParts_leap :
    utcParts 951782400 = .ok ⟨0, 0, 29, 2, 2⟩ ∧ (civil 11016).day = 29 ∧ (civil 11016).month = 2 := by
  have computed : utcParts 951782400 = .ok ⟨0, 0, 29, 2, 2⟩ := by decide +kernel
  have parts := utcParts_civil 951782400 (by decide)
  rw [show 951782400 / 86400 = 11016 from rfl, computed, Except.ok.injEq,
    UtcComponents.mk.injEq] at parts
  exact ⟨computed, parts.2.2.1.symm, parts.2.2.2.1.symm⟩

end FoundationLang.Scheduler
