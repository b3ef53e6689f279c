import Mathlib
import SceneLock.Timestamp.Date

/-!
Counting days: every day has a date that exists, and the date tells which day it is.
-/

namespace SceneLock.Date

/-- What a day is taken apart into: whole cycles, centuries, spans and years, and the rest. The
366th day of a year is the last one of a span of four years, and the last one of a century only if
that is the last one of its cycle. -/
theorem ofDays_cases (days : Int) :
    ∃ (cycle : Int) (century span yearOfSpan dayOfYear : Nat),
      days + epochDay =
        146097 * cycle + 36524 * century + 1461 * span + 365 * yearOfSpan + dayOfYear ∧
      century ≤ 3 ∧ span ≤ 24 ∧ yearOfSpan ≤ 3 ∧ dayOfYear ≤ 365 ∧
      (dayOfYear = 365 → yearOfSpan = 3 ∧ (span = 24 → century = 3)) ∧
      ofDays days =
        let year := 400 * cycle + (100 * century + 4 * span + yearOfSpan : Nat)
        let month := (5 * dayOfYear + 2) / 153
        let day := dayOfYear - daysBefore month + 1
        if month < 10 then ⟨year, month + 3, day⟩ else ⟨year + 1, month - 9, day⟩ := by
  refine ⟨_, _, _, _, _, ?_, ?_, ?_, ?_, ?_, ?_, rfl⟩
  all_goals omega

/-- The day of a year lies in its month, and each month is as long as it is. -/
theorem month_cases {dayOfYear : Nat} (within : dayOfYear ≤ 365) :
    let month := (5 * dayOfYear + 2) / 153
    month ≤ 11 ∧ daysBefore month ≤ dayOfYear ∧
      dayOfYear - daysBefore month < (if month = 11 then if dayOfYear = 365 then 29 else 28
        else if month = 1 ∨ month = 3 ∨ month = 6 ∨ month = 8 then 30 else 31) := by
  intro month
  have small : month ≤ 11 := by omega
  refine ⟨small, ?_, ?_⟩
  · unfold daysBefore
    omega
  · unfold daysBefore
    interval_cases e : month
    all_goals simp
    all_goals first | omega | (split <;> omega)

theorem toDays_ofDays (days : Int) : (ofDays days).toDays = days := by
  obtain ⟨cycle, century, span, yearOfSpan, dayOfYear, sum, _, _, _, within, _, e⟩ :=
    ofDays_cases days
  obtain ⟨small, begun, _⟩ := month_cases within
  rw [e]
  unfold toDays
  simp only
  split
  · next early =>
    rw [if_neg (by simp)]
    have back : ((5 * dayOfYear + 2) / 153 + 3 + 9) % 12 = (5 * dayOfYear + 2) / 153 := by omega
    simp only [back]
    omega
  · next late =>
    rw [if_pos (by simp; omega)]
    have back : ((5 * dayOfYear + 2) / 153 - 9 + 9) % 12 = (5 * dayOfYear + 2) / 153 := by omega
    simp only [back]
    omega

theorem isLeap_iff {year : Int} :
    isLeap year ↔ year % 4 = 0 ∧ (year % 100 ≠ 0 ∨ year % 400 = 0) := by
  simp [isLeap]

theorem isValid_ofDays (days : Int) : (ofDays days).IsValid := by
  obtain ⟨cycle, century, span, yearOfSpan, dayOfYear, sum, _, _, _, within, full, e⟩ :=
    ofDays_cases days
  obtain ⟨small, begun, short⟩ := month_cases within
  have leap : dayOfYear = 365 →
      isLeap (400 * cycle + (100 * century + 4 * span + yearOfSpan : Nat) + 1) := by
    intro last
    obtain ⟨_, full⟩ := full last
    rw [isLeap_iff]
    omega
  rw [e]
  generalize (5 * dayOfYear + 2) / 153 = month at *
  simp only at short ⊢
  split
  all_goals
    simp only [IsValid, daysInMonth]
    refine ⟨⟨by omega, by omega⟩, by omega, ?_⟩
    grind

end SceneLock.Date
