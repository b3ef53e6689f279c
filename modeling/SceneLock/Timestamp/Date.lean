/-!
Dates of the Gregorian calendar, carried on to all years before and after its use. Days are counted
from the first of January 1970.
-/

namespace SceneLock

structure Date where
  year : Int
  month : Nat
  day : Nat
  deriving DecidableEq, Repr

namespace Date

def isLeap (year : Int) : Bool := year % 4 = 0 && (year % 100 ≠ 0 || year % 400 = 0)

def daysInMonth (year : Int) (month : Nat) : Nat :=
  if month = 2 then if isLeap year then 29 else 28
  else if month = 4 ∨ month = 6 ∨ month = 9 ∨ month = 11 then 30
  else 31

def IsValid (d : Date) : Prop :=
  (1 ≤ d.month ∧ d.month ≤ 12) ∧ 1 ≤ d.day ∧ d.day ≤ daysInMonth d.year d.month

instance (d : Date) : Decidable d.IsValid := inferInstanceAs (Decidable (_ ∧ _))

/-- The days from the first of March of the year 0 to the first of January 1970. -/
def epochDay : Int := 719468

/-- Days before a month, of a year that begins with March. March is month 0. -/
def daysBefore (month : Nat) : Nat := (153 * month + 2) / 5

/-- The years are taken to begin with March, so that a leap day is the last of its year. -/
def toDays (d : Date) : Int :=
  let year := if d.month ≤ 2 then d.year - 1 else d.year
  365 * year + year / 4 - year / 100 + year / 400 + daysBefore ((d.month + 9) % 12) + d.day - 1
    - epochDay

/-- Takes whole cycles of 400 years off the days, then centuries, spans of four years, and years.
The last century of a cycle and the last year of a span may be a day longer than the others. -/
def ofDays (days : Int) : Date :=
  let cycle := (days + epochDay) / 146097
  let inCycle := ((days + epochDay) % 146097).toNat
  let century := min (inCycle / 36524) 3
  let inCentury := inCycle - 36524 * century
  let span := inCentury / 1461
  let inSpan := inCentury % 1461
  let yearOfSpan := min (inSpan / 365) 3
  let dayOfYear := inSpan - 365 * yearOfSpan
  let year := 400 * cycle + (100 * century + 4 * span + yearOfSpan : Nat)
  let month := (5 * dayOfYear + 2) / 153
  let day := dayOfYear - daysBefore month + 1
  if month < 10 then ⟨year, month + 3, day⟩ else ⟨year + 1, month - 9, day⟩

end Date

end SceneLock
