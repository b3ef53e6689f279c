import SceneLock.Timestamp.Date

/-!
Points in time to the nanosecond, on a clock that may count leap seconds.
-/

namespace SceneLock

structure Timestamp where
  /-- Seconds since the beginning of 1970, leap seconds not counted. -/
  seconds : Int
  /-- From a thousand million on, the time lies in the leap second that follows. -/
  nanos : Nat
  deriving DecidableEq, Repr

namespace Timestamp

def epoch : Timestamp := ⟨0, 0⟩

def secondsPerDay : Int := 86400

def nanosPerSecond : Nat := 1000000000

/-- The first second of the year -262143. Earlier times are not told. -/
def earliest : Int := (Date.mk (-262143) 1 1).toDays * secondsPerDay

/-- The last second of the year 262142. Later times are not told. -/
def latest : Int := ((Date.mk 262142 12 31).toDays + 1) * secondsPerDay - 1

/-- A time that can be read. Where a leap second is told, it comes after the last second of a
minute. A time that is held need not keep to that. -/
def IsValid (t : Timestamp) : Prop :=
  (earliest ≤ t.seconds ∧ t.seconds ≤ latest) ∧ t.nanos < 2 * nanosPerSecond ∧
    (nanosPerSecond ≤ t.nanos → t.seconds % 60 = 59)

instance (t : Timestamp) : Decidable t.IsValid := inferInstanceAs (Decidable (_ ∧ _ ∧ (_ → _)))

/-- The time some milliseconds later, on a clock without leap seconds. -/
def later (t : Timestamp) (milliseconds : Nat) : Timestamp :=
  let nanos := t.nanos + milliseconds * 1000000
  ⟨t.seconds + (nanos / nanosPerSecond : Nat), nanos % nanosPerSecond⟩

end Timestamp

end SceneLock
