import SceneLock.Text
import SceneLock.Timestamp

/-!
Times as texts: `2024-01-02T03:04:05.678Z`. They are written in one way, and read in several.
-/

namespace SceneLock.Timestamp

/-- The digits of a number, with zeros in front up to a width. -/
def padded (width n : Nat) : List Char :=
  let digits := (toString n).toList
  List.replicate (width - digits.length) '0' ++ digits

/-- A year that does not have four digits is written with a sign. -/
def yearChars (year : Int) : List Char :=
  if 0 ≤ year ∧ year ≤ 9999 then padded 4 year.toNat
  else if year < 0 then '-' :: padded 4 year.natAbs
  else '+' :: padded 4 year.natAbs

/-- The fewest digits that are exact, in groups of three. -/
def fractionChars (nanos : Nat) : List Char :=
  if nanos = 0 then []
  else if nanos % 1000000 = 0 then '.' :: padded 3 (nanos / 1000000)
  else if nanos % 1000 = 0 then '.' :: padded 6 (nanos / 1000)
  else '.' :: padded 9 nanos

def chars (t : Timestamp) : List Char :=
  let date := Date.ofDays (t.seconds / secondsPerDay)
  let second := (t.seconds % secondsPerDay).toNat
  let leap := t.nanos / nanosPerSecond
  yearChars date.year ++ '-' :: padded 2 date.month ++ '-' :: padded 2 date.day
    ++ 'T' :: padded 2 (second / 3600) ++ ':' :: padded 2 (second / 60 % 60)
    ++ ':' :: padded 2 (second % 60 + leap) ++ fractionChars (t.nanos % nanosPerSecond) ++ ['Z']

def text (t : Timestamp) : String := String.ofList t.chars

/-- Reads from the front of a text. -/
abbrev Scan := StateT (List Char) Option

namespace Scan

def refuse {α : Type} : Scan α := fun _ => none

def skipWhite : Scan Unit := modify (·.dropWhile isWhite)

def exactly (c : Char) : Scan Unit := fun cs =>
  match cs with
  | c' :: rest => if c = c' then some ((), rest) else none
  | [] => none

def value (digits : List Char) : Nat := digits.foldl (fun n c => n * 10 + (c.toNat - 48)) 0

/-- At least one digit, and at most so many. -/
def numberUpTo (limit : Nat) : Scan Nat := fun cs =>
  let digits := (cs.take limit).takeWhile Char.isDigit
  if digits.isEmpty then none else some (value digits, cs.drop digits.length)

def number : Scan Nat := fun cs => numberUpTo cs.length cs

/-- A field of one or two digits. -/
def field : Scan Nat := do
  skipWhite
  numberUpTo 2

/-- Another field, behind its mark. -/
def fieldAfter (mark : Char) : Scan Nat := do
  skipWhite
  exactly mark
  field

/-- Without a sign, a year has four digits at most. -/
def year : Scan Int := do
  skipWhite
  fun cs =>
    match cs with
    | '-' :: rest => (number rest).map fun (n, rest) => (-(n : Int), rest)
    | '+' :: rest => (number rest).map fun (n, rest) => ((n : Int), rest)
    | cs => (numberUpTo 4 cs).map fun (n, rest) => ((n : Int), rest)

def date : Scan Date := do
  let year ← year
  let month ← fieldAfter '-'
  let day ← fieldAfter '-'
  return ⟨year, month, day⟩

def separator : Scan Unit := fun cs =>
  match cs with
  | c :: rest => if c = 'T' || c = 't' || c = ' ' then some ((), rest) else none
  | [] => none

/-- Nanoseconds. Digits beyond the ninth are dropped. -/
def fraction : Scan Nat := fun cs =>
  match cs with
  | '.' :: rest =>
    let digits := rest.takeWhile Char.isDigit
    let kept := digits.take 9
    if digits.isEmpty then none
    else some (value kept * Nat.pow 10 (9 - kept.length), rest.drop digits.length)
  | cs => some (0, cs)

def twoDigits : Scan Nat := fun cs =>
  match cs with
  | a :: b :: rest => if a.isDigit && b.isDigit then some (value [a, b], rest) else none
  | _ => none

/-- The minutes of an offset stand behind its hours, with or without a colon between them. -/
def hoursAndMinutes : Scan Int := do
  let hours ← twoDigits
  modify (·.dropWhile fun c => c = ':' || isWhite c)
  let minutes ← twoDigits
  if minutes < 60 then return (hours * 3600 + minutes * 60 : Nat) else refuse

/-- Seconds by which the clock is ahead of UTC. -/
def offset : Scan Int := fun cs =>
  match cs with
  | 'Z' :: rest | 'z' :: rest => some (0, rest)
  | '+' :: rest => hoursAndMinutes rest
  | '-' :: rest | '−' :: rest => (hoursAndMinutes rest).map fun (n, rest) => (-n, rest)
  | a :: b :: c :: rest =>
    if [a, b, c].map Char.toUpper = ['U', 'T', 'C'] then some (0, rest) else none
  | _ => none

/-- What a clock shows, and by how much it is ahead of UTC. The time must be one that exists. -/
def timestamp : Scan Timestamp := do
  let date ← date
  separator
  let hour ← field
  let minute ← fieldAfter ':'
  let second ← fieldAfter ':'
  let nanos ← fraction
  skipWhite
  let offset ← offset
  let shown : Timestamp := {
    seconds := date.toDays * secondsPerDay + (hour * 3600 + minute * 60 + min second 59 : Nat)
    nanos := if second = 60 then nanosPerSecond + nanos else nanos }
  let t := { shown with seconds := shown.seconds - offset }
  if date.IsValid ∧ hour < 24 ∧ minute < 60 ∧ second ≤ 60 ∧ offset.natAbs < 86400 ∧ shown.IsValid
      ∧ t.IsValid then return t
  else refuse

end Scan

/-- Reads a time in UTC or with an offset to it. Parts need not fill their width, and white space
may stand around them. -/
def ofChars? (cs : List Char) : Option Timestamp := do
  let (t, rest) ← Scan.timestamp cs
  if rest.all isWhite then some t else none

def ofText? (s : String) : Option Timestamp := ofChars? s.toList

end SceneLock.Timestamp
