import SceneLock.Decimal.Shortest
import Std.Data.ExtTreeMap

/-!
JSON values and their text on one line. A whole number that fits is kept whole; every other number
is binary64. The fields of an object are written in the order in which they are listed.
-/

namespace SceneLock

open Std

inductive Json
  | null
  | bool (b : Bool)
  | int (n : Int)
  | float (x : Binary64)
  | text (s : String)
  | list (items : List Json)
  | object (fields : List (String × Json))
  deriving Inhabited

namespace Json

/-- The object with these fields, in order of their names. Of two with one name the later counts. -/
def ofFields (fields : List (String × Json)) : Json := .object (ExtTreeMap.ofList fields).toList

def field? (name : String) : Json → Option Json
  | object fields => (fields.find? (·.1 = name)).map (·.2)
  | _ => none

def hexDigit (n : Nat) : Char :=
  if n < 10 then Char.ofNat (n + 48) else Char.ofNat (n + 87)

/-- Quotes, backslashes and control characters are escaped; all others stand as they are. -/
def escape (c : Char) : List Char :=
  if c = '"' then ['\\', '"']
  else if c = '\\' then ['\\', '\\']
  else if c = '\n' then ['\\', 'n']
  else if c = '\r' then ['\\', 'r']
  else if c = '\t' then ['\\', 't']
  else if c.toNat = 8 then ['\\', 'b']
  else if c.toNat = 12 then ['\\', 'f']
  else if c.toNat < 32 then ['\\', 'u', '0', '0', hexDigit (c.toNat / 16), hexDigit (c.toNat % 16)]
  else [c]

def quote (s : String) : List Char := '"' :: s.toList.flatMap escape ++ ['"']

/-- A decimal is written positionally while its point is at most 16 places from the front or five
behind it, and with an exponent otherwise. It is never written like a whole number. -/
def floatChars (x : Binary64) : List Char :=
  let d := Decimal.shortest x
  let digits := (toString d.digits).toList
  let point := d.exponent + digits.length
  let size :=
    if d.digits = 0 then ['0', '.', '0']
    else if 0 ≤ d.exponent ∧ point ≤ 16 then
      digits ++ List.replicate d.exponent.toNat '0' ++ ['.', '0']
    else if 0 < point ∧ point ≤ 16 then
      digits.take point.toNat ++ '.' :: digits.drop point.toNat
    else if -5 < point ∧ point ≤ 0 then
      ['0', '.'] ++ List.replicate (-point).toNat '0' ++ digits
    else
      let fraction := digits.drop 1
      digits.take 1 ++ (if fraction.isEmpty then [] else '.' :: fraction)
        ++ 'e' :: (toString (point - 1)).toList
  if x.negative then '-' :: size else size

mutual

def chars : Json → List Char
  | null => ['n', 'u', 'l', 'l']
  | bool true => ['t', 'r', 'u', 'e']
  | bool false => ['f', 'a', 'l', 's', 'e']
  | int n => (toString n).toList
  | float x => floatChars x
  | text s => quote s
  | list [] => ['[', ']']
  | list (item :: items) => '[' :: item.chars ++ itemChars items
  | object [] => ['{', '}']
  | object ((name, value) :: fields) => '{' :: quote name ++ ':' :: value.chars ++ fieldChars fields

/-- The items after the first, and the end of the list. -/
def itemChars : List Json → List Char
  | [] => [']']
  | item :: items => ',' :: item.chars ++ itemChars items

/-- The fields after the first, and the end of the object. -/
def fieldChars : List (String × Json) → List Char
  | [] => ['}']
  | (name, value) :: fields => ',' :: quote name ++ ':' :: value.chars ++ fieldChars fields

end

def line (j : Json) : String := String.ofList j.chars

end Json

end SceneLock
