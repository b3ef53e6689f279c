import SceneLock.Json.Token
import SceneLock.Json.Value

/-!
JSON texts as trees. A tree is read from the words of a text with a stack of the lists and objects
that are still open. Strings and numbers get their meaning in a second step, so that a part nobody
asks for may hold an impossible number, an unpaired surrogate, or any depth of nesting.
-/

namespace SceneLock.Json

inductive Node
  | null
  | bool (b : Bool)
  | string (raw : List Char)
  | number (n : Numeral)
  | list (items : List Node)
  | object (fields : List (List Char × Node))
  deriving Inhabited

/-- A list or object that is still open, with what stands in it so far, the latest first. -/
inductive Frame
  | items (before : List Node)
  | fields (before : List (List Char × Node)) (name : List Char)

/-- What a text may go on with. -/
inductive Expected
  | value (stack : List Frame)
  | firstItem (stack : List Frame)
  | firstName (stack : List Frame)
  | name (stack : List Frame) (before : List (List Char × Node))
  | colon (stack : List Frame) (before : List (List Char × Node)) (name : List Char)
  /-- A value is complete; a comma or the end of what is open follows. -/
  | more (stack : List Frame) (value : Node)

namespace Expected

def valueStep (stack : List Frame) : Token → Option Expected
  | .openList => some (.firstItem stack)
  | .openObject => some (.firstName stack)
  | .null => some (.more stack .null)
  | .bool b => some (.more stack (.bool b))
  | .string raw => some (.more stack (.string raw))
  | .number n => some (.more stack (.number n))
  | _ => none

def step : Expected → Token → Option Expected
  | value stack, t => valueStep stack t
  | firstItem stack, .closeList => some (.more stack (.list []))
  | firstItem stack, t => valueStep (.items [] :: stack) t
  | firstName stack, .closeObject => some (.more stack (.object []))
  | firstName stack, .string raw => some (.colon stack [] raw)
  | firstName _, _ => none
  | name stack before, .string raw => some (.colon stack before raw)
  | name _ _, _ => none
  | colon stack before raw, .colon => some (.value (.fields before raw :: stack))
  | colon _ _ _, _ => none
  | more (.items before :: stack) v, .comma => some (.value (.items (v :: before) :: stack))
  | more (.items before :: stack) v, .closeList => some (.more stack (.list (v :: before).reverse))
  | more (.fields before raw :: stack) v, .comma => some (.name stack ((raw, v) :: before))
  | more (.fields before raw :: stack) v, .closeObject =>
    some (.more stack (.object ((raw, v) :: before).reverse))
  | more _ _, _ => none

end Expected

/-- The tree of a text that holds exactly one value. -/
def Node.ofChars? (cs : List Char) : Option Node := do
  match (← tokens cs).foldlM Expected.step (.value []) with
  | some (.more [] v) => some v
  | _ => none

def hexValue (c : Char) : Nat :=
  if c.isDigit then c.toNat - 48 else if 'a' ≤ c then c.toNat - 87 else c.toNat - 55

def hexValue4 (a b c d : Char) : Nat :=
  ((hexValue a * 16 + hexValue b) * 16 + hexValue c) * 16 + hexValue d

def escaped (c : Char) : Char :=
  match c with
  | 'b' => Char.ofNat 8
  | 'f' => Char.ofNat 12
  | 'n' => '\n'
  | 'r' => '\r'
  | 't' => '\t'
  | c => c

/-- The text that a string stands for. A surrogate must be one half of a pair. -/
def unescape : List Char → Option (List Char)
  | '\\' :: 'u' :: a :: b :: c :: d :: rest =>
    let high := hexValue4 a b c d
    if 0xD800 ≤ high && high < 0xDC00 then
      match rest with
      | '\\' :: 'u' :: a :: b :: c :: d :: rest =>
        let low := hexValue4 a b c d
        if 0xDC00 ≤ low && low < 0xE000 then
          (unescape rest).map (Char.ofNat (0x10000 + (high - 0xD800) * 0x400 + (low - 0xDC00)) :: ·)
        else none
      | _ => none
    else if 0xDC00 ≤ high && high < 0xE000 then none
    else (unescape rest).map (Char.ofNat high :: ·)
  | '\\' :: c :: rest => (unescape rest).map (escaped c :: ·)
  | c :: rest => (unescape rest).map (c :: ·)
  | [] => some []

def text? (raw : List Char) : Option String := (unescape raw).map String.ofList

namespace Numeral

def digit (c : Char) : Nat := c.toNat - 48

/-- The greatest significand that is kept whole. -/
def limit : Nat := 18446744073709551615

/-- The greatest size of a negative number that is kept whole. -/
def negativeLimit : Nat := 9223372036854775808

/-- Reads digits as long as the significand stays within the limit, and counts them. -/
def gather (significand count : Nat) : List Char → Nat × Nat × List Char
  | [] => (significand, count, [])
  | c :: cs =>
    let next := significand * 10 + digit c
    if next > limit then (significand, count, c :: cs) else gather next (count + 1) cs

def exponentLimit : Nat := 2147483647

/-- The exponent behind the `e`, unless it is beyond all bounds. -/
def boundedExponent (digits : List Char) : Option Nat :=
  digits.foldlM (fun n c =>
    let next := n * 10 + digit c
    if next > exponentLimit then none else some next) 0

def powerOfTen (k : Nat) : Option Binary64 := Binary64.ofRatio? false (Nat.pow 10 k) 1

/-- Divides by the greatest power of ten in the table until the exponent is in the table too. -/
def divideDown (x : Binary64) (exponent : Nat) : Option Binary64 :=
  if exponent ≤ 308 then (powerOfTen exponent).bind x.div?
  else if x.mantissa = 0 then some x
  else ((powerOfTen 308).bind x.div?).bind fun x => divideDown x (exponent - 308)
termination_by exponent

/-- The significand and the power of ten are rounded one by one, and their product again. -/
def assemble (significand : Nat) (exponent : Int) : Option Binary64 := do
  let x ← Binary64.ofRatio? false significand 1
  if 0 ≤ exponent then
    if exponent ≤ 308 then x.mul? (← powerOfTen exponent.toNat)
    else if significand = 0 then some x else none
  else divideDown x (-exponent).toNat

/-- The size of a number that is not kept whole. Digits for which the significand has no room
count as places only, and behind the point not at all. -/
def size (n : Numeral) : Option Binary64 :=
  let (whole, _, dropped) := gather 0 0 n.whole
  let (significand, places, _) := gather whole 0 n.fraction
  let shift : Int := (dropped.length : Int) - places
  match n.exponent with
  | none => assemble significand shift
  | some (negative, digits) =>
    match boundedExponent digits with
    | some e => assemble significand (if negative then shift - e else shift + e)
    | none => if significand ≠ 0 && !negative then none else some (Binary64.zero false)

/-- The number a numeral stands for, unless it is too large. -/
def json? (n : Numeral) : Option Json :=
  let (whole, _, dropped) := gather 0 0 n.whole
  if n.plain && dropped.isEmpty && !n.negative then some (.int whole)
  else if n.plain && dropped.isEmpty && whole ≠ 0 && whole ≤ negativeLimit then some (.int (-whole))
  else n.size.map fun x => .float (x.withSign n.negative)

end Numeral

mutual

/-- The value of a tree, if lists and objects nest less than `depth` deep. -/
def Node.json? (depth : Nat) : Node → Option Json
  | .null => some .null
  | .bool b => some (.bool b)
  | .string raw => (text? raw).map .text
  | .number n => n.json?
  | .list items => if depth ≤ 1 then none else (Node.listJson? (depth - 1) items).map .list
  | .object fields =>
    if depth ≤ 1 then none else (Node.fieldsJson? (depth - 1) fields).map ofFields

def Node.listJson? (depth : Nat) : List Node → Option (List Json)
  | [] => some []
  | item :: items => do return (← item.json? depth) :: (← Node.listJson? depth items)

def Node.fieldsJson? (depth : Nat) : List (List Char × Node) → Option (List (String × Json))
  | [] => some []
  | (raw, value) :: fields => do
    return (← text? raw, ← value.json? depth) :: (← Node.fieldsJson? depth fields)

end

/-- A text can be read if it nests at most this deep, less one. -/
def depthLimit : Nat := 128

/-- The value of a text that holds exactly one. -/
def ofString? (s : String) : Option Json := do
  (← Node.ofChars? s.toList).json? depthLimit

end SceneLock.Json
