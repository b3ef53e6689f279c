import SceneLock.Yaml.Decode

/-!
Texts as YAML scalars. A text is written as it is where it would be read back as the same text;
otherwise it is quoted. A text with line breaks becomes a block where a block can hold it.
-/

namespace SceneLock.Yaml

/-- The characters that can be written without an escape. -/
def isPrintable (c : Char) : Bool :=
  let n := c.toNat
  n = 0x0A || (0x20 ≤ n && n ≤ 0x7E) || (0xA0 ≤ n && n ≠ 0xFEFF && n ≠ 0xFFFE && n ≠ 0xFFFF)

/-- A decimal number, as its digits without the point and the places behind it. -/
structure DecimalText where
  digits : List Char
  places : Int

/-- Splits `12.5e3` into its digits and the power of ten. A digit is required, a point is not. -/
def decimalText? (cs : List Char) : Option DecimalText :=
  let whole := cs.takeWhile (·.isDigit)
  let cs := cs.drop whole.length
  let (fraction, cs) := match cs with
    | '.' :: rest => (rest.takeWhile (·.isDigit), rest.dropWhile (·.isDigit))
    | cs => ([], cs)
  let digits := whole ++ fraction
  if digits.isEmpty then none
  else
    match cs with
    | [] => some ⟨digits, fraction.length⟩
    | e :: rest =>
      if e = 'e' || e = 'E' then
        let (sign, rest) : Int × List Char := match rest with
          | '+' :: rest => (1, rest)
          | '-' :: rest => (-1, rest)
          | rest => (1, rest)
        if rest.isEmpty || !rest.all (·.isDigit) then none
        else some ⟨digits, fraction.length - sign * Lexer.toNat rest⟩
      else none

/-- Whether the number is small enough for binary64: it rounds to less than `2 ^ 1024`. -/
def DecimalText.isFinite (d : DecimalText) : Bool :=
  let digits := d.digits.dropWhile (· = '0')
  let magnitude : Int := digits.length - d.places
  if digits.isEmpty || magnitude < 300 then true
  else if magnitude > 400 then false
  else
    let n := Lexer.toNat digits
    let limit := Nat.pow 2 1024 - Nat.pow 2 970
    if 0 ≤ d.places then n < limit * Nat.pow 10 d.places.toNat
    else n * Nat.pow 10 (-d.places).toNat < limit

/-- Whether the text would be read as a number that is not whole, or not finite. -/
def looksFractional (cs : List Char) : Bool :=
  let infinite := [".inf", ".Inf", ".INF"].map String.toList
  let undefined := [".nan", ".NaN", ".NAN"].map String.toList
  let finite (cs : List Char) := (decimalText? cs).any (·.isFinite)
  match cs with
  | '+' :: rest => infinite.contains rest || finite rest
  | '-' :: rest => infinite.contains rest || finite rest
  | cs => infinite.contains cs || undefined.contains cs || finite cs

/-- Whether the text would be read as a whole number of at most 128 bits. -/
def looksWhole (cs : List Char) : Bool :=
  match cs with
  | '-' :: '0' :: 'x' :: rest => (Decode.digits? 16 rest).any (· ≤ Nat.pow 2 127)
  | '-' :: '0' :: 'o' :: rest => (Decode.digits? 8 rest).any (· ≤ Nat.pow 2 127)
  | '-' :: '0' :: 'b' :: rest => (Decode.digits? 2 rest).any (· ≤ Nat.pow 2 127)
  | '-' :: rest => !Decode.isZeroPadded rest && (Decode.digits? 10 rest).any (· ≤ Nat.pow 2 127)
  | cs => (Decode.unsigned? (String.ofList cs)).any (· < Nat.pow 2 128)

/-- Whether the bare text would not be read as a text. -/
def looksOther (text : String) : Bool :=
  let cs := text.toList
  let unsigned := match cs with
    | '+' :: rest | '-' :: rest => rest
    | cs => cs
  text = "" || Decode.isNull text || (Decode.bool? text).isSome || looksWhole cs
    || looksFractional cs || Decode.isZeroPadded unsigned

/-- What of a text decides how it can be written. -/
structure Shape where
  /-- Some character would be taken for a mark. -/
  marked : Bool
  broken : Bool
  unprintable : Bool
  /-- The text starts or ends with a space or a break. -/
  loose : Bool
  spaceLast : Bool
  spaceAfterBreak : Bool
  breakAfterSpace : Bool

namespace Shape

def isGap (c : Char) : Bool := isBlank c || isBreak c || c.toNat = 0

/-- Whether a character behind the first one would be taken for a mark. -/
def innerMark : List Char → Bool
  | a :: b :: rest =>
    (b = '#' && isGap a) || (b = ':' && (match rest with | c :: _ => isGap c | [] => true))
      || innerMark (b :: rest)
  | _ => false

def firstMark : List Char → Bool
  | '-' :: '-' :: '-' :: _ | '.' :: '.' :: '.' :: _ => true
  | c :: rest =>
    c ∈ ['#', ',', '[', ']', '{', '}', '&', '*', '!', '|', '>', '\'', '"', '%', '@',
        Char.ofNat 0x60]
      || (c ∈ ['?', ':', '-'] && (match rest with | d :: _ => isGap d | [] => true))
  | [] => false

/-- Whether a character of the first kind is directly followed by one of the second. -/
def follows (p q : Char → Bool) : List Char → Bool
  | a :: b :: rest => (p a && q b) || follows p q (b :: rest)
  | _ => false

def of (cs : List Char) : Shape :=
  let isLoose (c : Option Char) := c.any fun c => c = ' ' || isBreak c
  { marked := firstMark cs || innerMark cs
    broken := cs.any isBreak
    unprintable := cs.any (!isPrintable ·)
    loose := isLoose cs.head? || isLoose cs.getLast?
    spaceLast := cs.getLast? = some ' '
    spaceAfterBreak := follows isBreak (· = ' ') cs
    breakAfterSpace := follows (· = ' ') isBreak cs }

def allowsPlain (s : Shape) : Bool :=
  !(s.marked || s.broken || s.unprintable || s.loose || s.spaceAfterBreak || s.breakAfterSpace)

def allowsSingle (s : Shape) : Bool :=
  !(s.unprintable || s.spaceAfterBreak || s.breakAfterSpace)

def allowsBlock (s : Shape) : Bool := !(s.unprintable || s.spaceLast || s.breakAfterSpace)

end Shape

/-- How a text is written. A bare text that would mean something else is quoted; if its style cannot
hold a text, double quotes do. -/
def styleFor (text : String) : Style :=
  let shape := Shape.of text.toList
  if text.contains '\n' then if shape.allowsBlock then .literal else .double
  else if !looksOther text && shape.allowsPlain then .plain
  else if shape.allowsSingle then .single
  else .double

/-- The lines of a text below each other, each behind `indent` spaces. A break that a text holds is
written as it is. `fresh` tells whether a line has just begun. -/
def indented (indent : Nat) (double : Char → List Char) : (fresh : Bool) → List Char → List Char
  | _, [] => []
  | fresh, c :: cs =>
    if isBreak c then c :: indented indent double true cs
    else
      (if fresh then List.replicate indent ' ' else []) ++ double c
        ++ indented indent double false cs

def endsBroken (cs : List Char) : Bool := cs.getLast?.any isBreak

def singleQuoted (indent : Nat) (cs : List Char) : List Char :=
  '\'' :: indented indent (fun c => if c = '\'' then ['\'', '\''] else [c]) false cs
    ++ (if endsBroken cs then List.replicate indent ' ' else []) ++ ['\'']

/-- The lowest hexadecimal digits of a number. -/
def hexDigits : (count n : Nat) → List Char
  | 0, _ => []
  | count + 1, n =>
    let d := n % 16
    hexDigits count (n / 16) ++ [if d < 10 then Char.ofNat (d + 48) else Char.ofNat (d + 55)]

def escape (c : Char) : List Char :=
  let n := c.toNat
  match n with
  | 0x00 => ['\\', '0']
  | 0x07 => ['\\', 'a']
  | 0x08 => ['\\', 'b']
  | 0x09 => ['\\', 't']
  | 0x0A => ['\\', 'n']
  | 0x0B => ['\\', 'v']
  | 0x0C => ['\\', 'f']
  | 0x0D => ['\\', 'r']
  | 0x1B => ['\\', 'e']
  | 0x22 => ['\\', '"']
  | 0x5C => ['\\', '\\']
  | 0x85 => ['\\', 'N']
  | 0xA0 => ['\\', '_']
  | 0x2028 => ['\\', 'L']
  | 0x2029 => ['\\', 'P']
  | _ =>
    if n ≤ 0xFF then '\\' :: 'x' :: hexDigits 2 n
    else if n ≤ 0xFFFF then '\\' :: 'u' :: hexDigits 4 n
    else '\\' :: 'U' :: hexDigits 8 n

def doubleQuoted (cs : List Char) : List Char :=
  let write (c : Char) : List Char :=
    if !isPrintable c || isBreak c || c = '"' || c = '\\' then escape c else [c]
  '"' :: cs.flatMap write ++ ['"']

/-- The marks behind the sign of a block: the indentation, if the text starts with a gap, and what
becomes of its last breaks. -/
def blockMarks (cs : List Char) : List Char :=
  let gapFirst := cs.head?.any fun c => c = ' ' || isBreak c
  let chomp := match cs.reverse with
    | a :: b :: _ => if !isBreak a then ['-'] else if isBreak b then ['+'] else []
    | [a] => if isBreak a then ['+'] else ['-']
    | [] => ['-']
  (if gapFirst then ['2'] else []) ++ chomp

def literal (indent : Nat) (cs : List Char) : List Char :=
  '|' :: blockMarks cs ++ '\n' :: indented indent (fun c => [c]) true cs
    ++ (if endsBroken cs then [] else ['\n'])

/-- A text as the value behind a colon, to the end of its last line. -/
def scalarText (indent : Nat) (text : String) : List Char :=
  let cs := text.toList
  match styleFor text with
  | .plain => cs ++ ['\n']
  | .single => singleQuoted indent cs ++ ['\n']
  | .literal | .folded => literal indent cs
  | .double => doubleQuoted cs ++ ['\n']

/-- A line of a map: the key behind what leads the line, and a text. -/
def textField (lead key : String) (indent : Nat) (text : String) : List Char :=
  lead.toList ++ key.toList ++ ':' :: ' ' :: scalarText indent text

def numberField (key : String) (n : Nat) : List Char :=
  key.toList ++ ':' :: ' ' :: (toString n).toList ++ ['\n']

end SceneLock.Yaml
