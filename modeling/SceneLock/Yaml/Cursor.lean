/-!
Positions in a YAML text. The text is seen line by line; a position is the rest of one line
together with the lines below it.
-/

namespace SceneLock.Yaml

/-- A line break, of which there are six spellings: `\r\n` counts as one. -/
def isBreak (c : Char) : Bool :=
  c = '\n' || c = '\r' || c.toNat = 0x85 || c.toNat = 0x2028 || c.toNat = 0x2029

def isBlank (c : Char) : Bool := c = ' ' || c = '\t'

/-- The characters of names: letters and digits of ASCII, `_` and `-`. -/
def isWord (c : Char) : Bool := c.isAlphanum || c = '_' || c = '-'

/-- The characters that a text may hold. -/
def isAllowed (c : Char) : Bool :=
  let n := c.toNat
  n = 0x09 || n = 0x0A || n = 0x0D || (0x20 ≤ n && n ≤ 0x7E) || n = 0x85 || (0xA0 ≤ n && n ≤ 0xD7FF)
    || (0xE000 ≤ n && n ≤ 0xFFFD && n ≠ 0xFEFF) || (0x10000 ≤ n && n ≤ 0x10FFFF)

/-- A line and its break, as a break stands for itself in a scalar. The last line has none. -/
structure Line where
  text : List Char
  ending : List Char
  deriving Repr, DecidableEq

/-- The break that a scalar keeps: the two Unicode separators as they are, all others as `\n`. -/
def breakText (c : Char) : List Char :=
  if c.toNat = 0x2028 || c.toNat = 0x2029 then [c] else ['\n']

/-- The first line of a text, and the others. -/
def splitLines : List Char → Line × List Line
  | [] => (⟨[], []⟩, [])
  | '\r' :: '\n' :: rest =>
    let (first, others) := splitLines rest
    (⟨[], ['\n']⟩, first :: others)
  | c :: rest =>
    let (first, others) := splitLines rest
    if isBreak c then (⟨[], breakText c⟩, first :: others)
    else ({ first with text := c :: first.text }, others)

structure Cursor where
  /-- The rest of the line. -/
  rest : List Char
  /-- The break of the line. -/
  ending : List Char
  below : List Line
  column : Nat
  /-- The number of the line. -/
  row : Nat

namespace Cursor

def ofChars (cs : List Char) : Cursor :=
  let (first, others) := splitLines cs
  ⟨first.text, first.ending, others, 0, 0⟩

def atEnd (c : Cursor) : Bool := c.rest.isEmpty && c.below.isEmpty

def skip (c : Cursor) (n : Nat) : Cursor :=
  { c with rest := c.rest.drop n, column := c.column + n }

/-- Goes to the start of the next line, if there is one. -/
def nextLine (c : Cursor) : Cursor :=
  match c.below with
  | [] => { c with rest := [] }
  | line :: below => ⟨line.text, line.ending, below, 0, c.row + 1⟩

/-- Whether the line ends here or goes on with a blank. -/
def endsAt (cs : List Char) : Bool :=
  match cs with
  | [] => true
  | c :: _ => isBlank c

def isBlankAt (c : Cursor) (n : Nat) : Bool := endsAt (c.rest.drop n)

/-- Whether the line is a document marker, alone or followed by a blank. -/
def atMarker (c : Cursor) (marker : Char) : Bool :=
  c.column = 0 && match c.rest with
    | a :: b :: d :: rest => a = marker && b = marker && d = marker && endsAt rest
    | _ => false

end Cursor

end SceneLock.Yaml
