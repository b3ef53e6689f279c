import SceneLock.Yaml.Scalar
import SceneLock.Yaml.Token

/-!
From a YAML text to its tokens. The structure of block style shows only in the indentation: a column
further in opens a list or map, a column further out closes those it leaves. That a token began a
map key shows only at the colon behind it, so the place where a key may have begun is remembered.
-/

namespace SceneLock.Yaml

/-- A place where a map key may have begun. -/
structure KeyStart where
  /-- Whether nothing but a key can stand here. -/
  required : Bool
  /-- How many tokens come before it. -/
  position : Nat
  row : Nat
  column : Nat

structure Lexer where
  cursor : Cursor
  /-- The tokens read so far, the latest first. -/
  tokens : List Token := []
  count : Nat := 0
  /-- The column of the innermost open block, or -1 outside of all. -/
  indent : Int := -1
  outerIndents : List Int := []
  keyAllowed : Bool := true
  keyStart : Option KeyStart := none
  /-- The places remembered outside of each open bracket, the innermost first. -/
  outerStarts : List (Option KeyStart) := []

namespace Lexer

def inFlow (l : Lexer) : Bool := !l.outerStarts.isEmpty

def add (l : Lexer) (t : Token) : Lexer := { l with tokens := t :: l.tokens, count := l.count + 1 }

/-- Puts a token in front of those from the given position on. -/
def insertAt (l : Lexer) (position : Nat) (t : Token) : Lexer :=
  let later := l.count - position
  { l with tokens := l.tokens.take later ++ t :: l.tokens.drop later, count := l.count + 1 }

def skip (l : Lexer) (n : Nat) : Lexer := { l with cursor := l.cursor.skip n }

/-- Opens a block at a column further in than the block around it. -/
def openBlock (l : Lexer) (column : Nat) (position : Nat) (t : Token) : Lexer :=
  if !l.inFlow && l.indent < column then
    { l with indent := column, outerIndents := l.indent :: l.outerIndents }.insertAt position t
  else l

/-- Closes the blocks further in than a column. -/
def closeBlocks (column : Int) : List Int → Lexer → Lexer
  | [], l => l
  | outer :: rest, l =>
    if l.indent > column then
      closeBlocks column rest { l.add .blockEnd with indent := outer, outerIndents := rest }
    else l

def closeTo (l : Lexer) (column : Int) : Lexer :=
  if l.inFlow then l else closeBlocks column l.outerIndents l

/-- A key must stand on one line, and its colon must not be too far away. -/
def isStale (c : Cursor) (k : KeyStart) : Bool := k.row < c.row || k.column + 1024 < c.column

def refresh (c : Cursor) : Option KeyStart → Option (Option KeyStart)
  | none => some none
  | some k => if isStale c k then if k.required then none else some none else some (some k)

/-- Forgets the places from which a key is not possible any more. -/
def dropStale (l : Lexer) : Option Lexer := do
  let keyStart ← refresh l.cursor l.keyStart
  let outerStarts ← l.outerStarts.mapM (refresh l.cursor)
  return { l with keyStart, outerStarts }

def forgetKey (l : Lexer) : Option Lexer :=
  match l.keyStart with
  | some k => if k.required then none else some { l with keyStart := none }
  | none => some l

/-- Remembers that a key may begin here. -/
def saveKey (l : Lexer) : Option Lexer :=
  if l.keyAllowed then
    let start : KeyStart :=
      ⟨!l.inFlow && l.indent = l.cursor.column, l.count, l.cursor.row, l.cursor.column⟩
    l.forgetKey.map fun l => { l with keyStart := some start }
  else some l

/-- Blanks in front of a token. Where a key may begin, a tab is none. -/
def isSpace (l : Lexer) (c : Char) : Bool :=
  c = ' ' || (c = '\t' && (l.inFlow || !l.keyAllowed))

/-- Skips the blanks and the comment in the rest of the line. -/
def skipBlanks (l : Lexer) : Lexer :=
  let l := l.skip (l.cursor.rest.takeWhile l.isSpace).length
  match l.cursor.rest with
  | '#' :: _ => l.skip l.cursor.rest.length
  | _ => l

/-- Goes to the next token, past blanks, comments, and the ends of lines. -/
def toToken (lines : Nat) (l : Lexer) : Lexer :=
  let l := l.skipBlanks
  match lines with
  | 0 => l
  | lines + 1 =>
    if l.cursor.rest.isEmpty && !l.cursor.below.isEmpty then
      toToken lines { l with
        cursor := l.cursor.nextLine
        keyAllowed := l.keyAllowed || !l.inFlow }
    else l

/-- Ends every block in front of a directive or a document marker. -/
def leaveBlocks (l : Lexer) : Option Lexer := do
  let l ← (l.closeTo (-1)).forgetKey
  return { l with keyAllowed := false }

def endOfText (l : Lexer) : Option (List Token) := do
  let l ← l.leaveBlocks
  return (l.add .textEnd).tokens.reverse

/-- Only blanks and a comment may follow. -/
def endsLine (cs : List Char) : Bool :=
  match cs.dropWhile isBlank with
  | [] => true
  | c :: _ => c = '#'

def toNat (digits : List Char) : Nat := digits.foldl (fun n c => n * 10 + (c.toNat - 48)) 0

/-- A number of at most nine digits. -/
def versionNumber (cs : List Char) : Option (Nat × List Char) :=
  let digits := cs.takeWhile (·.isDigit)
  if digits.isEmpty || digits.length > 9 then none else some (toNat digits, cs.drop digits.length)

/-- The handle of a tag: `!`, or a name between two of them. -/
def tagHandle (directive : Bool) : List Char → Option (List Char × List Char)
  | '!' :: rest =>
    let name := rest.takeWhile isWord
    match rest.drop name.length with
    | '!' :: rest => some ('!' :: name ++ ['!'], rest)
    | rest => if directive && !name.isEmpty then none else some ('!' :: name, rest)
  | _ => none

def isUriChar (brackets : Bool) (c : Char) : Bool :=
  isWord c || c ∈ [';', '/', '?', ':', '@', '&', '=', '+', '$', '.', '!', '~', '*', '\'', '(', ')']
    || (brackets && c ∈ [',', '[', ']'])

/-- One octet of an escaped character. -/
def uriOctet : List Char → Option (Nat × List Char)
  | '%' :: a :: b :: rest => do return ((← hexValue? a) * 16 + (← hexValue? b), rest)
  | _ => none

/-- Reads the following octets of a character, which all start with the bits `10`. -/
def uriOctets : Nat → Nat → List Char → Option (Nat × List Char)
  | 0, n, cs => some (n, cs)
  | more + 1, n, cs => do
    let (octet, cs) ← uriOctet cs
    if octet / 64 ≠ 2 then none else uriOctets more (n * 64 + octet % 64) cs

def uriEscape (cs : List Char) : Option (Char × List Char) := do
  let (octet, cs) ← uriOctet cs
  let (n, cs) ←
    if octet < 0x80 then some (octet, cs)
    else if octet / 32 = 6 then uriOctets 1 (octet % 32) cs
    else if octet / 16 = 14 then uriOctets 2 (octet % 16) cs
    else if octet / 8 = 30 then uriOctets 3 (octet % 8) cs
    else none
  return (Char.ofNat n, cs)

/-- The characters of a tag up to one that cannot be part of it. -/
def uriRun (brackets : Bool) : (bound : Nat) → List Char → Option (List Char × List Char)
  | 0, cs => some ([], cs)
  | bound + 1, cs =>
    match cs with
    | [] => some ([], [])
    | c :: rest =>
      if c = '%' then do
        let (x, rest) ← uriEscape cs
        let (run, rest) ← uriRun brackets bound rest
        return (x :: run, rest)
      else if isUriChar brackets c then
        (uriRun brackets bound rest).map fun (run, e) => (c :: run, e)
      else some ([], cs)

def uri (brackets : Bool) (cs : List Char) : Option (List Char × List Char) :=
  uriRun brackets cs.length cs

/-- A tag as its handle and suffix, and what follows. -/
def tagParts : List Char → Option (List Char × List Char × List Char)
  | '!' :: '<' :: rest =>
    match uri true rest with
    | some (c :: suffix, '>' :: rest) => some ([], c :: suffix, rest)
    | _ => none
  | cs => do
    let (handle, rest) ← tagHandle false cs
    if handle.length > 1 && handle.getLast? = some '!' then
      match ← uri false rest with
      | ([], _) => none
      | (suffix, rest) => some (handle, suffix, rest)
    else
      let (suffix, rest) ← uri false rest
      let suffix := handle.drop 1 ++ suffix
      if suffix.isEmpty then some ([], ['!'], rest) else some (['!'], suffix, rest)

/-- A directive from behind its percent sign. There are directives for the version and for tags. -/
def directive (cs : List Char) : Option Token := do
  let name := cs.takeWhile isWord
  let cs := cs.drop name.length
  if !Cursor.endsAt cs then none
  else
    let cs := cs.dropWhile isBlank
    if name = ['Y', 'A', 'M', 'L'] then
      match ← versionNumber cs with
      | (major, '.' :: cs) =>
        let (minor, cs) ← versionNumber cs
        if endsLine cs then some (.version major minor) else none
      | _ => none
    else if name = ['T', 'A', 'G'] then
      let (handle, cs) ← tagHandle true cs
      match cs with
      | c :: _ =>
        if !isBlank c then none
        else
          match ← uri true (cs.dropWhile isBlank) with
          | ([], _) => none
          | (expansion, cs) =>
            if Cursor.endsAt cs && endsLine cs then
              some (.tagDirective (String.ofList handle) (String.ofList expansion))
            else none
      | [] => none
    else none

def readDirective (l : Lexer) : Option Lexer := do
  let l ← l.leaveBlocks
  let t ← directive (l.cursor.rest.drop 1)
  return (l.skip l.cursor.rest.length).add t

def readMarker (l : Lexer) (t : Token) : Option Lexer := do
  let l ← l.leaveBlocks
  return (l.skip 3).add t

def openFlow (l : Lexer) (t : Token) : Option Lexer := do
  let l ← l.saveKey
  return { l.skip 1 with
    keyStart := none, outerStarts := l.keyStart :: l.outerStarts, keyAllowed := true }.add t

def closeFlow (l : Lexer) (t : Token) : Option Lexer := do
  let l ← l.forgetKey
  let l := match l.outerStarts with
    | [] => l
    | start :: outerStarts => { l with keyStart := start, outerStarts }
  return { l.skip 1 with keyAllowed := false }.add t

def readFlowEntry (l : Lexer) : Option Lexer := do
  let l ← l.forgetKey
  return { l.skip 1 with keyAllowed := true }.add .flowEntry

def readBlockEntry (l : Lexer) : Option Lexer := do
  if !l.inFlow && !l.keyAllowed then none
  else
    let l ← (l.openBlock l.cursor.column l.count .blockListStart).forgetKey
    return { l.skip 1 with keyAllowed := true }.add .blockEntry

def readKey (l : Lexer) : Option Lexer := do
  if !l.inFlow && !l.keyAllowed then none
  else
    let l ← (l.openBlock l.cursor.column l.count .blockMapStart).forgetKey
    return { l.skip 1 with keyAllowed := !l.inFlow }.add .key

/-- At a colon, the key in front of it gets its mark after the fact. -/
def readValue (l : Lexer) : Option Lexer :=
  match l.keyStart with
  | some k =>
    let l := (l.insertAt k.position .key).openBlock k.column k.position .blockMapStart
    some ({ l.skip 1 with keyStart := none, keyAllowed := false }.add .value)
  | none =>
    if !l.inFlow && !l.keyAllowed then none
    else
      let l := l.openBlock l.cursor.column l.count .blockMapStart
      some ({ l.skip 1 with keyAllowed := !l.inFlow }.add .value)

/-- The name behind the sign of an anchor or an alias. -/
def readName (l : Lexer) (t : String → Token) : Option Lexer := do
  let l ← l.saveKey
  let rest := l.cursor.rest.drop 1
  let name := rest.takeWhile isWord
  let ends := match rest.drop name.length with
    | [] => true
    | c :: _ => isBlank c || c ∈ ['?', ':', ',', ']', '}', '%', '@', Char.ofNat 0x60]
  if name.isEmpty || !ends then none
  else return { l.skip (name.length + 1) with keyAllowed := false }.add (t (String.ofList name))

def readTag (l : Lexer) : Option Lexer := do
  let l ← l.saveKey
  let (handle, suffix, rest) ← tagParts l.cursor.rest
  let ends := Cursor.endsAt rest || (l.inFlow && rest.head? = some ',')
  if !ends then none
  else
    let l := l.skip (l.cursor.rest.length - rest.length)
    return { l with keyAllowed := false }.add (.tag (String.ofList handle) (String.ofList suffix))

def readBlock (l : Lexer) (folded : Bool) : Option Lexer := do
  let l ← l.forgetKey
  let (text, cursor) ← block folded l.indent (l.cursor.skip 1)
  let style := if folded then Style.folded else .literal
  return { l with cursor, keyAllowed := true }.add (.scalar style (String.ofList text))

def readQuoted (l : Lexer) (bound : Nat) (double : Bool) : Option Lexer := do
  let l ← l.saveKey
  let (text, cursor) ← quotedFrom double bound [] (l.cursor.skip 1)
  let style := if double then Style.double else .single
  return { l with cursor, keyAllowed := false }.add (.scalar style (String.ofList text))

def readPlain (l : Lexer) (bound : Nat) : Option Lexer := do
  let l ← l.saveKey
  let scalar ← plain bound l.inFlow (l.indent + 1).toNat l.cursor
  return { l with cursor := scalar.cursor, keyAllowed := scalar.broken }.add
    (.scalar .plain (String.ofList scalar.text))

/-- The characters with which no plain scalar begins, some of them unless a text follows. -/
def isIndicator (c : Char) : Bool :=
  c ∈ ['-', '?', ':', ',', '[', ']', '{', '}', '#', '&', '*', '!', '|', '>', '\'', '"', '%', '@',
    Char.ofNat 0x60]

/-- Reads the token at the cursor, which begins with `c`. -/
def readToken (l : Lexer) (bound : Nat) (c : Char) : Option Lexer :=
  let blankNext := l.cursor.isBlankAt 1
  if l.cursor.column = 0 && c = '%' then l.readDirective
  else if l.cursor.atMarker '-' then l.readMarker .documentStart
  else if l.cursor.atMarker '.' then l.readMarker .documentEnd
  else if c = '[' then l.openFlow .flowListStart
  else if c = '{' then l.openFlow .flowMapStart
  else if c = ']' then l.closeFlow .flowListEnd
  else if c = '}' then l.closeFlow .flowMapEnd
  else if c = ',' then l.readFlowEntry
  else if c = '-' && blankNext then l.readBlockEntry
  else if c = '?' && (l.inFlow || blankNext) then l.readKey
  else if c = ':' && (l.inFlow || blankNext) then l.readValue
  else if c = '*' then l.readName .alias
  else if c = '&' then l.readName .anchor
  else if c = '!' then l.readTag
  else if c = '|' && !l.inFlow then l.readBlock false
  else if c = '>' && !l.inFlow then l.readBlock true
  else if c = '\'' then l.readQuoted bound false
  else if c = '"' then l.readQuoted bound true
  else if !(isBlank c || isIndicator c) || c = '-' || (!l.inFlow && (c = '?' || c = ':')) then
    l.readPlain bound
  else none

/-- Reads token after token. No more of them come than there are characters. -/
def run : (bound : Nat) → Lexer → Option (List Token)
  | 0, _ => none
  | bound + 1, l => do
    let l ← (l.toToken l.cursor.below.length).dropStale
    let l := l.closeTo l.cursor.column
    match l.cursor.rest with
    | [] => l.endOfText
    | c :: _ => run bound (← l.readToken (bound + 1) c)

end Lexer

/-- A byte order mark counts only at the very start. -/
def withoutMark : List Char → List Char
  | c :: cs => if c.toNat = 0xFEFF then cs else c :: cs
  | [] => []

def tokens (text : String) : Option (List Token) :=
  let cs := withoutMark text.toList
  if cs.all isAllowed then Lexer.run (cs.length + 2) { cursor := .ofChars cs } else none

end SceneLock.Yaml
