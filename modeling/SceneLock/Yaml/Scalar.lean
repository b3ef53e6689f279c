import SceneLock.Yaml.Cursor

/-!
The text of scalars. Plain and quoted scalars may run over several lines, which are folded: a single
break becomes a space, further breaks stay. Block scalars keep their lines, or fold them.
-/

namespace SceneLock.Yaml

/-- What separates two words of a scalar: blanks, or the first break and those after it. -/
inductive Gap
  | blanks (text : List Char)
  | breaks (first others : List Char)

/-- A break is folded into a space, unless more of them follow. -/
def Gap.text : Gap → List Char
  | blanks text => text
  | breaks first others =>
    if first = ['\n'] then if others.isEmpty then [' '] else others else first ++ others

def Gap.isBroken : Gap → Bool
  | blanks _ => false
  | breaks _ _ => true

/-- Whether a tab stands among the blanks in front, left of the given column. -/
def tabBefore (limit : Nat) (rest : List Char) : Bool :=
  ((rest.takeWhile isBlank).take limit).contains '\t'

/-- Goes over empty lines to the next word. Left of column `limit`, blanks must be spaces. -/
def emptyLines (limit : Nat) (first : List Char) : (others : List Char) → (row : Nat) → List Line →
    Option (Gap × Cursor)
  | others, row, [] => some (.breaks first others, ⟨[], [], [], 0, row⟩)
  | others, row, line :: below =>
    if tabBefore limit line.text then none
    else
      let rest := line.text.dropWhile isBlank
      if rest.isEmpty && !line.ending.isEmpty then
        emptyLines limit first (others ++ line.ending) (row + 1) below
      else
        some (.breaks first others,
          ⟨rest, line.ending, below, line.text.length - rest.length, row + 1⟩)

/-- Goes from the end of one word to the next, or to the end of the text. -/
def gap (limit : Nat) (c : Cursor) : Option (Gap × Cursor) :=
  let blanks := c.rest.takeWhile isBlank
  let c := c.skip blanks.length
  if c.rest.isEmpty && !c.below.isEmpty then emptyLines limit c.ending [] c.row c.below
  else some (.blanks blanks, c)

/-- Goes on after a break that was escaped, or to the next line. -/
def gapAfterBreak (c : Cursor) : Option (Gap × Cursor) := emptyLines 0 [] [] c.row c.below

def isFlowMark (c : Char) : Bool := c ∈ [',', '[', ']', '{', '}']

/-- The characters of a plain scalar up to the next blank, the end of the line, or a mark that ends
the scalar. Inside brackets a colon must not touch a mark. -/
def plainRun (inFlow : Bool) : List Char → Option (List Char × List Char)
  | [] => some ([], [])
  | c :: rest =>
    if inFlow && c = ':' && (match rest with | d :: _ => isFlowMark d || d = '?' | [] => false)
    then none
    else if isBlank c || (c = ':' && Cursor.endsAt rest) || (inFlow && isFlowMark c) then
      some ([], c :: rest)
    else (plainRun inFlow rest).map fun (run, rest) => (c :: run, rest)

structure PlainScalar where
  text : List Char
  cursor : Cursor
  /-- Whether the scalar was followed by a line break. -/
  broken : Bool

/-- A plain scalar, read word by word. Outside of brackets it ends where a line is not indented. -/
def plainFrom (inFlow : Bool) (indent : Nat) :
    (bound : Nat) → (text : List Char) → (between : Gap) → Cursor → Option PlainScalar
  | 0, _, _, _ => none
  | bound + 1, text, between, c =>
    let stop : PlainScalar := ⟨text, c, between.isBroken⟩
    if c.atMarker '-' || c.atMarker '.' || c.rest.head? = some '#' then some stop
    else
      match plainRun inFlow c.rest with
      | none => none
      | some ([], _) =>
        if text.isEmpty then none else some stop
      | some (run, rest) =>
        let c := c.skip (c.rest.length - rest.length)
        let text := text ++ between.text ++ run
        if c.rest.isEmpty && c.below.isEmpty || !(c.rest.isEmpty || isBlank (c.rest.headD ' ')) then
          some ⟨text, c, false⟩
        else
          match gap indent c with
          | none => none
          | some (between, c) =>
            if !inFlow && c.column < indent then some ⟨text, c, between.isBroken⟩
            else plainFrom inFlow indent bound text between c

def plain (bound : Nat) (inFlow : Bool) (indent : Nat) (c : Cursor) : Option PlainScalar :=
  plainFrom inFlow indent bound [] (.blanks []) c

def hexValue? (c : Char) : Option Nat :=
  let n := c.toNat
  if c.isDigit then some (n - 48)
  else if 97 ≤ n && n ≤ 102 then some (n - 87)
  else if 65 ≤ n && n ≤ 70 then some (n - 55)
  else none

/-- The number written with this many hexadecimal digits, and what follows. -/
def hexNumber (cs : List Char) (digits : Nat) : Option (Nat × List Char) :=
  if cs.length < digits then none
  else do
    let n ← (cs.take digits).foldlM (fun n c => (hexValue? c).map (n * 16 + ·)) 0
    return (n, cs.drop digits)

/-- The character that an escape code of a quoted scalar stands for, or the number of digits that
spell it. -/
def escapeCode (c : Char) : Option (Char ⊕ Nat) :=
  match c with
  | '0' => some (.inl (Char.ofNat 0))
  | 'a' => some (.inl (Char.ofNat 7))
  | 'b' => some (.inl (Char.ofNat 8))
  | 't' | '\t' => some (.inl '\t')
  | 'n' => some (.inl '\n')
  | 'v' => some (.inl (Char.ofNat 0x0B))
  | 'f' => some (.inl (Char.ofNat 0x0C))
  | 'r' => some (.inl '\r')
  | 'e' => some (.inl (Char.ofNat 0x1B))
  | ' ' | '"' | '/' | '\\' => some (.inl c)
  | 'N' => some (.inl (Char.ofNat 0x85))
  | '_' => some (.inl (Char.ofNat 0xA0))
  | 'L' => some (.inl (Char.ofNat 0x2028))
  | 'P' => some (.inl (Char.ofNat 0x2029))
  | 'x' => some (.inr 2)
  | 'u' => some (.inr 4)
  | 'U' => some (.inr 8)
  | _ => none

/-- What a run of a quoted scalar ended at. -/
inductive RunEnd
  | blank
  | quote
  | escapedBreak
  deriving DecidableEq

/-- The characters of a quoted scalar up to a blank, the end of the line, or the closing quote. -/
def quotedRun (double : Bool) : (bound : Nat) → List Char → Option (List Char × List Char × RunEnd)
  | 0, _ => none
  | _, [] => some ([], [], .blank)
  | bound + 1, c :: rest =>
    if isBlank c then some ([], c :: rest, .blank)
    else if !double && c = '\'' then
      match rest with
      | '\'' :: rest => (quotedRun double bound rest).map fun (run, e) => ('\'' :: run, e)
      | _ => some ([], c :: rest, .quote)
    else if double && c = '"' then some ([], c :: rest, .quote)
    else if double && c = '\\' then
      match rest with
      | [] => some ([], [], .escapedBreak)
      | d :: rest =>
        match escapeCode d with
        | none => none
        | some (.inl x) => (quotedRun double bound rest).map fun (run, e) => (x :: run, e)
        | some (.inr digits) =>
          match hexNumber rest digits with
          | none => none
          | some (n, rest) =>
            if (0xD800 ≤ n && n ≤ 0xDFFF) || n > 0x10FFFF then none
            else (quotedRun double bound rest).map fun (run, e) => (Char.ofNat n :: run, e)
    else (quotedRun double bound rest).map fun (run, e) => (c :: run, e)

/-- A quoted scalar from behind its opening quote. A document marker must not stand in it. -/
def quotedFrom (double : Bool) : (bound : Nat) → (text : List Char) → Cursor →
    Option (List Char × Cursor)
  | 0, _, _ => none
  | bound + 1, text, c =>
    if c.atMarker '-' || c.atMarker '.' || c.atEnd then none
    else
      match quotedRun double (c.rest.length + 1) c.rest with
      | none => none
      | some (run, rest, stop) =>
        let c := c.skip (c.rest.length - rest.length)
        let text := text ++ run
        match stop with
        | .quote => some (text, c.skip 1)
        | .blank =>
          match gap 0 c with
          | none => none
          | some (between, c) => quotedFrom double bound (text ++ between.text) c
        | .escapedBreak =>
          if c.below.isEmpty then none
          else
            match gapAfterBreak c with
            | none => none
            | some (between, c) => quotedFrom double bound (text ++ between.text) c

/-- What becomes of the line breaks at the end of a block scalar. -/
inductive Chomp
  | strip
  | clip
  | keep
  deriving DecidableEq, Repr

/-- The indentation and chomping marks behind the sign of a block scalar, in either order. -/
def blockHeader (cs : List Char) : Option (Option Nat × Chomp × List Char) :=
  let chompOf (c : Char) : Option Chomp :=
    if c = '+' then some .keep else if c = '-' then some .strip else none
  let digitOf (c : Char) : Option Nat := if c.isDigit then some (c.toNat - 48) else none
  match cs with
  | [] => some (none, .clip, [])
  | a :: rest =>
    match chompOf a, digitOf a with
    | some chomp, _ =>
      match rest with
      | [] => some (none, chomp, [])
      | b :: more =>
        match digitOf b with
        | some 0 => none
        | some n => some (some n, chomp, more)
        | none => some (none, chomp, rest)
    | none, some 0 => none
    | none, some n =>
      match rest with
      | [] => some (some n, .clip, [])
      | b :: more =>
        match chompOf b with
        | some chomp => some (some n, chomp, more)
        | none => some (some n, .clip, rest)
    | none, none => some (none, .clip, cs)

def leadingSpaces (cs : List Char) : Nat := (cs.takeWhile (· = ' ')).length

/-- The indentation of a block scalar that does not state it: that of its first line with text, or
of a longer line of spaces before it. -/
def blockIndent (widest : Nat) : List Line → Option Nat
  | [] => some widest
  | line :: below =>
    let n := leadingSpaces line.text
    let widest := max widest n
    match line.text.drop n with
    | [] => if line.ending.isEmpty then some widest else blockIndent widest below
    | c :: _ => if c = '\t' then none else some widest

/-- The lines of a block scalar as far as they are read. -/
structure BlockText where
  text : List Char := []
  /-- The break of the last line with text. -/
  lastBreak : List Char := []
  /-- The breaks of the empty lines after it. -/
  emptyBreaks : List Char := []
  /-- Whether the last line with text started with a blank. -/
  blankStart : Bool := false

namespace BlockText

/-- Adds an indented line. A folded scalar joins lines unless one of them starts with a blank. -/
def addLine (b : BlockText) (folded : Bool) (line : List Char) (ending : List Char) : BlockText :=
  let blankStart := match line with
    | c :: _ => isBlank c
    | [] => false
  let joint :=
    if folded && b.lastBreak = ['\n'] && !b.blankStart && !blankStart then
      if b.emptyBreaks.isEmpty then [' '] else b.emptyBreaks
    else b.lastBreak ++ b.emptyBreaks
  { text := b.text ++ joint ++ line, lastBreak := ending, emptyBreaks := [], blankStart }

def finish (b : BlockText) : Chomp → List Char
  | .strip => b.text
  | .clip => b.text ++ b.lastBreak
  | .keep => b.text ++ b.lastBreak ++ b.emptyBreaks

end BlockText

/-- Reads lines as long as they are indented, and stops in front of the first that is not. -/
def blockLines (folded : Bool) (indent : Nat) (b : BlockText) (row : Nat) :
    List Line → Option (BlockText × Cursor)
  | [] => some (b, ⟨[], [], [], 0, row⟩)
  | line :: below =>
    let n := min indent (leadingSpaces line.text)
    match line.text.drop n with
    | [] =>
      if line.ending.isEmpty then some (b, ⟨[], [], below, n, row⟩)
      else
        blockLines folded indent { b with emptyBreaks := b.emptyBreaks ++ line.ending } (row + 1)
          below
    | c :: rest =>
      if n = indent then
        let b := b.addLine folded (c :: rest) line.ending
        if below.isEmpty then some (b, ⟨[], [], [], line.text.length, row⟩)
        else blockLines folded indent b (row + 1) below
      else if c = '\t' then none
      else some (b, ⟨c :: rest, line.ending, below, n, row⟩)

/-- A block scalar from behind its sign. `parent` is the indentation of the block it stands in. -/
def block (folded : Bool) (parent : Int) (c : Cursor) : Option (List Char × Cursor) := do
  let (increment, chomp, rest) ← blockHeader c.rest
  match rest.dropWhile isBlank with
  | [] | '#' :: _ =>
    let indent ← match increment with
      | some n => some (if 0 ≤ parent then (parent + n).toNat else n)
      | none => (blockIndent 0 c.below).map fun n => max n (max (parent + 1) 1).toNat
    let (b, c) ← blockLines folded indent {} (c.row + 1) c.below
    return (b.finish chomp, c)
  | _ => none

end SceneLock.Yaml
