import Mathlib
import SceneLock.Yaml.Decode

/-!
Maps of plain words: lines with a key, a colon and a value. Such a text is read as the map that it
looks like, whatever the words are and however many lines there are.
-/

namespace SceneLock.Yaml

section Words

/-- The characters that are never taken for a mark: letters and digits of ASCII, and `_`. -/
def isSafe (c : Char) : Bool := c.isAlphanum || c = '_'

/-- A text of such characters. -/
structure IsWord (w : List Char) : Prop where
  ne_nil : w ≠ []
  safe : ∀ c ∈ w, isSafe c

variable {c mark : Char} {w rest : List Char}

theorem range_of_safe (safe : isSafe c) : 0x30 ≤ c.toNat ∧ c.toNat ≤ 0x7A := by
  have kind : (((0x41 ≤ c.toNat ∧ c.toNat ≤ 0x5A) ∨ 0x61 ≤ c.toNat ∧ c.toNat ≤ 0x7A) ∨
      0x30 ≤ c.toNat ∧ c.toNat ≤ 0x39) ∨ c = '_' := by
    simpa [isSafe, Char.isAlphanum, Char.isAlpha, Char.isUpper, Char.isLower, Char.isDigit,
      UInt32.le_iff_toNat_le] using safe
  obtain ((_ | _) | _) | rfl := kind
  · omega
  · omega
  · omega
  · decide

theorem ne_mark_of_safe (safe : isSafe c) (other : isSafe mark = false) : c ≠ mark := by
  rintro rfl
  rw [safe] at other
  cases other

theorem not_blank_of_safe (safe : isSafe c) : isBlank c = false := by
  simp (disch := decide) [isBlank, ne_mark_of_safe safe]

theorem not_break_of_safe (safe : isSafe c) : isBreak c = false := by
  have range := range_of_safe safe
  simp (disch := decide) [isBreak, ne_mark_of_safe safe]
  omega

theorem allowed_of_safe (safe : isSafe c) : isAllowed c := by
  have range := range_of_safe safe
  simp only [isAllowed, Bool.or_eq_true, Bool.and_eq_true, decide_eq_true_eq]
  omega

theorem IsWord.exists_cons (word : IsWord w) : ∃ c rest, w = c :: rest ∧ isSafe c := by
  obtain ⟨c, rest, rfl⟩ := List.exists_cons_of_ne_nil word.ne_nil
  exact ⟨c, rest, rfl, word.safe c List.mem_cons_self⟩

/-- A plain scalar goes on to the end of a word. -/
theorem plainRun_append (safe : ∀ c ∈ w, isSafe c)
    (stop : plainRun false rest = some ([], rest)) :
    plainRun false (w ++ rest) = some (w, rest) := by
  induction w with
  | nil => exact stop
  | cons c w ih =>
    obtain ⟨first, others⟩ := List.forall_mem_cons.1 safe
    simp (disch := decide) [plainRun, ih others, not_blank_of_safe first, ne_mark_of_safe first]

end Words

section Lines

theorem splitLines_append {w : List Char} (unbroken : ∀ c ∈ w, isBreak c = false)
    (rest : List Char) :
    splitLines (w ++ '\n' :: rest) =
      (⟨w, ['\n']⟩, (splitLines rest).1 :: (splitLines rest).2) := by
  induction w with
  | nil => rfl
  | cons c w ih =>
    obtain ⟨first, others⟩ := List.forall_mem_cons.1 unbroken
    have other : c ≠ '\r' := by
      rintro rfl
      cases first
    rw [List.cons_append, splitLines, ih others]
    · simp [first]
    · intro _ same
      exact absurd same other

/-- A field of a map. -/
structure Field where
  key : List Char
  value : List Char

namespace Field

/-- What stands on the line of a field. -/
def line (f : Field) : List Char := f.key ++ ':' :: ' ' :: f.value

/-- Both the key and the value are words, and the key is not too long for one. -/
structure Plain (f : Field) : Prop where
  key : IsWord f.key
  value : IsWord f.value
  short : f.key.length ≤ 1024

def tokens (f : Field) : List Token :=
  [.key, .scalar .plain (.ofList f.key), .value, .scalar .plain (.ofList f.value)]

end Field

/-- The text of a map, a line for each field. -/
def mapText (fields : List Field) : List Char := fields.flatMap fun f => f.line ++ ['\n']

/-- The lines of that text. Behind the last break there is an empty one. -/
def mapLines (fields : List Field) : List Line :=
  fields.map (fun f => ⟨f.line, ['\n']⟩) ++ [⟨[], []⟩]

variable {f : Field} {fields : List Field}

theorem Field.Plain.unbroken (plain : f.Plain) : ∀ c ∈ f.line, isBreak c = false := by
  intro c mem
  obtain key | rfl | rfl | value : c ∈ f.key ∨ c = ':' ∨ c = ' ' ∨ c ∈ f.value := by
    simpa [Field.line] using mem
  · exact not_break_of_safe (plain.key.safe c key)
  · rfl
  · rfl
  · exact not_break_of_safe (plain.value.safe c value)

theorem splitLines_mapText (plain : ∀ f ∈ fields, f.Plain) :
    (splitLines (mapText fields)).1 :: (splitLines (mapText fields)).2 = mapLines fields := by
  induction fields with
  | nil => rfl
  | cons f fields ih =>
    obtain ⟨first, others⟩ := List.forall_mem_cons.1 plain
    have text : mapText (f :: fields) = f.line ++ '\n' :: mapText fields := by
      simp [mapText]
    rw [text, splitLines_append first.unbroken, ih others]
    rfl

/-- Where a line begins with a character that is no blank, or nothing is left of the text. -/
def Line.Begins (line : Line) : Prop :=
  line = ⟨[], []⟩ ∨ ∃ a rest, line.text = a :: rest ∧ isBlank a = false

/-- Every line of a map begins with a key, up to the empty one. -/
theorem exists_mapLines (plain : ∀ f ∈ fields, f.Plain) :
    ∃ next below, mapLines fields = next :: below ∧ next.Begins := by
  cases fields with
  | nil => exact ⟨_, _, rfl, .inl rfl⟩
  | cons f fields =>
    obtain ⟨a, rest, key, safe⟩ := (plain f List.mem_cons_self).key.exists_cons
    have begun : f.line = a :: (rest ++ ':' :: ' ' :: f.value) := by simp [Field.line, key]
    exact ⟨_, _, rfl, .inr ⟨a, _, begun, not_blank_of_safe safe⟩⟩

end Lines

section Scalars

variable {a : Char} {w rest ending : List Char} {next : Line} {below : List Line} {column row : Nat}

theorem Cursor.atMarker_eq_false {c : Cursor} (here : c.rest = a :: rest) {mark : Char}
    (other : a ≠ mark) : c.atMarker mark = false := by
  unfold atMarker
  rw [here]
  rcases rest with _ | ⟨_, _ | ⟨_, _⟩⟩ <;> simp [other]

/-- No plain scalar stops in front of a word. -/
theorem not_stopped {c : Cursor} (word : IsWord w) (here : c.rest = w ++ rest) :
    (c.atMarker '-' || c.atMarker '.' || c.rest.head? = some '#') = false := by
  obtain ⟨a, more, rfl, safe⟩ := word.exists_cons
  have hash : a ≠ '#' := ne_mark_of_safe safe rfl
  rw [Cursor.atMarker_eq_false here (ne_mark_of_safe safe rfl),
    Cursor.atMarker_eq_false here (ne_mark_of_safe safe rfl), here]
  simpa using hash

/-- A key ends at its colon. -/
theorem plain_key (word : IsWord w) (bound indent : Nat) :
    plain (bound + 1) false indent ⟨w ++ ':' :: ' ' :: rest, ending, below, column, row⟩ =
      some ⟨w, ⟨':' :: ' ' :: rest, ending, below, column + w.length, row⟩, false⟩ := by
  have run : plainRun false (w ++ ':' :: ' ' :: rest) = some (w, ':' :: ' ' :: rest) :=
    plainRun_append word.safe rfl
  have free :=
    not_stopped (c := ⟨w ++ ':' :: ' ' :: rest, ending, below, column, row⟩) word rfl
  obtain ⟨a, tail, rfl, _⟩ := word.exists_cons
  simp only [plain, plainFrom, free, run, Bool.false_eq_true, if_false, Cursor.skip,
    List.length_append, Nat.add_sub_cancel, List.drop_left]
  rfl

theorem gap_of_begins (begins : next.Begins) :
    gap 1 ⟨[], ending, next :: below, column, row⟩ =
      some (.breaks ending [], ⟨next.text, next.ending, below, 0, row + 1⟩) := by
  obtain rfl | ⟨a, rest, text, dark⟩ := begins
  · rfl
  · simp [gap, Cursor.skip, emptyLines, tabBefore, text, dark]

/-- A value ends with its line, if the next line is not indented. -/
theorem plain_value (word : IsWord w) (begins : next.Begins) (bound : Nat) :
    plain (bound + 1) false 1 ⟨w, ending, next :: below, column, row⟩ =
      some ⟨w, ⟨next.text, next.ending, below, 0, row + 1⟩, true⟩ := by
  have run : plainRun false (w ++ []) = some (w, []) := plainRun_append word.safe rfl
  rw [List.append_nil] at run
  have free :=
    not_stopped (c := ⟨w, ending, next :: below, column, row⟩) word (List.append_nil w).symm
  obtain ⟨a, tail, rfl, _⟩ := word.exists_cons
  simp only [plain, plainFrom, free, run, Bool.false_eq_true, if_false, Cursor.skip,
    List.drop_length, List.length_nil, Nat.sub_zero, gap_of_begins begins]
  rfl

end Scalars

namespace Lexer

variable {l : Lexer} {c : Char} {rest : List Char} {f : Field} {opened : Bool}
  {tokens : List Token} {row : Nat} {next : Line} {below : List Line}

/-- In front of a line of a map. Before the first line the map is not open. -/
def atLine (opened : Bool) (tokens : List Token) (row : Nat) (line : Line) (below : List Line) :
    Lexer where
  cursor := ⟨line.text, line.ending, below, 0, row⟩
  tokens := tokens
  count := tokens.length
  indent := if opened then 0 else -1
  outerIndents := if opened then [-1] else []

/-- Behind the key of a field. In a map that is open nothing but a key could stand there. -/
def atColon (opened : Bool) (tokens : List Token) (row : Nat) (f : Field) (below : List Line) :
    Lexer where
  cursor := ⟨':' :: ' ' :: f.value, ['\n'], below, f.key.length, row⟩
  tokens := .scalar .plain (.ofList f.key) :: tokens
  count := tokens.length + 1
  indent := if opened then 0 else -1
  outerIndents := if opened then [-1] else []
  keyAllowed := false
  keyStart := some ⟨opened, tokens.length, row, 0⟩

/-- Behind the colon of a field. -/
def atValue (tokens : List Token) (row : Nat) (f : Field) (below : List Line) : Lexer where
  cursor := ⟨' ' :: f.value, ['\n'], below, f.key.length + 1, row⟩
  tokens := tokens
  count := tokens.length
  indent := 0
  outerIndents := [-1]
  keyAllowed := false

/-- Only the blanks are skipped if a token follows on the line. -/
theorem toToken_eq (blanks : List Char) (space : ∀ b ∈ blanks, l.isSpace b)
    (here : l.cursor.rest = blanks ++ c :: rest) (dark : l.isSpace c = false) (other : c ≠ '#')
    (lines : Nat) : l.toToken lines = l.skip blanks.length := by
  have taken : l.cursor.rest.takeWhile l.isSpace = blanks := by
    rw [here, List.takeWhile_append_of_pos space, List.takeWhile_cons_of_neg (by simp [dark]),
      List.append_nil]
  have left : (l.skip blanks.length).cursor.rest = c :: rest := by
    simp [skip, Cursor.skip, here]
  have skipped : l.skipBlanks = l.skip blanks.length := by
    rw [skipBlanks, taken, left]
    split
    · next same => exact absurd (List.head_eq_of_cons_eq same) other
    · rfl
  cases lines <;> simp [toToken, skipped, left]

/-- A word is read as a plain scalar. -/
theorem readToken_of_safe (here : l.cursor.rest = c :: rest) (safe : isSafe c) (bound : Nat) :
    l.readToken bound c = l.readPlain bound := by
  have dash : l.cursor.atMarker '-' = false :=
    Cursor.atMarker_eq_false here (ne_mark_of_safe safe rfl)
  have dot : l.cursor.atMarker '.' = false :=
    Cursor.atMarker_eq_false here (ne_mark_of_safe safe rfl)
  simp (disch := decide) [readToken, dash, dot, ne_mark_of_safe safe, not_blank_of_safe safe,
    isIndicator]

/-- A colon in front of a blank ends a key. -/
theorem readToken_colon (here : l.cursor.rest = ':' :: ' ' :: rest) (bound : Nat) :
    l.readToken bound ':' = l.readValue := by
  have dash := Cursor.atMarker_eq_false here (show ':' ≠ '-' by decide)
  have dot := Cursor.atMarker_eq_false here (show ':' ≠ '.' by decide)
  have blank : l.cursor.isBlankAt 1 := by
    rw [Cursor.isBlankAt, here]
    rfl
  simp [readToken, dash, dot, blank]

theorem not_space_of_safe (l : Lexer) (safe : isSafe c) : l.isSpace c = false := by
  simp (disch := decide) [isSpace, ne_mark_of_safe safe]

/-- No block ends at a column inside of it. -/
theorem closeTo_eq {column : Int} (inside : l.indent ≤ column) : l.closeTo column = l := by
  have none (outer : List Int) : closeBlocks column outer l = l := by
    cases outer <;> simp [closeBlocks, inside.not_gt]
  rw [closeTo, none, ite_self]

theorem run_of_toToken {m : Lexer} (skips : l.toToken l.cursor.below.length = m)
    (here : m.cursor.rest = c :: rest) (fresh : m.dropStale = some m)
    (closed : m.closeTo m.cursor.column = m) (bound : Nat) :
    run (bound + 1) l = (m.readToken (bound + 1) c).bind (run bound) := by
  simp only [run, skips, fresh, bind, Option.bind, closed, here]

theorem run_key (plain : f.Plain) (bound : Nat) :
    run (bound + 1) (atLine opened tokens row ⟨f.line, ['\n']⟩ below) =
      run bound (atColon opened tokens row f below) := by
  obtain ⟨c, rest, key, safe⟩ := plain.key.exists_cons
  have here : (atLine opened tokens row ⟨f.line, ['\n']⟩ below).cursor.rest =
      c :: (rest ++ ':' :: ' ' :: f.value) := by
    simp [atLine, Field.line, key]
  have read : (atLine opened tokens row ⟨f.line, ['\n']⟩ below).readPlain (bound + 1) =
      some (atColon opened tokens row f below) := by
    have scalar (indent : Nat) : Yaml.plain (bound + 1) false indent
        ⟨f.line, ['\n'], below, 0, row⟩ =
          some ⟨f.key, ⟨':' :: ' ' :: f.value, ['\n'], below, 0 + f.key.length, row⟩, false⟩ :=
      plain_key plain.key bound indent
    cases opened <;>
      simp [readPlain, saveKey, forgetKey, inFlow, atLine, atColon, add, scalar]
  have inside : (atLine opened tokens row ⟨f.line, ['\n']⟩ below).indent ≤ 0 := by
    cases opened <;> simp [atLine]
  have still (lines : Nat) : (atLine opened tokens row ⟨f.line, ['\n']⟩ below).toToken lines =
      atLine opened tokens row ⟨f.line, ['\n']⟩ below :=
    toToken_eq [] (List.forall_mem_nil _) here (not_space_of_safe _ safe)
      (ne_mark_of_safe safe rfl) lines
  rw [run_of_toToken (still _) here rfl (closeTo_eq inside), readToken_of_safe here safe, read]
  rfl

theorem run_colon (plain : f.Plain) (bound : Nat) :
    run (bound + 1) (atColon opened tokens row f below) =
      run bound (atValue (.value :: .scalar .plain (.ofList f.key) :: .key ::
        if opened then tokens else .blockMapStart :: tokens) row f below) := by
  have fresh : (atColon opened tokens row f below).dropStale =
      some (atColon opened tokens row f below) := by
    -- A key further from its colon would be an error here, since the key is required.
    have near : ¬ 1024 < f.key.length := plain.short.not_gt
    simp [dropStale, refresh, isStale, atColon, near]
  have inside : (atColon opened tokens row f below).indent ≤ f.key.length := by
    simp only [atColon]
    split <;> omega
  have read : (atColon opened tokens row f below).readToken (bound + 1) ':' =
      some (atValue (.value :: .scalar .plain (.ofList f.key) :: .key ::
        if opened then tokens else .blockMapStart :: tokens) row f below) := by
    rw [readToken_colon rfl]
    -- The mark goes in front of the scalar, and the start of the map, if any, in front of the mark.
    have two : tokens.length + 1 + 1 - tokens.length = 2 := by omega
    cases opened <;>
      simp [readValue, atColon, atValue, insertAt, openBlock, inFlow, skip, Cursor.skip, add, two]
  have still (lines : Nat) : (atColon opened tokens row f below).toToken lines =
      atColon opened tokens row f below :=
    toToken_eq [] (List.forall_mem_nil _) rfl rfl (by decide) lines
  rw [run_of_toToken (still _) rfl fresh (closeTo_eq inside), read]
  rfl

theorem run_word (plain : f.Plain) (begins : next.Begins) (bound : Nat) :
    run (bound + 1) (atValue tokens row f (next :: below)) =
      run bound
        (atLine true (.scalar .plain (.ofList f.value) :: tokens) (row + 1) next below) := by
  obtain ⟨c, rest, value, safe⟩ := plain.value.exists_cons
  have here : ((atValue tokens row f (next :: below)).skip 1).cursor.rest = c :: rest := value
  have skips (lines : Nat) : (atValue tokens row f (next :: below)).toToken lines =
      (atValue tokens row f (next :: below)).skip 1 :=
    toToken_eq [' '] (by simp [isSpace]) (congrArg (' ' :: ·) value) (not_space_of_safe _ safe)
      (ne_mark_of_safe safe rfl) lines
  have scalar : Yaml.plain (bound + 1) false 1
      ⟨f.value, ['\n'], next :: below, f.key.length + 2, row⟩ =
        some ⟨f.value, ⟨next.text, next.ending, below, 0, row + 1⟩, true⟩ :=
    plain_value plain.value begins bound
  have read : ((atValue tokens row f (next :: below)).skip 1).readPlain (bound + 1) =
      some (atLine true (.scalar .plain (.ofList f.value) :: tokens) (row + 1) next below) := by
    simp [readPlain, saveKey, atValue, skip, Cursor.skip, inFlow, add, atLine, scalar]
  have inside : (0 : Int) ≤ (f.key.length + 2 : Nat) := by omega
  rw [run_of_toToken (skips _) here rfl (closeTo_eq inside), readToken_of_safe here safe, read]
  rfl

theorem run_end (bound : Nat) :
    run (bound + 1) (atLine true tokens row ⟨[], []⟩ []) =
      some (tokens.reverse ++ [.blockEnd, .textEnd]) := by
  simp [run, atLine, toToken, skipBlanks, dropStale, refresh, closeTo, closeBlocks, inFlow, skip,
    Cursor.skip, add, endOfText, leaveBlocks, forgetKey]

/-- The tokens of a field come from three steps. -/
theorem run_field (plain : f.Plain) (begins : next.Begins) (bound : Nat) :
    run (bound + 3) (atLine opened tokens row ⟨f.line, ['\n']⟩ (next :: below)) =
      run bound (atLine true
        (f.tokens.reverse ++ if opened then tokens else .blockMapStart :: tokens) (row + 1) next
        below) := by
  rw [run_key plain, run_colon plain, run_word plain begins]
  rfl

/-- In front of every line the map is open and no key is pending, so each field adds its tokens to
whatever came before. -/
theorem run_fields {fields : List Field} (plain : ∀ f ∈ fields, f.Plain)
    (lines : next :: below = mapLines fields) (bound : Nat) :
    run (bound + 1 + 3 * fields.length) (atLine true tokens row next below) =
      some (tokens.reverse ++ fields.flatMap Field.tokens ++ [.blockEnd, .textEnd]) := by
  induction fields generalizing tokens row next below with
  | nil =>
    obtain ⟨rfl, rfl⟩ := List.cons_eq_cons.1 lines
    simpa using run_end bound
  | cons f fields ih =>
    obtain ⟨first, others⟩ := List.forall_mem_cons.1 plain
    obtain ⟨rfl, rfl⟩ := List.cons_eq_cons.1 lines
    obtain ⟨next, below, same, begins⟩ := exists_mapLines others
    have steps : bound + 1 + 3 * (f :: fields).length = bound + 1 + 3 * fields.length + 3 := by
      simp only [List.length_cons]
      omega
    calc run (bound + 1 + 3 * (f :: fields).length)
          (atLine true tokens row ⟨f.line, ['\n']⟩ (mapLines fields))
        = run (bound + 1 + 3 * fields.length)
            (atLine true (f.tokens.reverse ++ tokens) (row + 1) next below) := by
          rw [steps, same, run_field first begins]
          rfl
      _ = some ((f.tokens.reverse ++ tokens).reverse ++ fields.flatMap Field.tokens ++
            [.blockEnd, .textEnd]) := ih others same.symm
      _ = some (tokens.reverse ++ (f :: fields).flatMap Field.tokens ++ [.blockEnd, .textEnd]) := by
          simp

end Lexer

section Texts

variable {fields : List Field}

theorem allowed_mapText (plain : ∀ f ∈ fields, f.Plain) : ∀ c ∈ mapText fields, isAllowed c := by
  intro c mem
  obtain ⟨f, field, text⟩ := List.mem_flatMap.1 mem
  obtain key | rfl | rfl | value | rfl :
      c ∈ f.key ∨ c = ':' ∨ c = ' ' ∨ c ∈ f.value ∨ c = '\n' := by
    simpa [Field.line, or_assoc] using text
  · exact allowed_of_safe ((plain f field).key.safe c key)
  · rfl
  · rfl
  · exact allowed_of_safe ((plain f field).value.safe c value)
  · rfl

/-- A field takes more characters than it has steps. -/
theorem steps_le_mapText (fields : List Field) : 3 * fields.length ≤ (mapText fields).length := by
  induction fields with
  | nil => exact Nat.zero_le _
  | cons f fields ih =>
    simp only [mapText, Field.line, List.flatMap_cons, List.length_append, List.length_cons,
      List.length_nil] at ih ⊢
    omega

/-- A text that begins with a word has no byte order mark. -/
theorem withoutMark_mapText (plain : ∀ f ∈ fields, f.Plain) :
    withoutMark (mapText fields) = mapText fields := by
  cases fields with
  | nil => rfl
  | cons f fields =>
    obtain ⟨a, rest, key, safe⟩ := (plain f List.mem_cons_self).key.exists_cons
    have range := range_of_safe safe
    have begun : mapText (f :: fields) =
        a :: (rest ++ ':' :: ' ' :: f.value ++ '\n' :: mapText fields) := by
      simp [mapText, Field.line, key]
    rw [begun, withoutMark, if_neg (by omega)]

/-- A map of plain words comes apart into a start, the tokens of its fields, and an end. -/
theorem tokens_mapText (plain : ∀ f ∈ fields, f.Plain) (nonempty : fields ≠ []) :
    tokens (.ofList (mapText fields)) =
      some (.blockMapStart :: fields.flatMap Field.tokens ++ [.blockEnd, .textEnd]) := by
  have allowed : (mapText fields).all isAllowed := List.all_eq_true.2 (allowed_mapText plain)
  have lines := splitLines_mapText plain
  have room := steps_le_mapText fields
  obtain ⟨f, others, rfl⟩ := List.exists_cons_of_ne_nil nonempty
  obtain ⟨first, rest⟩ := List.forall_mem_cons.1 plain
  obtain ⟨next, below, same, begins⟩ := exists_mapLines rest
  have split : splitLines (mapText (f :: others)) = (⟨f.line, ['\n']⟩, next :: below) :=
    Prod.ext_iff.2 (same ▸ List.cons_eq_cons.1 lines)
  obtain ⟨bound, steps⟩ : ∃ bound,
      (mapText (f :: others)).length + 2 = bound + 1 + 3 * others.length + 3 := by
    simp only [List.length_cons] at room
    exact ⟨(mapText (f :: others)).length - 3 * others.length - 2, by omega⟩
  have start : Lexer.run ((mapText (f :: others)).length + 2)
      { cursor := .ofChars (mapText (f :: others)) } =
        Lexer.run (bound + 1 + 3 * others.length + 3)
          (Lexer.atLine false [] 0 ⟨f.line, ['\n']⟩ (next :: below)) := by
    rw [steps, Cursor.ofChars, split]
    rfl
  rw [tokens, String.toList_ofList, withoutMark_mapText plain, if_pos allowed, start,
    Lexer.run_field first begins, Lexer.run_fields rest same.symm]
  simp

end Texts

section Nodes

variable {rest : List Token} {anchors : List (String × Nat)} {handles : List (String × String)}
  {fields : List Field}

/-- The node of a plain word. -/
def word (w : List Char) : Node := .scalar {} .plain (.ofList w)

/-- The node of a map. -/
def mapNode (fields : List Field) : Node := .map {} (fields.map fun f => (word f.key, word f.value))

theorem Parse.peek_cons {t : Token} : Parse.peek ⟨t :: rest, anchors, handles⟩ =
    some (t, ⟨t :: rest, anchors, handles⟩) := rfl

theorem Parse.next_cons {t : Token} : Parse.next ⟨t :: rest, anchors, handles⟩ =
    some (t, ⟨rest, anchors, handles⟩) := rfl

theorem blockPart_word (w : List Char) (bound : Nat) :
    blockPart (bound + 2) ⟨.scalar .plain (.ofList w) :: rest, anchors, handles⟩ =
      some (word w, ⟨rest, anchors, handles⟩) := by
  rw [blockPart, node]
  rfl

theorem blockEntries_fields (entries : List (Node × Node)) (bound : Nat) :
    blockEntries entries (bound + 2 + fields.length)
        ⟨fields.flatMap Field.tokens ++ .blockEnd :: rest, anchors, handles⟩ =
      some (entries.reverse ++ fields.map (fun f => (word f.key, word f.value)),
        ⟨rest, anchors, handles⟩) := by
  induction fields generalizing entries with
  | nil =>
    rw [List.map_nil, List.append_nil]
    rfl
  | cons f fields ih =>
    have begun : (f :: fields).flatMap Field.tokens ++ .blockEnd :: rest =
        .key :: .scalar .plain (.ofList f.key) :: .value :: .scalar .plain (.ofList f.value) ::
          (fields.flatMap Field.tokens ++ .blockEnd :: rest) := rfl
    have steps : bound + 2 + (f :: fields).length = bound + fields.length + 2 + 1 := by
      simp only [List.length_cons]
      omega
    have ih := ih ((word f.key, word f.value) :: entries)
    rw [Nat.add_right_comm] at ih
    rw [begun, steps, blockEntries]
    simp [bind, StateT.bind, Parse.next_cons, Parse.peek_cons, blockPart_word, ih]

theorem node_map (bound : Nat) :
    node true false (bound + 2 + fields.length + 1)
        ⟨.blockMapStart :: (fields.flatMap Field.tokens ++ .blockEnd :: rest), anchors, handles⟩ =
      some (mapNode fields, ⟨rest, anchors, handles⟩) := by
  rw [node]
  calc _ = (blockEntries [] (bound + 2 + fields.length)
          ⟨fields.flatMap Field.tokens ++ .blockEnd :: rest, anchors, handles⟩).bind
            fun read => some (.map {} read.1, read.2) := rfl
    _ = some (mapNode fields, ⟨rest, anchors, handles⟩) := by
      rw [blockEntries_fields]
      rfl

/-- A text with a word for each key and each value is read as that map. -/
theorem ofText?_mapText (plain : ∀ f ∈ fields, f.Plain) (nonempty : fields ≠ []) :
    Document.ofText? (.ofList (mapText fields)) =
      some ⟨some (mapNode fields), (mapNode fields).anchored, (mapNode fields).size⟩ := by
  let more := fields.flatMap Field.tokens ++ [.blockEnd, .textEnd]
  obtain ⟨bound, room⟩ : ∃ bound,
      2 * (more.length + 1) + 2 = bound + 2 + fields.length + 1 := by
    have long : more.length = 4 * fields.length + 2 := by
      simp [more, Field.tokens, Nat.mul_comm]
    exact ⟨7 * fields.length + 5, by omega⟩
  rw [Document.ofText?, tokens_mapText plain nonempty]
  calc Document.ofTokens? (.blockMapStart :: more)
      = if (more.length + 1) < more.length + 1 then none else
          (node true false (2 * (more.length + 1) + 2)
            ⟨.blockMapStart :: more, [], Document.commonHandles⟩).bind fun read =>
              Document.ofNode? read.1 read.2 := rfl
    _ = _ := by
      rw [if_neg (lt_irrefl _), room, node_map]
      rfl

end Nodes

end SceneLock.Yaml
