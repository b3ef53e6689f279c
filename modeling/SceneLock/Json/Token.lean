/-!
The words of a JSON text. Strings and numbers are kept as written: what they stand for matters
only where somebody asks for it.
-/

namespace SceneLock.Json

/-- A number as written. -/
structure Numeral where
  negative : Bool
  whole : List Char
  fraction : List Char
  /-- The sign and the digits behind an `e`. -/
  exponent : Option (Bool × List Char)
  /-- Whether there is neither a fraction nor an exponent. -/
  plain : Bool
  deriving DecidableEq, Repr

inductive Token
  | openList
  | closeList
  | openObject
  | closeObject
  | comma
  | colon
  | null
  | bool (b : Bool)
  | string (raw : List Char)
  | number (n : Numeral)
  deriving DecidableEq, Repr

def isBlank (c : Char) : Bool := c = ' ' || c = '\t' || c = '\n' || c = '\r'

def isHex (c : Char) : Bool := c.isDigit || ('a' ≤ c && c ≤ 'f') || ('A' ≤ c && c ≤ 'F')

/-- A string up to its closing quote, and what follows. -/
def stringBody : List Char → Option (List Char × List Char)
  | '"' :: rest => some ([], rest)
  | '\\' :: 'u' :: a :: b :: c :: d :: rest =>
    if isHex a && isHex b && isHex c && isHex d then
      (stringBody rest).map fun (body, rest) => ('\\' :: 'u' :: a :: b :: c :: d :: body, rest)
    else none
  | '\\' :: c :: rest =>
    if c ∈ ['"', '\\', '/', 'b', 'f', 'n', 'r', 't'] then
      (stringBody rest).map fun (body, rest) => ('\\' :: c :: body, rest)
    else none
  | c :: rest =>
    if c.toNat < 32 || c = '\\' then none
    else (stringBody rest).map fun (body, rest) => (c :: body, rest)
  | [] => none

/-- The digits at the front, and what follows. -/
def spanDigits : List Char → List Char × List Char
  | c :: rest =>
    if c.isDigit then
      let (digits, rest) := spanDigits rest
      (c :: digits, rest)
    else ([], c :: rest)
  | [] => ([], [])

/-- Whether a minus sign stands in front, and what follows the sign if there is one. -/
def sign : List Char → Bool × List Char
  | '+' :: rest => (false, rest)
  | '-' :: rest => (true, rest)
  | rest => (false, rest)

/-- An exponent with its sign and at least one digit, if the text goes on with one. -/
def exponentPart : List Char → Option (Option (Bool × List Char) × List Char)
  | c :: rest =>
    if c = 'e' || c = 'E' then
      match spanDigits (sign rest).2 with
      | ([], _) => none
      | (digits, left) => some (some ((sign rest).1, digits), left)
    else some (none, c :: rest)
  | [] => some (none, [])

/-- A number without its sign: digits without a leading zero, a fraction, an exponent. -/
def numeral (negative : Bool) (cs : List Char) : Option (Numeral × List Char) :=
  match spanDigits cs with
  | ([], _) => none
  | ('0' :: _ :: _, _) => none
  | (whole, '.' :: rest) =>
    match spanDigits rest with
    | ([], _) => none
    | (fraction, rest) => (exponentPart rest).map fun (exponent, rest) =>
      (⟨negative, whole, fraction, exponent, false⟩, rest)
  | (whole, rest) => (exponentPart rest).map fun (exponent, rest) =>
    (⟨negative, whole, [], exponent, exponent.isNone⟩, rest)

/-- The first word of a text that starts with no blank, and what follows. -/
def token : List Char → Option (Token × List Char)
  | '[' :: rest => some (.openList, rest)
  | ']' :: rest => some (.closeList, rest)
  | '{' :: rest => some (.openObject, rest)
  | '}' :: rest => some (.closeObject, rest)
  | ',' :: rest => some (.comma, rest)
  | ':' :: rest => some (.colon, rest)
  | 'n' :: 'u' :: 'l' :: 'l' :: rest => some (.null, rest)
  | 't' :: 'r' :: 'u' :: 'e' :: rest => some (.bool true, rest)
  | 'f' :: 'a' :: 'l' :: 's' :: 'e' :: rest => some (.bool false, rest)
  | '"' :: rest => (stringBody rest).map fun (raw, rest) => (.string raw, rest)
  | '-' :: rest => (numeral true rest).map fun (n, rest) => (.number n, rest)
  | cs => (numeral false cs).map fun (n, rest) => (.number n, rest)

theorem stringBody_length {cs raw rest : List Char} (h : stringBody cs = some (raw, rest)) :
    rest.length < cs.length := by
  fun_induction stringBody cs generalizing raw rest with
  | case1 => cases h; simp
  | case2 a b c d tail _ ih =>
    obtain ⟨⟨body, left⟩, e, same⟩ := Option.map_eq_some_iff.1 h
    cases same
    have := ih e
    simp only [List.length_cons]
    omega
  | case3 => cases h
  | case4 c tail _ _ ih =>
    obtain ⟨⟨body, left⟩, e, same⟩ := Option.map_eq_some_iff.1 h
    cases same
    have := ih e
    simp only [List.length_cons]
    omega
  | case5 => cases h
  | case6 => cases h
  | case7 c tail _ _ _ _ ih =>
    obtain ⟨⟨body, left⟩, e, same⟩ := Option.map_eq_some_iff.1 h
    cases same
    have := ih e
    simp only [List.length_cons]
    omega
  | case8 => cases h

theorem spanDigits_append (cs : List Char) : (spanDigits cs).1 ++ (spanDigits cs).2 = cs := by
  induction cs with
  | nil => rfl
  | cons c cs ih => by_cases h : c.isDigit <;> simp [spanDigits, h, ih]

theorem spanDigits_length (cs : List Char) :
    (spanDigits cs).1.length + (spanDigits cs).2.length = cs.length := by
  rw [← List.length_append, spanDigits_append]

theorem spanDigits_snd_length {cs digits rest : List Char} (h : spanDigits cs = (digits, rest)) :
    rest.length + digits.length = cs.length := by
  have := spanDigits_length cs
  simp only [h] at this
  omega

theorem sign_length (cs : List Char) : (sign cs).2.length ≤ cs.length := by
  unfold sign
  split <;> simp

theorem exponentPart_length {cs rest : List Char} {exponent : Option (Bool × List Char)}
    (h : exponentPart cs = some (exponent, rest)) : rest.length ≤ cs.length := by
  unfold exponentPart at h
  split at h
  · rename_i c tail
    have := sign_length tail
    split at h
    · split at h
      · cases h
      · rename_i spanned
        have := spanDigits_snd_length spanned
        cases h
        simp only [List.length_cons]
        omega
    · cases h
      simp
  · cases h
    simp

theorem numeral_length {negative : Bool} {cs rest : List Char} {n : Numeral}
    (h : numeral negative cs = some (n, rest)) : rest.length < cs.length := by
  unfold numeral at h
  split at h
  · cases h
  · cases h
  · rename_i whole tail some_digit _ whole_span
    have := spanDigits_snd_length whole_span
    have := List.length_pos_iff.2 some_digit
    split at h
    · cases h
    · rename_i fraction_span
      have := spanDigits_snd_length fraction_span
      obtain ⟨⟨x, left⟩, e, same⟩ := Option.map_eq_some_iff.1 h
      have := exponentPart_length e
      cases same
      simp only [List.length_cons] at *
      omega
  · rename_i whole tail some_digit _ _ whole_span
    have := spanDigits_snd_length whole_span
    have := List.length_pos_iff.2 some_digit
    obtain ⟨⟨x, left⟩, e, same⟩ := Option.map_eq_some_iff.1 h
    have := exponentPart_length e
    cases same
    omega

theorem token_length {cs rest : List Char} {t : Token} (h : token cs = some (t, rest)) :
    rest.length < cs.length := by
  unfold token at h
  split at h <;> try grind
  · obtain ⟨⟨x, left⟩, ex, same⟩ := Option.map_eq_some_iff.1 h
    have := stringBody_length ex
    grind
  · obtain ⟨⟨x, left⟩, ex, same⟩ := Option.map_eq_some_iff.1 h
    have := numeral_length ex
    grind
  · obtain ⟨⟨x, left⟩, ex, same⟩ := Option.map_eq_some_iff.1 h
    have := numeral_length ex
    grind

theorem dropWhile_length (p : Char → Bool) (cs : List Char) :
    (cs.dropWhile p).length ≤ cs.length := (List.dropWhile_sublist p).length_le

/-- All words of a text, with any blanks between them. -/
def tokens (cs : List Char) : Option (List Token) :=
  match _e : cs.dropWhile isBlank with
  | [] => some []
  | c :: tail =>
    match _h : token (c :: tail) with
    | none => none
    | some (t, rest) => (tokens rest).map (t :: ·)
termination_by cs.length
decreasing_by
  have := dropWhile_length isBlank cs
  have := token_length _h
  rw [_e] at *
  omega

end SceneLock.Json
