import Mathlib
import SceneLock.Json.Node
import SceneLock.Proofs.Digits

/-!
The words of JSON texts: a text is read back from between its quotes, and a whole number from its
digits. Where an object begins behind a text, the words of the text stay what they are.
-/

namespace SceneLock.Json

section Strings

theorem isHex_hexDigit {n : Nat} (small : n < 16) : isHex (hexDigit n) := by
  interval_cases n <;> decide

theorem hexValue_hexDigit {n : Nat} (small : n < 16) : hexValue (hexDigit n) = n := by
  interval_cases n <;> decide

theorem le_toNat_hexDigit {n : Nat} (small : n < 16) : 32 ≤ (hexDigit n).toNat := by
  interval_cases n <;> decide

/-- What stands behind a backslash in place of a character. -/
def letters : List Char := ['"', '\\', 'b', 'f', 'n', 'r', 't']

/-- A character is written with a letter behind a backslash, or with its number, or as it is. -/
theorem escape_cases (c : Char) :
    (∃ d ∈ letters, escape c = ['\\', d] ∧ escaped d = c) ∨
    (c.toNat < 32 ∧ escape c =
      ['\\', 'u', '0', '0', hexDigit (c.toNat / 16), hexDigit (c.toNat % 16)]) ∨
    (32 ≤ c.toNat ∧ c ≠ '"' ∧ c ≠ '\\' ∧ escape c = [c]) := by
  unfold escape
  split
  · next e => exact .inl ⟨'"', by decide, rfl, by rw [e]; rfl⟩
  split
  · next e => exact .inl ⟨'\\', by decide, rfl, by rw [e]; rfl⟩
  split
  · next e => exact .inl ⟨'n', by decide, rfl, by rw [e]; rfl⟩
  split
  · next e => exact .inl ⟨'r', by decide, rfl, by rw [e]; rfl⟩
  split
  · next e => exact .inl ⟨'t', by decide, rfl, by rw [e]; rfl⟩
  split
  · next e => exact .inl ⟨'b', by decide, rfl, (congrArg Char.ofNat e).symm.trans c.ofNat_toNat⟩
  split
  · next e => exact .inl ⟨'f', by decide, rfl, (congrArg Char.ofNat e).symm.trans c.ofNat_toNat⟩
  split
  · next small => exact .inr (.inl ⟨small, rfl⟩)
  · next quote backslash _ _ _ _ _ large =>
    exact .inr (.inr ⟨Nat.le_of_not_lt large, quote, backslash, rfl⟩)

theorem le_toNat_escape {c d : Char} (mem : d ∈ escape c) : 32 ≤ d.toNat := by
  obtain ⟨x, among, e, _⟩ | ⟨small, e⟩ | ⟨large, _, _, e⟩ := escape_cases c
  all_goals rw [e] at mem
  · have plain : ∀ x ∈ letters, 32 ≤ x.toNat := by simp [letters]
    obtain rfl | rfl : d = '\\' ∨ d = x := by simpa using mem
    · decide
    · exact plain d among
  · have high : 32 ≤ (hexDigit (c.toNat / 16)).toNat := le_toNat_hexDigit (by omega)
    have low : 32 ≤ (hexDigit (c.toNat % 16)).toNat := le_toNat_hexDigit (by omega)
    simp only [List.mem_cons, List.not_mem_nil, or_false] at mem
    obtain rfl | rfl | rfl | rfl | rfl | rfl := mem
    · decide
    · decide
    · decide
    · decide
    · exact high
    · exact low
  · rw [List.mem_singleton.1 mem]
    exact large

theorem stringBody_escape (c : Char) (rest : List Char) :
    stringBody (escape c ++ rest) =
      (stringBody rest).map fun (body, left) => (escape c ++ body, left) := by
  obtain ⟨x, among, e, _⟩ | ⟨small, e⟩ | ⟨large, quote, backslash, e⟩ := escape_cases c
  all_goals rw [e]
  · have each : ∀ x ∈ letters, stringBody ('\\' :: x :: rest) =
        (stringBody rest).map fun (body, left) => ('\\' :: x :: body, left) := by
      simp [letters, stringBody]
    exact each x among
  · have high : isHex (hexDigit (c.toNat / 16)) := isHex_hexDigit (by omega)
    have low : isHex (hexDigit (c.toNat % 16)) := isHex_hexDigit (by omega)
    have zero : isHex '0' := by decide
    simp [stringBody, high, low, zero]
  · rw [List.singleton_append, stringBody.eq_def]
    split
    all_goals simp_all

theorem unescape_escape (c : Char) (rest : List Char) :
    unescape (escape c ++ rest) = (unescape rest).map (c :: ·) := by
  obtain ⟨x, among, e, back⟩ | ⟨small, e⟩ | ⟨large, quote, backslash, e⟩ := escape_cases c
  all_goals rw [e]
  · have each : ∀ x ∈ letters,
        unescape ('\\' :: x :: rest) = (unescape rest).map (escaped x :: ·) := by
      simp [letters, unescape]
    rw [← back]
    exact each x among
  · have value :
        hexValue4 '0' '0' (hexDigit (c.toNat / 16)) (hexDigit (c.toNat % 16)) = c.toNat := by
      have zero : hexValue '0' = 0 := by decide
      rw [hexValue4, hexValue_hexDigit (by omega), hexValue_hexDigit (by omega), zero]
      omega
    rw [List.cons_append, unescape.eq_def]
    simp only [List.cons_append, List.nil_append, value, Char.ofNat_toNat]
    rw [if_neg, if_neg]
    · simp
      omega
    · simp
      omega
  · rw [List.singleton_append, unescape.eq_def]
    split
    all_goals simp_all

/-- What stands between the quotes of a text. -/
def quoted (s : String) : List Char := s.toList.flatMap escape

theorem stringBody_quoted (s : String) (rest : List Char) :
    stringBody (quoted s ++ '"' :: rest) = some (quoted s, rest) := by
  unfold quoted
  induction s.toList with
  | nil => simp [stringBody]
  | cons c cs ih => simp [stringBody_escape, ih]

theorem text?_quoted (s : String) : text? (quoted s) = some s := by
  have unescaped : unescape (quoted s) = some s.toList := by
    unfold quoted
    induction s.toList with
    | nil => rfl
    | cons c cs ih => simp [unescape_escape, ih]
  simp [text?, unescaped]

end Strings

section Numbers

theorem toList_toString_int (n : Int) :
    (toString n).toList =
      if n < 0 then '-' :: Nat.toDigits 10 n.natAbs else Nat.toDigits 10 n.natAbs := by
  rw [Int.toString_eq_repr]
  cases n with
  | ofNat n =>
    rw [if_neg (by simp)]
    exact Nat.toList_repr
  | negSucc n =>
    rw [if_pos (Int.negSucc_lt_zero n)]
    show ("-" ++ (n + 1).repr).toList = _
    rw [String.toList_append, Nat.toList_repr]
    rfl

/-- What follows a value in a list or an object, or at the end. No number goes on with it. -/
def Ends (rest : List Char) : Prop := ∀ c ∈ rest.head?, c = ',' ∨ c = ']' ∨ c = '}'

theorem ends_nil : Ends [] := by simp [Ends]

theorem ends_cons {c : Char} (rest : List Char) (mark : c = ',' ∨ c = ']' ∨ c = '}') :
    Ends (c :: rest) := by simpa [Ends] using mark

theorem spanDigits_of_ends {digits rest : List Char} (all : ∀ c ∈ digits, c.isDigit)
    (ends : Ends rest) : spanDigits (digits ++ rest) = (digits, rest) := by
  induction digits with
  | nil =>
    cases rest with
    | nil => rfl
    | cons c rest =>
      have other : c.isDigit = false := by
        obtain rfl | rfl | rfl := ends c (by simp) <;> decide
      simp [spanDigits, other]
  | cons c digits ih =>
    obtain ⟨digit, others⟩ := List.forall_mem_cons.1 all
    simp [spanDigits, digit, ih others]

/-- A whole number, as written. -/
def wholeNumeral (n : Int) : Numeral := ⟨decide (n < 0), Nat.toDigits 10 n.natAbs, [], none, true⟩

theorem exponentPart_of_ends {rest : List Char} (ends : Ends rest) :
    exponentPart rest = some (none, rest) := by
  unfold exponentPart
  split
  · next c rest =>
    rw [if_neg]
    obtain rfl | rfl | rfl := ends c (by simp) <;> decide
  · rfl

theorem numeral_toDigits (negative : Bool) (n : Nat) {rest : List Char} (ends : Ends rest) :
    numeral negative (Nat.toDigits 10 n ++ rest) =
      some (⟨negative, Nat.toDigits 10 n, [], none, true⟩, rest) := by
  have span := spanDigits_of_ends (fun _ mem => isDigit_of_mem_toDigits (n := n) mem) ends
  unfold numeral
  rw [span]
  split
  · next none => exact absurd (congrArg Prod.fst none) Nat.toDigits_ne_nil
  · next padded =>
    have short := tail_eq_nil_of_toDigits (congrArg Prod.fst padded)
    cases short
  · next point =>
    cases congrArg Prod.snd point
    have mark := ends '.' (by simp)
    simp at mark
  · next same =>
    cases same
    rw [exponentPart_of_ends ends]
    rfl

/-- What begins with a digit is a number without a sign. -/
theorem token_of_isDigit {c : Char} {cs : List Char} (digit : c.isDigit) :
    token (c :: cs) = (numeral false (c :: cs)).map fun (n, rest) => (.number n, rest) := by
  unfold token
  split
  all_goals first
    | rfl
    | (next e =>
        cases (List.cons_eq_cons.1 e).1
        cases digit)

theorem token_int (n : Int) {rest : List Char} (ends : Ends rest) :
    token ((toString n).toList ++ rest) = some (.number (wholeNumeral n), rest) := by
  rw [toList_toString_int]
  split
  · next negative =>
    rw [List.cons_append, token, numeral_toDigits true n.natAbs ends]
    simp [wholeNumeral, negative]
  · next positive =>
    obtain ⟨c, digits, e⟩ :=
      List.exists_cons_of_ne_nil (Nat.toDigits_ne_nil (n := n.natAbs) (b := 10))
    have digit : c.isDigit := isDigit_of_mem_toDigits (n := n.natAbs) (e ▸ List.mem_cons_self)
    have number := numeral_toDigits false n.natAbs ends
    rw [e, List.cons_append] at number ⊢
    rw [token_of_isDigit digit, number]
    simp [wholeNumeral, positive, e]

namespace Numeral

theorem le_ofDigitChars (digits : List Char) (init : Nat) :
    init ≤ Nat.ofDigitChars 10 digits init := by
  induction digits generalizing init with
  | nil => simp
  | cons c digits ih =>
    rw [Nat.ofDigitChars_cons]
    have := ih (10 * init + (c.toNat - '0'.toNat))
    omega

/-- Digits whose value has room are all gathered. -/
theorem gather_of_le (digits : List Char) (significand count : Nat)
    (room : Nat.ofDigitChars 10 digits significand ≤ limit) :
    gather significand count digits =
      (Nat.ofDigitChars 10 digits significand, count + digits.length, []) := by
  induction digits generalizing significand count with
  | nil => simp [gather]
  | cons c digits ih =>
    rw [Nat.ofDigitChars_cons] at room ⊢
    have next : significand * 10 + digit c = 10 * significand + (c.toNat - '0'.toNat) := by
      rw [Nat.mul_comm]
      rfl
    have := le_ofDigitChars digits (10 * significand + (c.toNat - '0'.toNat))
    rw [gather]
    simp only [next]
    rw [if_neg (by omega), ih _ _ room, List.length_cons, Nat.add_right_comm, Nat.add_assoc]

/-- A whole number that fits is kept whole. -/
theorem json?_whole {n : Int} (least : -(negativeLimit : Int) ≤ n) (most : n ≤ limit) :
    (wholeNumeral n).json? = some (.int n) := by
  have value : Nat.ofDigitChars 10 (Nat.toDigits 10 n.natAbs) 0 = n.natAbs :=
    Nat.ofDigitChars_ten_toDigits
  have room : n.natAbs ≤ limit := by
    unfold negativeLimit at least
    unfold limit at *
    omega
  have gathered := gather_of_le (Nat.toDigits 10 n.natAbs) 0 0 (by rw [value]; exact room)
  unfold json? wholeNumeral
  rw [gathered, value]
  by_cases negative : n < 0
  · have small : n.natAbs ≤ negativeLimit := by omega
    have some_size : n.natAbs ≠ 0 := by omega
    simp [negative, small, some_size, abs_of_neg negative]
  · simp [negative, abs_of_nonneg (Int.not_lt.1 negative)]

end Numeral

end Numbers

/-! Words are read the same where an object begins behind them: no word goes on with a brace. -/
section Joining

variable {cs left : List Char}

theorem stringBody_append {raw : List Char} (read : stringBody cs = some (raw, left))
    (more : List Char) : stringBody (cs ++ more) = some (raw, left ++ more) := by
  fun_induction stringBody cs generalizing raw left with
  | case1 => cases read; rfl
  | case2 a b c d tail hex ih =>
    obtain ⟨⟨body, left⟩, e, same⟩ := Option.map_eq_some_iff.1 read
    cases same
    simp [stringBody, hex, ih e]
  | case3 => cases read
  | case4 c tail other known ih =>
    obtain ⟨⟨body, left⟩, e, same⟩ := Option.map_eq_some_iff.1 read
    cases same
    have step := ih e
    have plain : c ≠ 'u' := by
      rintro rfl
      simp at known
    simp [stringBody, plain, known, step]
  | case5 => cases read
  | case6 => cases read
  | case7 c tail _ _ _ _ ih =>
    obtain ⟨⟨body, left⟩, e, same⟩ := Option.map_eq_some_iff.1 read
    cases same
    have step := ih e
    rw [List.cons_append, stringBody.eq_def]
    split
    all_goals simp_all
  | case8 => cases read

theorem spanDigits_append_brace (cs more : List Char) :
    spanDigits (cs ++ '{' :: more) = ((spanDigits cs).1, (spanDigits cs).2 ++ '{' :: more) := by
  induction cs with
  | nil => rfl
  | cons c cs ih => by_cases digit : c.isDigit <;> simp [spanDigits, digit, ih]

theorem sign_append_brace (cs more : List Char) :
    sign (cs ++ '{' :: more) = ((sign cs).1, (sign cs).2 ++ '{' :: more) := by
  cases cs with
  | nil => rfl
  | cons c cs =>
    unfold sign
    split <;> simp_all

theorem exponentPart_append_brace {exponent : Option (Bool × List Char)}
    (read : exponentPart cs = some (exponent, left)) (more : List Char) :
    exponentPart (cs ++ '{' :: more) = some (exponent, left ++ '{' :: more) := by
  cases cs with
  | nil =>
    cases read
    rfl
  | cons c cs =>
    simp only [List.cons_append, exponentPart, sign_append_brace, spanDigits_append_brace] at read ⊢
    split
    · next mark =>
      rw [if_pos mark] at read
      generalize spanDigits (sign cs).2 = span at read ⊢
      obtain ⟨_ | ⟨d, digits⟩, rest⟩ := span
      · cases read
      · cases read
        rfl
    · next mark =>
      rw [if_neg mark] at read
      cases read
      rfl

theorem numeral_append_brace {negative : Bool} {n : Numeral}
    (read : numeral negative cs = some (n, left)) (more : List Char) :
    numeral negative (cs ++ '{' :: more) = some (n, left ++ '{' :: more) := by
  unfold numeral at read ⊢
  rw [spanDigits_append_brace]
  generalize spanDigits cs = span at read ⊢
  split at read
  · cases read
  · cases read
  · next whole rest _ _ =>
    simp only [spanDigits_append_brace, List.cons_append]
    generalize spanDigits rest = span at read ⊢
    obtain ⟨_ | ⟨d, digits⟩, rest⟩ := span
    · cases read
    · obtain ⟨⟨exponent, left⟩, e, same⟩ := Option.map_eq_some_iff.1 read
      cases same
      simp [exponentPart_append_brace e]
  · next whole rest some_digit zero point =>
    obtain ⟨⟨exponent, left⟩, e, same⟩ := Option.map_eq_some_iff.1 read
    cases same
    have goes := exponentPart_append_brace e more
    split
    · next none => exact absurd (congrArg Prod.fst none) some_digit
    · next padded => exact absurd (congrArg Prod.fst padded) (zero _ _)
    · next dotted =>
      obtain ⟨rfl, dot⟩ := Prod.mk.inj dotted
      cases rest with
      | nil => cases dot
      | cons c rest => exact absurd (congrArg (· :: rest) (List.cons.inj dot).1) (point _)
    · next same =>
      cases same
      simp [goes]

theorem token_append_brace {t : Token} (read : token cs = some (t, left)) (more : List Char) :
    token (cs ++ '{' :: more) = some (t, left ++ '{' :: more) := by
  unfold token at read
  split at read
  all_goals first
    | (cases read; rfl)
    | skip
  · obtain ⟨⟨raw, left⟩, e, same⟩ := Option.map_eq_some_iff.1 read
    cases same
    simp [token, stringBody_append e]
  · obtain ⟨⟨n, left⟩, e, same⟩ := Option.map_eq_some_iff.1 read
    cases same
    simp [token, numeral_append_brace e]
  · obtain ⟨⟨n, left⟩, e, same⟩ := Option.map_eq_some_iff.1 read
    cases same
    cases cs with
    | nil => cases e
    | cons c cs =>
      have digit : c.isDigit := by
        by_contra other
        simp [numeral, spanDigits, other] at e
      rw [List.cons_append, token_of_isDigit digit, ← List.cons_append, numeral_append_brace e]
      rfl

/-- The first word comes behind the blanks. -/
theorem tokens_of_word {c : Char} {cs tail rest : List Char} {t : Token}
    (begun : cs.dropWhile isBlank = c :: tail) (first : token (c :: tail) = some (t, rest)) :
    tokens cs = (tokens rest).map (t :: ·) := by
  rw [tokens]
  split
  · next none => cases none.symm.trans begun
  · next same =>
    cases same.symm.trans begun
    split
    · next none => cases none.symm.trans first
    · next some =>
      cases some.symm.trans first
      rfl

theorem tokens_of_no_word {c : Char} {cs tail : List Char}
    (begun : cs.dropWhile isBlank = c :: tail) (first : token (c :: tail) = none) :
    tokens cs = none := by
  rw [tokens]
  split
  · next none => cases none.symm.trans begun
  · next same =>
    cases same.symm.trans begun
    split
    · rfl
    · next some => cases some.symm.trans first

theorem tokens_of_blank {cs : List Char} (blank : ∀ c ∈ cs, isBlank c) : tokens cs = some [] := by
  have none := List.dropWhile_eq_nil_iff.2 blank
  rw [tokens]
  split
  · rfl
  · next some => cases some.symm.trans none

/-- The words of a text are the same where an object begins behind them. -/
theorem tokens_append_brace {ts : List Token} (read : tokens cs = some ts) (more : List Char) :
    tokens (cs ++ '{' :: more) = (tokens more).map (ts ++ .openObject :: ·) := by
  fun_induction tokens cs generalizing ts with
  | case1 cs none =>
    cases read
    apply tokens_of_word
    · rw [List.dropWhile_append, none]
      rfl
    · rfl
  | case2 => cases read
  | case3 cs c tail begun t rest first ih =>
    obtain ⟨others, words, rfl⟩ := Option.map_eq_some_iff.1 read
    have behind : (cs ++ '{' :: more).dropWhile isBlank = c :: (tail ++ '{' :: more) := by
      rw [List.dropWhile_append, begun]
      rfl
    rw [tokens_of_word behind (token_append_brace first more), ih words, Option.map_map]
    rfl

end Joining

end SceneLock.Json
