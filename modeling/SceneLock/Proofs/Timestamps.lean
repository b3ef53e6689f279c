import Mathlib
import SceneLock.Proofs.Calendar
import SceneLock.Proofs.Digits

/-!
Times as texts: what is written of a time is read as that time, in whatever year it lies, to the
nanosecond, and in the leap second at the end of a minute too. Any other leap second is written as
the second that it looks like, and read as that.
-/

namespace SceneLock.Timestamp

namespace Scan

variable {α β : Type}

/-- What is read first leaves the rest to what is read next. -/
theorem bind_of {x : Scan α} {f : α → Scan β} {cs rest : List Char} {a : α}
    (first : x cs = some (a, rest)) : (x >>= f) cs = f a rest := by
  simp [bind, StateT.bind, first]

/-- The text does not go on with a digit. -/
def Stops (rest : List Char) : Prop := ∀ c ∈ rest.head?, c.isDigit = false

theorem takeWhile_digits {digits rest : List Char} (all : ∀ c ∈ digits, c.isDigit)
    (stop : Stops rest) : (digits ++ rest).takeWhile Char.isDigit = digits := by
  rw [List.takeWhile_append_of_pos all]
  cases rest with
  | nil => simp
  | cons c rest => simp [stop c (by simp)]

/-- As many digits as are asked for are read, whatever follows. -/
theorem numberUpTo_append {digits : List Char} (all : ∀ c ∈ digits, c.isDigit)
    (some_digit : digits ≠ []) (rest : List Char) :
    numberUpTo digits.length (digits ++ rest) = some (value digits, rest) := by
  unfold numberUpTo
  rw [List.take_left]
  have whole : digits.takeWhile Char.isDigit = digits := List.takeWhile_eq_self_iff.2 all
  simp [whole, some_digit]

theorem number_append {digits rest : List Char} (all : ∀ c ∈ digits, c.isDigit)
    (some_digit : digits ≠ []) (stop : Stops rest) :
    number (digits ++ rest) = some (value digits, rest) := by
  unfold number numberUpTo
  rw [List.take_length, takeWhile_digits all stop]
  simp [some_digit]

theorem not_white_of_isDigit {c : Char} (digit : c.isDigit) : isWhite c = false := by
  have := Char.isDigit_iff_toNat.1 digit
  unfold isWhite
  grind

theorem skipWhite_of_not_white {c : Char} {rest : List Char} (bare : isWhite c = false) :
    skipWhite (c :: rest) = some ((), c :: rest) := by
  show some ((), (c :: rest).dropWhile isWhite) = _
  rw [List.dropWhile_cons_of_neg (by simp [bare])]

theorem padded_eq_cons (width n : Nat) :
    ∃ c digits, padded width n = c :: digits ∧ c.isDigit := by
  obtain ⟨c, digits, e⟩ := List.exists_cons_of_ne_nil (padded_ne_nil width n)
  exact ⟨c, digits, e, isDigit_of_mem_padded (e ▸ List.mem_cons_self)⟩

/-- There is no white space in front of a digit to be skipped. -/
theorem skipWhite_padded (width n : Nat) (rest : List Char) :
    skipWhite (padded width n ++ rest) = some ((), padded width n ++ rest) := by
  obtain ⟨c, digits, e, digit⟩ := padded_eq_cons width n
  rw [e]
  exact skipWhite_of_not_white (not_white_of_isDigit digit)

theorem field_append {n : Nat} (small : n < 100) (rest : List Char) :
    field (padded 2 n ++ rest) = some (n, rest) := by
  have exact_two :=
    numberUpTo_append (fun _ mem => isDigit_of_mem_padded mem) (padded_ne_nil 2 n) rest
  rw [length_padded (by decide) small, value_padded] at exact_two
  rw [field, bind_of (skipWhite_padded 2 n rest), exact_two]

theorem fieldAfter_append {mark : Char} (bare : isWhite mark = false) {n : Nat} (small : n < 100)
    (rest : List Char) : fieldAfter mark (mark :: (padded 2 n ++ rest)) = some (n, rest) := by
  have marked : exactly mark (mark :: (padded 2 n ++ rest)) = some ((), padded 2 n ++ rest) := by
    simp [exactly]
  rw [fieldAfter, bind_of (skipWhite_of_not_white bare), bind_of marked, field_append small]

/-- A number of any length is read to its end. -/
theorem number_padded (width n : Nat) {rest : List Char} (stop : Stops rest) :
    number (padded width n ++ rest) = some (n, rest) := by
  rw [number_append (fun _ mem => isDigit_of_mem_padded mem) (padded_ne_nil width n) stop,
    value_padded]

theorem year_append (y : Int) {rest : List Char} (stop : Stops rest) :
    year (yearChars y ++ rest) = some (y, rest) := by
  unfold yearChars
  split
  · next usual =>
    have four := numberUpTo_append (fun _ mem => isDigit_of_mem_padded mem)
      (padded_ne_nil 4 y.toNat) rest
    rw [length_padded (by decide) (by omega), value_padded] at four
    rw [year, bind_of (skipWhite_padded 4 y.toNat rest)]
    obtain ⟨c, digits, e, digit⟩ := padded_eq_cons 4 y.toNat
    rw [e, List.cons_append] at four ⊢
    -- a digit is neither of the signs
    simp only
    split
    · next dash =>
      obtain ⟨rfl, _⟩ := List.cons_eq_cons.1 dash
      cases digit
    · next plus =>
      obtain ⟨rfl, _⟩ := List.cons_eq_cons.1 plus
      cases digit
    · rw [four]
      simp
      omega
  · -- behind a sign, the digits go on for as long as they do
    split
    all_goals
      rw [year, List.cons_append, bind_of (skipWhite_of_not_white (by decide))]
      simp only [number_padded 4 y.natAbs stop, Option.map_some]
      congr
      omega

theorem date_append (d : Date) (exists_ : d.IsValid) {rest : List Char} :
    date (yearChars d.year ++ '-' :: (padded 2 d.month ++ '-' :: (padded 2 d.day ++ rest))) =
      some (d, rest) := by
  obtain ⟨⟨_, months⟩, _, days⟩ := exists_
  have days : d.day < 100 := by
    unfold Date.daysInMonth at days
    grind
  rw [date, bind_of (year_append d.year (by simp [Stops])),
    bind_of (fieldAfter_append (by decide) (by omega) _),
    bind_of (fieldAfter_append (by decide) days _)]
  rfl

theorem fraction_append {nanos : Nat} (short : nanos < nanosPerSecond) (rest : List Char) :
    fraction (fractionChars nanos ++ 'Z' :: rest) = some (nanos, 'Z' :: rest) := by
  have point (width n : Nat) (wide : 0 < width) (narrow : width ≤ 9) (fits : n < 10 ^ width) :
      fraction ('.' :: padded width n ++ 'Z' :: rest) =
        some (n * 10 ^ (9 - width), 'Z' :: rest) := by
    have digits : (padded width n ++ 'Z' :: rest).takeWhile Char.isDigit = padded width n :=
      takeWhile_digits (fun _ mem => isDigit_of_mem_padded mem) (by simp [Stops])
    have length := length_padded wide fits
    have kept : (padded width n).take 9 = padded width n := List.take_of_length_le (by omega)
    simp [fraction, digits, kept, padded_ne_nil, value_padded, length]
  unfold nanosPerSecond at short
  unfold fractionChars
  split
  · next none => simp [fraction, none]
  · split
    · rw [point 3 _ (by decide) (by decide) (by omega)]
      simp
      omega
    · split
      · rw [point 6 _ (by decide) (by decide) (by omega)]
        simp
        omega
      · rw [point 9 _ (by decide) (by decide) (by omega)]
        simp

theorem separator_cons (rest : List Char) : separator ('T' :: rest) = some ((), rest) := rfl

theorem offset_cons (rest : List Char) : offset ('Z' :: rest) = some (0, rest) := rfl

end Scan

/-- What a clock shows of a time: the second of the day, whether it is a leap second, and the rest.
A leap second comes when the minute is over. -/
theorem shown_cases {t : Timestamp} (valid : t.IsValid) :
    ∃ second leap rest : Nat, (t.seconds % secondsPerDay).toNat = second ∧
      t.nanos / nanosPerSecond = leap ∧ t.nanos % nanosPerSecond = rest ∧
      t.seconds = t.seconds / secondsPerDay * secondsPerDay + second ∧ second < 86400 ∧
      rest < nanosPerSecond ∧
      (leap = 0 ∧ t.nanos = rest ∨
        leap = 1 ∧ t.nanos = nanosPerSecond + rest ∧ second % 60 = 59) := by
  obtain ⟨_, nanos, leap⟩ := valid
  refine ⟨_, _, _, rfl, rfl, rfl, ?_⟩
  unfold nanosPerSecond secondsPerDay at *
  omega

theorem ofChars?_chars {t : Timestamp} (valid : t.IsValid) : ofChars? t.chars = some t := by
  have date_valid := Date.isValid_ofDays (t.seconds / secondsPerDay)
  have date_days := Date.toDays_ofDays (t.seconds / secondsPerDay)
  obtain ⟨second, leap, rest, e, e', e'', seconds, day, short, either⟩ := shown_cases valid
  have scanned : Scan.timestamp t.chars = some (t, []) := by
    simp only [chars, List.append_assoc, List.cons_append, e, e', e'']
    generalize Date.ofDays (t.seconds / secondsPerDay) = date at date_valid date_days
    have minute : second % 60 + leap ≤ 60 := by omega
    rw [Scan.timestamp, Scan.bind_of (Scan.date_append date date_valid),
      Scan.bind_of (Scan.separator_cons _), Scan.bind_of (Scan.field_append (by omega) _),
      Scan.bind_of (Scan.fieldAfter_append (by decide) (by omega) _),
      Scan.bind_of (Scan.fieldAfter_append (by decide) (by omega) _),
      Scan.bind_of (Scan.fraction_append short _),
      Scan.bind_of (Scan.skipWhite_of_not_white (by decide)),
      Scan.bind_of (Scan.offset_cons _)]
    have at_second : date.toDays * secondsPerDay + (second / 3600 * 3600 + second / 60 % 60 * 60 +
        min (second % 60 + leap) 59 : Nat) = t.seconds := by
      rw [date_days]
      omega
    have at_nanos :
        (if second % 60 + leap = 60 then nanosPerSecond + rest else rest) = t.nanos := by
      split <;> omega
    simp only [at_second, at_nanos, Int.sub_zero]
    rw [if_pos ⟨date_valid, by omega, by omega, minute, by decide, valid, valid⟩]
    rfl
  unfold ofChars?
  rw [scanned]
  rfl

theorem ofText?_text {t : Timestamp} (valid : t.IsValid) : ofText? t.text = some t := by
  rw [ofText?, text, String.toList_ofList, ofChars?_chars valid]

/-- A time that can be held. A leap second may follow any second. -/
def InRange (t : Timestamp) : Prop :=
  (earliest ≤ t.seconds ∧ t.seconds ≤ latest) ∧ t.nanos < 2 * nanosPerSecond

instance (t : Timestamp) : Decidable t.InRange := inferInstanceAs (Decidable (_ ∧ _))

/-- The time that the text of a time tells. A leap second that does not end a minute looks like the
second after the one that it follows. -/
def shown (t : Timestamp) : Timestamp :=
  if nanosPerSecond ≤ t.nanos ∧ t.seconds % 60 ≠ 59 then ⟨t.seconds + 1, t.nanos - nanosPerSecond⟩
  else t

variable {t : Timestamp}

theorem InRange.isValid_shown (held : t.InRange) : t.shown.IsValid := by
  obtain ⟨⟨begun, ended⟩, short⟩ := held
  have last : latest % 60 = 59 := by decide
  unfold shown
  split
  · next stray =>
    simp only [IsValid, nanosPerSecond] at *
    omega
  · next plain =>
    exact ⟨⟨begun, ended⟩, short, fun leap => by_contra fun within => plain ⟨leap, within⟩⟩

theorem InRange.shown_eq_iff (held : t.InRange) : t.shown = t ↔ t.IsValid := by
  constructor
  · intro same
    exact same ▸ held.isValid_shown
  · intro valid
    exact if_neg fun stray => stray.2 (valid.2.2 stray.1)

theorem InRange.chars_shown (held : t.InRange) : t.shown.chars = t.chars := by
  obtain ⟨_, short⟩ := held
  unfold shown
  split
  · next stray =>
    obtain ⟨leap, within⟩ := stray
    -- within a minute, the next second is one of the same day, hour and minute
    have day : (t.seconds + 1) / secondsPerDay = t.seconds / secondsPerDay := by
      unfold secondsPerDay
      omega
    have next : ((t.seconds + 1) % secondsPerDay).toNat =
        (t.seconds % secondsPerDay).toNat + 1 := by
      unfold secondsPerDay
      omega
    have within : (t.seconds % secondsPerDay).toNat % 60 < 59 := by
      unfold secondsPerDay
      omega
    simp only [chars, day, next]
    generalize (t.seconds % secondsPerDay).toNat = second at within
    have hour : (second + 1) / 3600 = second / 3600 := by omega
    have minute : (second + 1) / 60 % 60 = second / 60 % 60 := by omega
    have told : (second + 1) % 60 + (t.nanos - nanosPerSecond) / nanosPerSecond =
        second % 60 + t.nanos / nanosPerSecond := by
      unfold nanosPerSecond at *
      omega
    have rest : (t.nanos - nanosPerSecond) % nanosPerSecond = t.nanos % nanosPerSecond :=
      (Nat.mod_eq_sub_mod leap).symm
    rw [hour, minute, told, rest]
  · rfl

/-- A text is read as the time that it shows. -/
theorem InRange.ofText?_text (held : t.InRange) : ofText? t.text = some t.shown := by
  rw [text, ← held.chars_shown]
  exact Timestamp.ofText?_text held.isValid_shown

end SceneLock.Timestamp
