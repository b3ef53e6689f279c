import Mathlib
import SceneLock.Timestamp.Text

/-!
Numbers as texts: they are read back from their digits, with or without zeros in front.
-/

namespace SceneLock

theorem toList_toString (n : Nat) : (toString n).toList = Nat.toDigits 10 n := by
  rw [Nat.toString_eq_repr, Nat.toList_repr]

theorem isDigit_of_mem_toDigits {n : Nat} {c : Char} (mem : c ∈ Nat.toDigits 10 n) : c.isDigit :=
  Nat.isDigit_of_mem_toDigits (by decide) (by decide) mem

/-- Only the number zero begins with a zero. -/
theorem tail_eq_nil_of_toDigits {n : Nat} {digits : List Char}
    (zero : Nat.toDigits 10 n = '0' :: digits) : digits = [] := by
  induction n using Nat.strong_induction_on generalizing digits with
  | _ n ih =>
    by_cases small : n < 10
    · rw [Nat.toDigits_of_lt_base small] at zero
      exact (List.cons_eq_cons.1 zero).2.symm
    · rw [Nat.toDigits_of_base_le (by decide) (by omega)] at zero
      obtain ⟨none, _⟩ | ⟨front, begun, _⟩ := List.append_eq_cons_iff.1 zero
      · exact absurd none Nat.toDigits_ne_nil
      · have short := ih (n / 10) (by omega) begun
        have tiny : n / 10 = 0 := by
          have value := congrArg (Nat.ofDigitChars 10 · 0) begun
          rw [short, Nat.ofDigitChars_ten_toDigits] at value
          exact value
        omega

namespace Timestamp

open Scan

theorem value_eq (digits : List Char) : value digits = Nat.ofDigitChars 10 digits 0 := by
  simp only [value, Nat.ofDigitChars_eq_foldl, Nat.mul_comm 10]
  rfl

theorem value_padded (width n : Nat) : value (padded width n) = n := by
  rw [padded, value_eq, toList_toString, Nat.ofDigitChars_append, Nat.ofDigitChars_replicate_zero]
  simp

theorem isDigit_of_mem_padded {width n : Nat} {c : Char} (mem : c ∈ padded width n) :
    c.isDigit := by
  rw [padded, toList_toString] at mem
  obtain zero | digit := List.mem_append.1 mem
  · rw [List.eq_of_mem_replicate zero]
    rfl
  · exact isDigit_of_mem_toDigits digit

theorem padded_ne_nil (width n : Nat) : padded width n ≠ [] := by
  rw [padded, toList_toString]
  exact List.append_ne_nil_of_right_ne_nil _ Nat.toDigits_ne_nil

/-- A number that fits fills its width. -/
theorem length_padded {width n : Nat} (wide : 0 < width) (fits : n < 10 ^ width) :
    (padded width n).length = width := by
  have short := (Nat.length_toDigits_le_iff (b := 10) (by decide) wide).2 fits
  rw [padded, toList_toString, List.length_append, List.length_replicate]
  omega

end Timestamp

end SceneLock
