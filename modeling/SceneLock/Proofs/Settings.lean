import Mathlib
import SceneLock.Config
import SceneLock.Proofs.Digits
import SceneLock.Proofs.PlainMaps

/-!
The file of a coordinator's settings. It holds three numbers, each of which comes back from its
digits however large it is, so that reading a written file gives the same settings again.
-/

namespace SceneLock

namespace Yaml

theorem isWord_toDigits (n : Nat) : IsWord (Nat.toDigits 10 n) where
  ne_nil := Nat.toDigits_ne_nil
  safe c mem := by simp [isSafe, Char.isAlphanum, isDigit_of_mem_toDigits mem]

namespace Decode

variable {c : Char} {cs : List Char}

theorem digitValue?_of_isDigit (digit : c.isDigit) : digitValue? 10 c = some (c.toNat - 48) := by
  have range : 48 ≤ c.toNat ∧ c.toNat ≤ 57 := by
    simpa [Char.isDigit, UInt32.le_iff_toNat_le] using digit
  rw [digitValue?, if_pos digit, if_pos (by omega)]

theorem foldlM_digits (digits : ∀ c ∈ cs, c.isDigit) (n : Nat) :
    cs.foldlM (fun n c => (digitValue? 10 c).map (n * 10 + ·)) n =
      some (Nat.ofDigitChars 10 cs n) := by
  induction cs generalizing n with
  | nil => rfl
  | cons c cs ih =>
    obtain ⟨first, others⟩ := List.forall_mem_cons.1 digits
    rw [List.foldlM_cons, digitValue?_of_isDigit first, Nat.ofDigitChars_cons, Nat.mul_comm 10]
    exact ih others _

theorem digits?_toDigits (n : Nat) : digits? 10 (Nat.toDigits 10 n) = some n := by
  rw [digits?, if_neg (by simp), foldlM_digits fun c => isDigit_of_mem_toDigits,
    Nat.ofDigitChars_ten_toDigits]

/-- A number comes back from its digits. They have no sign, and begin with a zero only if it is the
only one, so that they are not taken for another base either. -/
theorem unsigned?_toString (n : Nat) : unsigned? (toString n) = some n := by
  obtain ⟨c, rest, shape⟩ := List.exists_cons_of_ne_nil (Nat.toDigits_ne_nil (b := 10) (n := n))
  have digit : c.isDigit := isDigit_of_mem_toDigits (shape ▸ List.mem_cons_self)
  have value := digits?_toDigits n
  have unsigned : c ≠ '+' := by
    rintro rfl
    cases digit
  rw [unsigned?, toList_toString]
  rw [shape] at value ⊢
  by_cases zero : c = '0'
  · subst zero
    obtain rfl := tail_eq_nil_of_toDigits shape
    exact value
  · simp [unsigned, zero, isZeroPadded, value]

theorem natBelow_word {limit n : Nat} (small : n < limit) (d : Document) (jumps : Nat) :
    natBelow limit (word (Nat.toDigits 10 n)) d jumps = some (n, jumps) := by
  have number : unsigned? (.ofList (Nat.toDigits 10 n)) = some n := by
    rw [← toList_toString, String.ofList_toList, unsigned?_toString]
  simp [natBelow, word, follow, isOpen, bind, ReaderT.bind, StateT.bind, pure, ReaderT.pure,
    StateT.pure, number, small]

theorem text_word (w : List Char) (d : Document) (jumps : Nat) :
    text (word w) d jumps = some (.ofList w, jumps) := rfl

theorem fields_mapNode (fields : List Field) (d : Document) (jumps : Nat) :
    Decode.fields (mapNode fields) d jumps =
      some (fields.map fun f => (.ofList f.key, word f.value), jumps) := by
  induction fields with
  | nil => rfl
  | cons f fields ih =>
    have step : Decode.fields (mapNode (f :: fields)) d jumps =
        (Decode.fields (mapNode fields) d jumps).bind fun read =>
          some ((.ofList f.key, word f.value) :: read.1, read.2) := by
      simp only [Decode.fields, mapNode, follow, bind, ReaderT.bind, StateT.bind,
        Option.bind_some, List.map_cons, List.mapM_cons, text_word]
      rfl
    rw [step, ih]
    rfl

/-- A field that is there once takes the place of its default. -/
theorem optional_eq {α : Type} {name : String} {fields : List (String × Node)} {value : Node}
    (single : fields.filter (·.1 = name) = [(name, value)]) (default : α)
    (read : Node → Decode α) : optional name fields default read = read value := by
  rw [optional, field?, single]
  rfl

end Decode

end Yaml

namespace Config

open Yaml

/-- The settings as the fields of a map. -/
def fields (c : Config) : List Field :=
  [⟨attemptsKey.toList, Nat.toDigits 10 c.maxAttempts.toNat⟩,
    ⟨delayKey.toList, Nat.toDigits 10 c.retryDelay.toNat⟩,
    ⟨staleKey.toList, Nat.toDigits 10 c.staleMinutes.toNat⟩]

theorem toYaml_eq (c : Config) : c.toYaml = .ofList (mapText c.fields) := by
  simp [toYaml, numberField, mapText, fields, Field.line]

theorem plain_fields (c : Config) : ∀ f ∈ c.fields, f.Plain := by
  have keys : ∀ key ∈ [attemptsKey, delayKey, staleKey],
      key.toList ≠ [] ∧ (∀ a ∈ key.toList, isSafe a) ∧ key.toList.length ≤ 1024 := by
    simp [attemptsKey, delayKey, staleKey, isSafe]
  have field {key : String} (mem : key ∈ [attemptsKey, delayKey, staleKey]) (n : Nat) :
      Field.Plain ⟨key.toList, Nat.toDigits 10 n⟩ := by
    obtain ⟨ne_nil, safe, short⟩ := keys key mem
    exact ⟨⟨ne_nil, safe⟩, isWord_toDigits n, short⟩
  simp [fields, field]

theorem decode_fields (c : Config) (d : Document) :
    decode (mapNode c.fields) d 0 = some (c, 0) := by
  have attempts : Decode.natBelow UInt32.size (word (Nat.toDigits 10 c.maxAttempts.toNat)) d 0 =
      some (c.maxAttempts.toNat, 0) := Decode.natBelow_word c.maxAttempts.toNat_lt d 0
  have delay : Decode.natBelow UInt64.size (word (Nat.toDigits 10 c.retryDelay.toNat)) d 0 =
      some (c.retryDelay.toNat, 0) := Decode.natBelow_word c.retryDelay.toNat_lt d 0
  have stale : Decode.natBelow UInt32.size (word (Nat.toDigits 10 c.staleMinutes.toNat)) d 0 =
      some (c.staleMinutes.toNat, 0) := Decode.natBelow_word c.staleMinutes.toNat_lt d 0
  obtain ⟨first, second, third⟩ :
      attemptsKey ≠ delayKey ∧ attemptsKey ≠ staleKey ∧ delayKey ≠ staleKey := by
    decide
  simp [decode, bind, ReaderT.bind, StateT.bind, pure, ReaderT.pure, StateT.pure,
    Decode.fields_mapNode, fields, Decode.optional_eq, first, first.symm, second, second.symm,
    third, third.symm, attempts, delay, stale]

/-- Every setting is written, so no default takes the place of one. -/
theorem ofText?_toYaml (c : Config) : Decode.ofText? decode c.toYaml = some c := by
  have read := ofText?_mapText c.plain_fields (List.cons_ne_nil _ _)
  rw [toYaml_eq, Decode.ofText?]
  simp [bind, StateT.run, ReaderT.run, read, decode_fields]

/-- No two settings have the same text. -/
theorem toYaml_injective : Function.Injective toYaml := by
  intro c other same
  have read := ofText?_toYaml c
  rw [same, ofText?_toYaml other] at read
  exact (Option.some.inj read).symm

theorem ofYaml_toYaml (c : Config) : ofYaml c.toYaml = c.validate.map fun _ => c := by
  have written : isBlankText c.toYaml = false := by
    simp [isBlankText, toYaml, numberField, attemptsKey, isWhite]
  simp only [ofYaml, written, ofText?_toYaml, Bool.false_eq_true, if_false]
  cases c.validate <;> rfl

theorem validate_of_ofYaml {text : String} {c : Config} (read : ofYaml text = .ok c) :
    c.validate = .ok () := by
  unfold ofYaml at read
  split at read
  · cases read
    rfl
  · split at read
    · cases read
    · split at read
      · next valid => cases read; exact valid
      · cases read

/-- Settings that are written are read as the same settings, unless they are not valid, which is
what the reader says then. What was read from any text is valid, so it is never lost. -/
theorem yaml_round_trip :
    (∀ c : Config, ofYaml c.toYaml = c.validate.map fun _ => c) ∧
      ∀ (text : String) (c : Config), ofYaml text = .ok c → ofYaml c.toYaml = .ok c := by
  refine ⟨ofYaml_toYaml, fun text c read => ?_⟩
  rw [ofYaml_toYaml, validate_of_ofYaml read]
  rfl

/-- A file with one setting in it, and a comment, is written with all three. -/
theorem spare_round_trip :
    ofYaml "lock_stale_minutes: 5 # minutes\n" = .ok ⟨13, 150, 5⟩ ∧
      ofYaml (toYaml ⟨13, 150, 5⟩) = .ok ⟨13, 150, 5⟩ :=
  have read : ofYaml "lock_stale_minutes: 5 # minutes\n" = .ok ⟨13, 150, 5⟩ := by decide +kernel
  ⟨read, yaml_round_trip.2 _ _ read⟩

end Config

end SceneLock
