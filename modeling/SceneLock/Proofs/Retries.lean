import Mathlib
import SceneLock.Proofs.Attempts

/-!
Trying again, for any attempt: which attempts are made, in which states, and how the last one of
them ends the series.
-/

namespace SceneLock

variable {ε σ : Type}

/-- How a series ends with attempt `n`. If that one met contention, none is left. -/
def concluded (giveUp : ε) (n : Nat) : EStateM.Result ε σ Bool → EStateM.Result ε σ Nat
  | .ok true s => .ok n s
  | .ok false s => .error giveUp s
  | .error e s => .error e s

/-- The result, with the calls that led to it beside its state. -/
def withCalls {α : Type} (calls : List Nat) :
    EStateM.Result ε σ α → EStateM.Result ε (σ × List Nat) α
  | .ok a s => .ok a (s, calls)
  | .error e s => .error e (s, calls)

/-- The attempt, which puts down its number when it is made. -/
def recorded (attempt : Nat → EStateM ε σ Bool) (n : Nat) : EStateM ε (σ × List Nat) Bool :=
  fun (s, calls) => withCalls (calls ++ [n]) (attempt n s)

/-- What a pause does to the state, and nothing to the calls. -/
def besides (wait : Nat → σ → σ) (n : Nat) : σ × List Nat → σ × List Nat :=
  fun (s, calls) => (wait n s, calls)

section Series

variable (attempt : Nat → EStateM ε σ Bool) (wait : Nat → σ → σ) (s : σ)

/-- The state that the attempts before number `n` leave, with a pause behind each. -/
def stateBefore (n : Nat) : σ :=
  (List.range' 1 (n - 1)).foldl (fun s k => wait k (leaves (attempt k s))) s

/-- What attempt `n` comes to when its turn comes. -/
def madeAt (n : Nat) : EStateM.Result ε σ Bool := attempt n (stateBefore attempt wait s n)

/-- Attempt `n` meets contention when its turn comes. -/
def Contended (n : Nat) : Prop := ∃ t, madeAt attempt wait s n = .ok false t

/-- Attempt `k` is the first that does not meet contention, or the last of them all. -/
structure EndsAt (last k : Nat) : Prop where
  positive : 1 ≤ k
  within : k ≤ last
  before : ∀ n, 1 ≤ n → n < k → Contended attempt wait s n
  final : Contended attempt wait s k → k = last

variable {attempt wait s} {last j k n : Nat} {giveUp : ε}

theorem stateBefore_succ (positive : 1 ≤ n) :
    stateBefore attempt wait s (n + 1) =
      wait n (leaves (madeAt attempt wait s n)) := by
  obtain ⟨m, rfl⟩ : ∃ m, n = m + 1 := ⟨n - 1, by omega⟩
  have numbers : List.range' 1 (m + 1 + 1 - 1) = List.range' 1 (m + 1 - 1) ++ [m + 1] := by
    simp [List.range'_concat, Nat.add_comm]
  rw [madeAt, stateBefore, stateBefore, numbers, List.foldl_append]
  rfl

theorem EndsAt.unique (one : EndsAt attempt wait s last j) (other : EndsAt attempt wait s last k) :
    j = k := by
  obtain less | same | more := Nat.lt_trichotomy j k
  · have := one.final (other.before j one.positive less)
    have := other.within
    omega
  · exact same
  · have := other.final (one.before k other.positive more)
    have := one.within
    omega

/-- The series ends as the attempt does that it ends at. -/
theorem retryFrom_endsAt (giveUp : ε) (left : Nat) :
    ∃ k, EndsAt attempt wait s (left + 1) k ∧
      retryFrom giveUp attempt (fun n => modify (wait n)) (left + 1) 1 s =
        concluded giveUp k (madeAt attempt wait s k) := by
  let P (n : Nat) (u : σ) : Prop := 1 ≤ n ∧ u = stateBefore attempt wait s n ∧
    ∀ m, 1 ≤ m → m < n → Contended attempt wait s m
  let Q (n : Nat) (u : σ) : Prop := P n (stateBefore attempt wait s n) ∧
    madeAt attempt wait s n = .ok false u
  have contended (n : Nat) (u v : σ) (here : P n u) (made : attempt n u = .ok false v) : Q n v := by
    obtain ⟨positive, rfl, before⟩ := here
    exact ⟨⟨positive, rfl, before⟩, made⟩
  have pauses (n : Nat) (u : σ) (after : Q n u) :
      ∃ v, (modify (wait n) : EStateM ε σ Unit) u = .ok () v ∧ P (n + 1) v := by
    obtain ⟨⟨positive, _, before⟩, made⟩ := after
    refine ⟨wait n u, rfl, by omega, ?_, ?_⟩
    · rw [stateBefore_succ positive, made]
      rfl
    · intro m from_one below
      obtain earlier | rfl := Nat.lt_succ_iff_lt_or_eq.1 below
      · exact before m from_one earlier
      · exact ⟨u, made⟩
  have start : P 1 s := ⟨Nat.le_refl 1, rfl, fun m from_one below => by omega⟩
  obtain ⟨k, u, t, positive, within, ⟨_, rfl, before⟩, made, run⟩ |
    ⟨k, u, e, t, positive, within, ⟨_, rfl, before⟩, made, run⟩ |
    ⟨t, ⟨⟨positive, _, before⟩, made⟩, run⟩ :=
    retryFrom_cases contended pauses giveUp left 1 s start
  · exact ⟨k, ⟨positive, by omega, before, fun ⟨_, again⟩ => by cases made.symm.trans again⟩,
      by rw [run, madeAt, made, concluded]⟩
  · exact ⟨k, ⟨positive, by omega, before, fun ⟨_, again⟩ => by cases made.symm.trans again⟩,
      by rw [run, madeAt, made, concluded]⟩
  · rw [Nat.add_comm] at before made
    exact ⟨left + 1, ⟨by omega, Nat.le_refl _, before, fun _ => rfl⟩, by rw [run, made, concluded]⟩

theorem leaves_withCalls {α : Type} (calls : List Nat) (r : EStateM.Result ε σ α) :
    leaves (withCalls calls r) = (leaves r, calls) := by
  cases r <;> rfl

theorem range'_one_concat (n : Nat) : List.range' 1 n ++ [n + 1] = List.range' 1 (n + 1) := by
  rw [List.range'_concat, Nat.one_mul, Nat.add_comm 1]

/-- Putting down the calls does not change the states. -/
theorem stateBefore_recorded (n : Nat) :
    stateBefore (recorded attempt) (besides wait) (s, []) (n + 1) =
      (stateBefore attempt wait s (n + 1), List.range' 1 n) := by
  induction n with
  | zero => rfl
  | succ n ih =>
    rw [stateBefore_succ (by omega), stateBefore_succ (by omega), madeAt, ih, recorded,
      leaves_withCalls, range'_one_concat]
    rfl

theorem madeAt_recorded (positive : 1 ≤ n) :
    madeAt (recorded attempt) (besides wait) (s, []) n =
      withCalls (List.range' 1 n) (madeAt attempt wait s n) := by
  obtain ⟨m, rfl⟩ : ∃ m, n = m + 1 := ⟨n - 1, by omega⟩
  rw [madeAt, stateBefore_recorded, recorded, range'_one_concat, madeAt]

theorem contended_recorded (positive : 1 ≤ n) :
    Contended (recorded attempt) (besides wait) (s, []) n ↔ Contended attempt wait s n := by
  unfold Contended
  rw [madeAt_recorded positive]
  cases madeAt attempt wait s n <;> simp [withCalls]

theorem EndsAt.recorded (ends : EndsAt attempt wait s last k) :
    EndsAt (recorded attempt) (besides wait) (s, []) last k where
  positive := ends.positive
  within := ends.within
  before n from_one below := (contended_recorded from_one).2 (ends.before n from_one below)
  final again := ends.final ((contended_recorded ends.positive).1 again)

theorem concluded_withCalls (calls : List Nat) (r : EStateM.Result ε σ Bool) :
    concluded giveUp n (withCalls calls r) = withCalls calls (concluded giveUp n r) := by
  unfold withCalls
  split
  · next answer t => cases answer <;> rfl
  · rfl

end Series

theorem LockError.message_gaveUp (what : String) (n : Nat) :
    (gaveUp what n).message = s!"Locking failed: {what} (gave up after {n} attempts)" := by
  show "Locking failed: " ++ (what ++ " (gave up after " ++ toString n ++ " attempts)") =
    "Locking failed: " ++ what ++ " (gave up after " ++ toString n ++ " attempts)"
  simp only [String.append_assoc]

/-- A series of attempts ends with the first that does not meet contention, if that is among those
the policy allows, and as that one ends; otherwise it ends with the last that is allowed, and gives
up. The attempts up to that one are made, each of them once and in order, each in the state that
those before it have left, and no other attempt is made. A policy that allows none allows one. -/
theorem retry_exact (policy : RetryPolicy) (what : String) (refuse : LockError → ε)
    (attempt : Nat → EStateM ε σ Bool) (wait : Nat → σ → σ) (s : σ) :
    let last := max 1 policy.maxAttempts
    let giveUp := refuse (.gaveUp what last)
    ∃ k, EndsAt attempt wait s last k ∧
      retry policy what refuse attempt (fun n => modify (wait n)) s =
        concluded giveUp k (madeAt attempt wait s k) ∧
      retry policy what refuse (recorded attempt) (fun n => modify (besides wait n)) (s, []) =
        withCalls (List.range' 1 k) (concluded giveUp k (madeAt attempt wait s k)) ∧
      (LockError.gaveUp what last).message =
        s!"Locking failed: {what} (gave up after {last} attempts)" := by
  intro last giveUp
  have series {τ : Type} (attempt : Nat → EStateM ε τ Bool) (wait : Nat → τ → τ) (s : τ) :
      ∃ k, EndsAt attempt wait s last k ∧
        retry policy what refuse attempt (fun n => modify (wait n)) s =
          concluded giveUp k (madeAt attempt wait s k) := by
    have ends : ∃ k, EndsAt attempt wait s (policy.attempts - 1 + 1) k ∧ _ :=
      retryFrom_endsAt giveUp (policy.attempts - 1)
    rw [← policy.attempts_eq_succ] at ends
    exact ends
  obtain ⟨k, ends, run⟩ := series attempt wait s
  obtain ⟨j, ends', run'⟩ := series (recorded attempt) (besides wait) (s, [])
  obtain rfl := ends'.unique ends.recorded
  refine ⟨j, ends, run, ?_, ?_⟩
  · rw [run', madeAt_recorded ends.positive, concluded_withCalls]
  · exact LockError.message_gaveUp what last

/-- A door that opens at the third push. -/
example :
    retry (.new 5 150) "door" id (recorded fun _ pushes => .ok (pushes = 2) (pushes + 1))
      (fun _ => pure ()) (0, []) = .ok 3 (3, [1, 2, 3]) := rfl

end SceneLock
