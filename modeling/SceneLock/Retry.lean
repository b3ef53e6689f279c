import SceneLock.Error

/-!
Trying again: an attempt that meets contention is repeated a bounded number of times.
-/

namespace SceneLock

structure RetryPolicy where
  maxAttempts : Nat
  /-- The pause between two attempts, in milliseconds. -/
  delay : Nat
  deriving DecidableEq, Repr

namespace RetryPolicy

/-- A policy that allows at least one attempt. -/
def new (maxAttempts delay : Nat) : RetryPolicy := ⟨max 1 maxAttempts, delay⟩

def once : RetryPolicy := new 1 0

instance : Inhabited RetryPolicy := ⟨new 13 150⟩

/-- There is always a first attempt, whatever the policy says. -/
def attempts (p : RetryPolicy) : Nat := max 1 p.maxAttempts

end RetryPolicy

section

variable {ε σ : Type}

/-- Runs attempt `n` and, while it meets contention, up to `left` more in all. -/
def retryFrom (giveUp : ε) (attempt : Nat → EStateM ε σ Bool) (pause : Nat → EStateM ε σ Unit) :
    (left n : Nat) → EStateM ε σ Nat
  | 0, _ => throw giveUp
  | left + 1, n => do
    if ← attempt n then return n
    if left ≠ 0 then pause n
    retryFrom giveUp attempt pause left (n + 1)

/-- Repeats an attempt until it succeeds, fails for good, or the policy is exhausted, and returns
the number of the successful attempt. Between two attempts it pauses. -/
def retry (policy : RetryPolicy) (what : String) (refuse : LockError → ε)
    (attempt : Nat → EStateM ε σ Bool) (pause : Nat → EStateM ε σ Unit) : EStateM ε σ Nat :=
  retryFrom (refuse (.gaveUp what policy.attempts)) attempt pause policy.attempts 1

end

end SceneLock
