import SceneLock.Error
import SceneLock.Retry
import SceneLock.Text
import SceneLock.Yaml.Printer

/-!
The settings of a coordinator, and their file.
-/

namespace SceneLock

structure Config where
  /-- Attempts per acquisition, the first one included. -/
  maxAttempts : UInt32 := 13
  /-- Milliseconds between two attempts. -/
  retryDelay : UInt64 := 150
  /-- Minutes after which a lock is reported as stale. -/
  staleMinutes : UInt32 := 120
  deriving DecidableEq, Repr

namespace Config

open Yaml

def attemptsKey : String := "lock_max_attempts"

def delayKey : String := "lock_retry_delay_ms"

def staleKey : String := "lock_stale_minutes"

/-- Both counts have to be positive. -/
def validate (c : Config) : Except LockError Unit :=
  if c.maxAttempts = 0 then .error (.settingZero attemptsKey)
  else if c.staleMinutes = 0 then .error (.settingZero staleKey)
  else .ok ()

/-- A setting that is not given keeps its default, and unknown settings are passed over. -/
def decode (n : Node) : Decode Config := do
  let fields ← Decode.fields n
  let c : Config := {}
  let attempts ←
    Decode.optional attemptsKey fields c.maxAttempts.toNat (Decode.natBelow UInt32.size)
  let delay ← Decode.optional delayKey fields c.retryDelay.toNat (Decode.natBelow UInt64.size)
  let stale ← Decode.optional staleKey fields c.staleMinutes.toNat (Decode.natBelow UInt32.size)
  return ⟨.ofNat attempts, .ofNat delay, .ofNat stale⟩

/-- An empty text gives the defaults. -/
def ofYaml (text : String) : Except LockError Config :=
  if isBlankText text then .ok {}
  else
    match Decode.ofText? decode text with
    | none => .error (.unparsable .config)
    | some c =>
      match c.validate with
      | .ok () => .ok c
      | .error e => .error e

def toYaml (c : Config) : String :=
  .ofList (numberField attemptsKey c.maxAttempts.toNat ++ numberField delayKey c.retryDelay.toNat
    ++ numberField staleKey c.staleMinutes.toNat)

def retryPolicy (c : Config) : RetryPolicy := .new c.maxAttempts.toNat c.retryDelay.toNat

end Config

end SceneLock
