import SceneLock.Record

/-!
What is told of a locked object: its mode, its holders with their claims, and its age.
-/

namespace SceneLock

open Std

structure Holder where
  owner : Owner
  claims : List Claim
  deriving DecidableEq, Repr

structure LockInfo where
  id : Id
  mode : Mode
  holders : List Holder
  since : Instant
  deriving DecidableEq, Repr

/-- Each claim of an owner is told once, in whatever modes it is held. -/
def Record.info (r : Record) (id : Id) : LockInfo where
  id := id
  mode := r.mode
  holders := r.holders.toList.map fun (owner, holds) =>
    ⟨owner, (ExtTreeSet.ofList (holds.keys.map Hold.claim)).toList⟩
  since := r.since

namespace LockInfo

/-- Whole minutes since the object was locked, counted toward zero. -/
def minutes (l : LockInfo) (now : Instant) : Int := (now - l.since).tdiv 60

/-- The age in its two largest units: days and hours, hours and minutes, or minutes alone. -/
def age (l : LockInfo) (now : Instant) : String :=
  let minutes := l.minutes now
  let hours := minutes.tdiv 60
  let days := hours.tdiv 24
  if days > 0 then s!"{days}d {hours.tmod 24}h"
  else if hours > 0 then s!"{hours}h {minutes.tmod 60}m"
  else s!"{minutes}m"

def isStale (l : LockInfo) (now : Instant) (limit : Nat) : Bool := l.minutes now > limit

def owners (l : LockInfo) : List Owner := distinct (l.holders.map Holder.owner)

def Holder.text (h : Holder) : String :=
  let claims := ",".intercalate (h.claims.map Claim.text)
  s!"{h.owner}[{claims}]"

def text (l : LockInfo) (now : Instant) : String :=
  let holders := " ".intercalate (l.holders.map Holder.text)
  s!"{l.id} ({l.mode.text}, holders: {holders}, age: {l.age now})"

end LockInfo

end SceneLock
