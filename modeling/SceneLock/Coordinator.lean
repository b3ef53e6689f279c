import SceneLock.Request
import SceneLock.Retry
import SceneLock.Table

/-!
The coordinator answers lock requests over one object graph. It owns the lock table, reads the
graph, and notes in a log what it does.
-/

namespace SceneLock

open Std

inductive LogLevel
  | trace
  | debug
  | info
  | warn
  deriving DecidableEq, Repr

namespace LogLevel

def text : LogLevel → String
  | trace => "TRACE"
  | debug => "DEBUG"
  | info => "INFO"
  | warn => "WARN"

/-- How verbose one has to be to see entries of a level. -/
def verbosity : LogLevel → Nat
  | warn => 0
  | debug | info => 1
  | trace => 2

end LogLevel

inductive LogEntry
  | conflict (id : Id)
  | retrying (attempt : Nat)
  | failed (error : LockError)
  | acquired (attempts : Nat)
  | kept
  /-- The number of holds given back is noted when the release was asked for, not for a guard. -/
  | released (revoked : Option Nat)
  | alreadyReleased
  | releasedOwner (evicted : Nat)
  deriving DecidableEq, Repr

namespace LogEntry

def level : LogEntry → LogLevel
  | conflict _ | retrying _ => .trace
  | acquired _ | kept | released _ => .debug
  | releasedOwner _ => .info
  | failed _ | alreadyReleased => .warn

def message : LogEntry → String
  | conflict _ => "lock conflict"
  | retrying _ => "contended, retrying"
  | failed e => e.message
  | acquired _ => "lock acquired"
  | kept => "lock kept"
  | released _ => "lock released"
  | alreadyReleased => "lock was already released"
  | releasedOwner _ => "released all locks of owner"

end LogEntry

structure Coordinator (G : Type) where
  graph : G
  table : Table := {}
  policy : RetryPolicy := default
  /-- The time at which locks are taken and looked at. -/
  now : Instant := 0
  /-- What happened, the latest entry first. -/
  log : List LogEntry := []

/-- An operation that may be refused. The coordinator it leaves behind counts in either case. -/
abbrev Action (G α : Type) := EStateM LockError (Coordinator G) α

/-- A lock that was acquired and will be given back. -/
structure Guard where
  target : Target
  owner : Owner
  mode : Mode
  deriving DecidableEq, Repr

namespace Coordinator

variable {G : Type}

def note (c : Coordinator G) (entry : LogEntry) : Coordinator G := { c with log := entry :: c.log }

/-- Takes claims straight from the table. -/
def takeClaims (claims : Claims) (owner : Owner) (mode : Mode) : Action G Bool := fun c =>
  match c.table.tryAcquire claims owner mode c.now with
  | .ok .granted table => .ok true { c with table }
  | .ok (.conflict id) table => .ok false ({ c with table }.note (.conflict id))
  | .error e table => .error e { c with table }

section

variable [ObjectGraph G]

/-- One attempt, without waiting. What it takes stays locked until it is released. -/
def tryAcquire (mode : Mode) (request : Request) : Action G Bool := fun c =>
  match Claims.ofTarget c.graph request.target with
  | .error e => .error e c
  | .ok claims => takeClaims claims request.owner mode c

/-- Attempts as often as the policy allows, while `meanwhile n` is what others do to the
coordinator between the attempts `n` and `n + 1`. -/
def attemptsAmid (meanwhile : Nat → Coordinator G → Coordinator G) (mode : Mode)
    (request : Request) : Action G Nat := fun c =>
  let what := s!"cannot {mode.text} lock {request.describe}"
  let pause n : Action G Unit := modify fun c => meanwhile n (c.note (.retrying n))
  retry c.policy what id (fun _ => tryAcquire mode request) pause c

def acquireAmid (meanwhile : Nat → Coordinator G → Coordinator G) (mode : Mode)
    (request : Request) : Action G Guard := fun c =>
  match attemptsAmid meanwhile mode request c with
  | .ok attempts c => .ok ⟨request.target, request.owner, mode⟩ (c.note (.acquired attempts))
  | .error e c => .error e (if e.isContention then c.note (.failed e) else c)

def acquire (mode : Mode) (request : Request) : Action G Guard :=
  acquireAmid (fun _ c => c) mode request

end

/-- Gives back one acquisition of the request. What is not held is left alone. -/
def release (c : Coordinator G) (mode : Mode) (request : Request) : Coordinator G :=
  let (revoked, table) := c.table.release request.target.ids request.owner mode request.target.tree
  { c with table }.note (.released (some revoked))

/-- Drops all locks of an owner, and tells how many objects that were. -/
def releaseOwner (c : Coordinator G) (owner : Owner) : Nat × Coordinator G :=
  let (evicted, table) := c.table.releaseOwner owner
  let c := { c with table }
  (evicted, if evicted = 0 then c else c.note (.releasedOwner evicted))

def isLocked (c : Coordinator G) (mode : Mode) (id : Id) (owner : Owner) (tree : Bool) : Bool :=
  c.table.isLocked id owner mode tree

def assertLocked (c : Coordinator G) (mode : Mode) (id : Id) (owner : Owner) (tree : Bool) :
    Except LockError Unit :=
  if c.isLocked mode id owner tree then .ok () else .error (.notLocked mode id owner)

def notWriteLocked (c : Coordinator G) (ids : List Id) (owner : Owner) : List Id :=
  c.table.unlocked ids owner

def locks (c : Coordinator G) : List LockInfo := c.table.locks

def staleLocks (c : Coordinator G) (limit : Nat) : List LockInfo := c.table.staleLocks c.now limit

end Coordinator

namespace Guard

variable {G : Type}

/-- Gives the lock back. If all of it is gone already, that is worth a warning. -/
def release (g : Guard) (c : Coordinator G) : Coordinator G :=
  let (revoked, table) := c.table.release g.target.ids g.owner g.mode g.target.tree
  { c with table }.note (if revoked = 0 then .alreadyReleased else .released none)

/-- Leaves the lock in place for a later release. -/
def keep (_ : Guard) (c : Coordinator G) : Coordinator G := c.note .kept

/-- Ends the guard in the one way or the other. -/
def settle (g : Guard) (releases : Bool) (c : Coordinator G) : Coordinator G :=
  if releases then g.release c else g.keep c

end Guard

end SceneLock
