import SceneLock.Info

/-!
The lock table: the record of every object that somebody holds. An acquisition over several
objects is granted as a whole or not at all, and nobody ever waits.
-/

namespace SceneLock

open Std

structure Table where
  records : ExtTreeMap Id Record := ∅

/-- The answer to an acquisition. -/
inductive Verdict
  | granted
  | conflict (id : Id)
  deriving DecidableEq, Repr

namespace Table

def empty : Table := {}

def size (t : Table) : Nat := t.records.size

def isEmpty (t : Table) : Bool := t.records.isEmpty

/-- The count of a hold on an object, if the owner has it there. -/
def tally? (t : Table) (id : Id) (owner : Owner) (hold : Hold) : Option UInt32 :=
  (t.records[id]?).bind (·.tally? owner hold)

/-- How often the owner has the hold on the object. -/
def count (t : Table) (id : Id) (owner : Owner) (hold : Hold) : Nat :=
  Holds.amount (t.tally? id owner hold)

def admits (t : Table) (id : Id) (owner : Owner) (mode : Mode) : Bool :=
  match t.records[id]? with
  | some record => record.admits owner mode
  | none => true

/-- The first object, in order of the names, that stands in the way. -/
def conflict? (t : Table) (claims : Claims) (owner : Owner) (mode : Mode) : Option Id :=
  claims.keys.find? fun id => !t.admits id owner mode

/-- The record of an object after a grant. It is checked before it is put in place. -/
def stage (t : Table) (owner : Owner) (mode : Mode) (now : Instant) (id : Id)
    (claims : ExtTreeSet Claim) : Except LockError (Id × Record) :=
  let record := (t.records.getD id { since := now }).grant owner mode claims
  match record.fault? with
  | none => .ok (id, record)
  | some fault => .error (.brokenRecord id fault)

/-- Takes the claims for an owner in one step. On a conflict, as on an error, nothing is taken. -/
def tryAcquire (claims : Claims) (owner : Owner) (mode : Mode) (now : Instant) :
    EStateM LockError Table Verdict := fun t =>
  match t.conflict? claims owner mode with
  | some id => .ok (.conflict id) t
  | none =>
    match claims.toList.mapM fun (id, claims) => t.stage owner mode now id claims with
    | .error e => .error e t
    | .ok staged => .ok .granted { t with records := t.records.insertMany staged }

/-- Takes back one count of a hold wherever `on` says, and drops the records left empty.
The number tells how many counts there were to take back. -/
def revoke (t : Table) (owner : Owner) (hold : Hold) (on : Id → Bool) : Nat × Table :=
  let found := t.records.filter fun id record => on id && (record.tally? owner hold).isSome
  (found.size, { t with
    records := t.records.filterMap fun id record =>
      if on id then
        let left := record.revoke owner hold
        if left.isEmpty then none else some left
      else some record })

/-- Gives back one hold on an object or, with `tree`, on everything that was claimed through it. -/
def releaseOne (t : Table) (owner : Owner) (mode : Mode) (tree : Bool) (id : Id) : Nat × Table :=
  if tree then t.revoke owner ⟨mode, .tree id⟩ fun _ => true
  else t.revoke owner ⟨mode, .direct⟩ (· = id)

/-- Gives back one hold for each distinct id. What the owner does not hold is left alone. -/
def release (t : Table) (ids : List Id) (owner : Owner) (mode : Mode) (tree : Bool) : Nat × Table :=
  (distinct ids).foldl (fun (revoked, t) id =>
    let (n, t) := t.releaseOne owner mode tree id
    (revoked + n, t)) (0, t)

/-- Drops all that an owner holds. The number tells how many objects it held. -/
def releaseOwner (t : Table) (owner : Owner) : Nat × Table :=
  let held := t.records.filter fun _ record => record.holders.contains owner
  (held.size, { t with
    records := t.records.filterMap fun _ record =>
      let left := record.evict owner
      if left.isEmpty then none else some left })

/-- Whether the object is locked in this mode and the owner has a part in it. -/
def isLocked (t : Table) (id : Id) (owner : Owner) (mode : Mode) (tree : Bool) : Bool :=
  match t.records[id]? with
  | some record => record.mode = mode && record.covers id owner mode tree
  | none => false

/-- Whether another owner keeps the object write locked. -/
def isForeign (t : Table) (owner : Owner) (id : Id) : Bool :=
  match t.records[id]? with
  | some record => record.mode = .write && !record.holders.contains owner
  | none => false

/-- Those of the objects that no other owner keeps write locked, sorted, each once. -/
def unlocked (t : Table) (ids : List Id) (owner : Owner) : List Id :=
  distinct (ids.filter fun id => !t.isForeign owner id)

/-- All locks, in order of the objects' names. -/
def locks (t : Table) : List LockInfo :=
  t.records.toList.map fun (id, record) => record.info id

def staleLocks (t : Table) (now : Instant) (limit : Nat) : List LockInfo :=
  t.locks.filter (·.isStale now limit)

end Table

end SceneLock
