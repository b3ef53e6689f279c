import SceneLock.Error

/-!
The record of one locked object: who holds it, and how often in which way.
A hold that was taken twice has to be given back twice.
-/

namespace SceneLock

open Std

/-- A moment, in seconds of the Unix clock. -/
abbrev Instant := Int

/-- How often an owner has each of its holds. The counts are words of 32 bits. -/
abbrev Holds := ExtTreeMap Hold UInt32

namespace Holds

/-- Adds one to the count of each claim in the given mode. -/
def grant (holds : Holds) (mode : Mode) (claims : ExtTreeSet Claim) : Holds :=
  claims.toList.foldl (fun holds claim => holds.alter ⟨mode, claim⟩ fun n => some (n.getD 0 + 1))
    holds

/-- A count without one of it, if any is left. -/
def oneLess (n : UInt32) : Option UInt32 := if n - 1 = 0 then none else some (n - 1)

/-- Takes one from the count of a hold, and drops the hold when none is left. -/
def revoke (holds : Holds) (hold : Hold) : Holds := holds.alter hold (·.bind oneLess)

/-- What a count comes to. A hold that is missing is held zero times. -/
def amount (n : Option UInt32) : Nat := n.elim 0 UInt32.toNat

/-- An owner that is listed must have a hold, and no hold may be counted zero times. -/
def fault? (holds : Holds) (owner : Owner) : Option RecordFault :=
  if holds.isEmpty then some (.noClaims owner)
  else if holds.toList.any (·.2 = 0) then some (.zeroCount owner)
  else none

end Holds

structure Record where
  holders : ExtTreeMap Owner Holds := ∅
  /-- When the object was first locked. -/
  since : Instant

namespace Record

/-- An object is write locked as long as one write hold is left. -/
def mode (r : Record) : Mode :=
  if r.holders.toList.any (·.2.keys.any (·.mode = .write)) then .write else .read

def soleHolder? (r : Record) : Option Owner :=
  match r.holders.keys with
  | [owner] => some owner
  | _ => none

/-- Readers share with readers. A writer must be the only holder already. -/
def admits (r : Record) (owner : Owner) : Mode → Bool
  | .read => r.mode = .read
  | .write => r.soleHolder? = some owner

/-- The count of a hold, if the owner has it. -/
def tally? (r : Record) (owner : Owner) (hold : Hold) : Option UInt32 :=
  (r.holders[owner]?).bind (·[hold]?)

/-- How often the owner has the hold. -/
def count (r : Record) (owner : Owner) (hold : Hold) : Nat := Holds.amount (r.tally? owner hold)

def grant (r : Record) (owner : Owner) (mode : Mode) (claims : ExtTreeSet Claim) : Record :=
  { r with
    holders := r.holders.alter owner fun holds => some (Holds.grant (holds.getD ∅) mode claims) }

/-- Whoever is left without a hold is no holder any more. -/
def revoke (r : Record) (owner : Owner) (hold : Hold) : Record :=
  { r with
    holders := r.holders.alter owner fun holds => holds.bind fun holds =>
      let left := Holds.revoke holds hold
      if left.isEmpty then none else some left }

def evict (r : Record) (owner : Owner) : Record :=
  { r with holders := r.holders.erase owner }

def isEmpty (r : Record) : Bool := r.holders.isEmpty

/-- Whether the owner holds the object `id` of this record in the given mode: directly, as the
root of a locked subtree, or, with `tree`, anywhere inside a locked subtree. -/
def covers (r : Record) (id : Id) (owner : Owner) (mode : Mode) (tree : Bool) : Bool :=
  match r.holders[owner]? with
  | none => false
  | some holds => holds.keys.any fun hold =>
    hold.mode = mode && match hold.claim with
      | .direct => true
      | .tree root => tree || root = id

/-- The first thing wrong with a record. It should have a holder, its holders should be in order,
and a writer should be alone. -/
def fault? (r : Record) : Option RecordFault :=
  if r.holders.isEmpty then some .noHolders
  else match r.holders.toList.findSome? fun (owner, holds) => holds.fault? owner with
    | some fault => some fault
    | none =>
      if r.mode = .write && r.holders.size ≠ 1 then some (.sharedWrite r.holders.keys) else none

end Record

end SceneLock
