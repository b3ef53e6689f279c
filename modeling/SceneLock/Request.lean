import SceneLock.Graph
import SceneLock.Error

/-!
Lock requests: which objects to lock, for whom, and when to let go of them.
-/

namespace SceneLock

open Std

/-- With `tree`, every object named stands for itself and all below it. -/
structure Target where
  ids : List Id
  tree : Bool
  deriving DecidableEq, Repr

structure Request where
  owner : Owner
  target : Target
  /-- Let go when the work under the lock succeeds. -/
  autoUnlock : Bool := true
  /-- Only try whether locking is possible, and let go in any case. -/
  dryRun : Bool := false
  /-- Hold on when the work under the lock fails. -/
  keepOnError : Bool := false
  deriving DecidableEq, Repr

namespace Request

def releasesAfter (r : Request) (succeeded : Bool) : Bool :=
  r.dryRun || if succeeded then r.autoUnlock else !r.keepOnError

def describe (r : Request) : String :=
  let shape := if r.target.tree then "tree" else "objects"
  let ids := ", ".intercalate r.target.ids
  s!"{shape} [{ids}] for '{r.owner}'"

end Request

namespace Claims

def lay (claims : Claims) (id : Id) (claim : Claim) : Claims :=
  claims.alter id fun laid => some ((laid.getD ∅).insert claim)

variable {G : Type} [ObjectGraph G]

/-- The claims that one named object adds. -/
def addNamed (g : G) (tree : Bool) (claims : Claims) (id : Id) : Except LockError Claims :=
  if tree then
    match ObjectGraph.subtree g id with
    | [] => .error (.notFound id)
    | covered => .ok (covered.foldl (fun claims c => claims.lay c (.tree id)) claims)
  else if ObjectGraph.contains g id then .ok (claims.lay id .direct)
  else .error (.notFound id)

/-- What a target comes to in the graph as it is. The first unknown object is reported. -/
def ofTarget (g : G) (target : Target) : Except LockError Claims :=
  if target.ids.isEmpty then .error .emptyRequest
  else target.ids.foldlM (addNamed g target.tree) ∅

end Claims

end SceneLock
