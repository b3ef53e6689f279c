import SceneLock.Scene

/-!
The outline of a subtree: one line for each object, indented by its depth below the root.
-/

namespace SceneLock.Scene

open Std

/-- How a way up ends: at the root that is looked for, or at an object without a parent. -/
inductive Exit
  | found
  | lost
  deriving DecidableEq, Repr

/-- Goes up from an object, from parent to parent, until it comes to the root or there is no parent,
and counts the steps. Each link is followed once only, so that this ends however the links run. -/
def climb (parents : ExtTreeMap Id Id) (root id : Id) : Nat × Exit :=
  if id = root then (0, .found)
  else if _h : id ∈ parents then
    let (steps, exit) := climb (parents.erase id) root parents[id]
    (steps + 1, exit)
  else (0, .lost)
termination_by parents.size
decreasing_by
  have : parents.size ≠ 0 := fun c => by
    simp [ExtTreeMap.eq_empty_iff_size_eq_zero.2 c] at _h
  rw [ExtTreeMap.size_erase, if_pos (ExtTreeMap.contains_iff_mem.2 _h)]
  omega

/-- The number of steps from an object up to the root, from parent to parent. -/
def depthBelow (s : Scene) (root id : Id) : Nat := (climb s.parents root id).1

/-- The objects of a subtree with their depths, each object before those below it. -/
def outline (s : Scene) (root : Id) : List (Nat × Id) :=
  (ObjectGraph.subtree s root).map fun id => (s.depthBelow root id, id)

def outlineLine (depth : Nat) (id : Id) : String :=
  String.ofList (List.replicate (2 * depth) ' ') ++ id ++ "\n"

def outlineText (s : Scene) (root : Id) : Except LockError String :=
  match s.outline root with
  | [] => .error (.notFound root)
  | lines => .ok (String.join (lines.map fun (depth, id) => outlineLine depth id))

end SceneLock.Scene
