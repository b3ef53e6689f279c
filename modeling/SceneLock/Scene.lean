import SceneLock.Graph
import SceneLock.Name

/-!
Scenes: forests of named objects that are edited one object at a time. A scene keeps the children
of every object, the parent of every object that has one, and the roots, each in order of arrival.
-/

namespace SceneLock

open Std

structure Scene where
  children : ExtTreeMap Id (List Id) := ∅
  parents : ExtTreeMap Id Id := ∅
  roots : List Id := []

namespace Scene

def empty : Scene := {}

def contains (s : Scene) (id : Id) : Bool := s.children.contains id

def childrenOf (s : Scene) (id : Id) : List Id := s.children.getD id []

def parentOf (s : Scene) (id : Id) : Option Id := s.parents[id]?

/-- All objects, in order of their names. -/
def ids (s : Scene) : List Id := s.children.keys

def size (s : Scene) : Nat := s.children.size

theorem mem_ids_of_childrenOf {s : Scene} {id : Id} (h : s.childrenOf id ≠ []) : id ∈ s.ids := by
  rw [ids, ExtTreeMap.mem_keys]
  exact Classical.byContradiction fun c => h (ExtTreeMap.getD_eq_fallback c)

instance : ObjectGraph Scene where
  contains := contains
  childrenOf := childrenOf
  branching := ids
  mem_branching := mem_ids_of_childrenOf

/-- Adds an object as the last child of its parent, or as the last root. -/
def add (s : Scene) (id : Id) (parent : Option Id) : Except LockError Scene := do
  Name.ensureUnique s.contains id
  match parent with
  | none =>
    return { s with children := s.children.insert id [], roots := s.roots ++ [id] }
  | some parent =>
    match s.children[parent]? with
    | none => throw (.notFound parent)
    | some siblings =>
      return { s with
        children := (s.children.insert parent (siblings ++ [id])).insert id []
        parents := s.parents.insert id parent }

/-- Adds an object under the first free name derived from the given one. -/
def addUnique (s : Scene) (name : String) (parent : Option Id) : Except LockError (Id × Scene) := do
  let id := Name.makeUnique (ExtTreeSet.ofList s.ids) name
  let s ← s.add id parent
  return (id, s)

/-- Takes an object off the list it stands in: its parent's children, or the roots. -/
def detach (s : Scene) (id : Id) : Scene :=
  match s.parents[id]? with
  | some parent =>
    { s with
      children := s.children.modify parent (·.filter (· ≠ id))
      parents := s.parents.erase id }
  | none => { s with roots := s.roots.filter (· ≠ id) }

/-- Erases the objects on the stack and all below them, and lists them as they go.
The youngest child of an object goes first. -/
def discard (s : Scene) (stack gone : List Id) : List Id × Scene :=
  match stack with
  | [] => (gone.reverse, s)
  | id :: rest =>
    if _h : id ∈ s.children then
      discard { s with children := s.children.erase id, parents := s.parents.erase id }
        ((s.childrenOf id).reverse ++ rest) (id :: gone)
    else
      discard { s with parents := s.parents.erase id } rest (id :: gone)
termination_by (s.children.size, stack.length)
decreasing_by
  · refine .left _ _ ?_
    have : s.children.size ≠ 0 := fun c => by
      simp [ExtTreeMap.eq_empty_iff_size_eq_zero.2 c] at _h
    show (s.children.erase id).size < s.children.size
    rw [ExtTreeMap.size_erase, if_pos (ExtTreeMap.contains_iff_mem.2 _h)]
    omega
  · exact .right _ (by simp)

/-- Removes an object with everything below it, and lists what was removed. -/
def remove (s : Scene) (id : Id) : Except LockError (List Id × Scene) :=
  if s.contains id then .ok ((s.detach id).discard [id] []) else .error (.notFound id)

/-- One object of a scene, as it stands in a graph file. -/
structure Entry where
  id : Id
  parent : Option Id
  deriving DecidableEq, Repr

/-- The objects in an order in which they can be added again: parents before their children,
and siblings and roots as they stand in the scene. In a forest no object is met twice, so that the
walk need not have looked for it. -/
def entries (s : Scene) : List Entry :=
  (ObjectGraph.walk s [] s.roots).map fun id => ⟨id, s.parentOf id⟩

def ofEntries (entries : List Entry) : Except LockError Scene :=
  entries.foldlM (fun s e => s.add e.id e.parent) empty

end Scene

end SceneLock
