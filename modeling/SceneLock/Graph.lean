import SceneLock.Hold

/-!
Object graphs, seen through two questions: does an object exist, and what hangs directly below it.
Nothing else is promised. Objects may have several parents, cycles occur, and a child need not
exist.
-/

namespace SceneLock

/-- A finite graph names every object that has children. -/
class ObjectGraph (G : Type) where
  contains : G → Id → Bool
  childrenOf : G → Id → List Id
  branching : G → List Id
  mem_branching {g : G} {id : Id} : childrenOf g id ≠ [] → id ∈ branching g

namespace ObjectGraph

variable {G : Type} [ObjectGraph G]

theorem countP_fresh_lt {xs visited : List Id} {id : Id} (h : id ∈ xs) (fresh : id ∉ visited) :
    xs.countP (· ∉ id :: visited) < xs.countP (· ∉ visited) := by
  induction xs with
  | nil => cases h
  | cons x xs ih =>
    have le : xs.countP (· ∉ id :: visited) ≤ xs.countP (· ∉ visited) :=
      List.countP_mono_left fun y _ => by simp +contextual
    rw [List.countP_cons, List.countP_cons]
    by_cases e : id = x
    · rw [if_neg (by simp [e]), if_pos (by simp [← e, fresh])]
      omega
    · have := ih (by simpa [e] using h)
      have same : decide (x ∉ id :: visited) = decide (x ∉ visited) := by
        have : x ≠ id := fun c => e c.symm
        simp [this]
      rw [same]
      omega

theorem countP_fresh_eq {xs visited : List Id} {id : Id} (h : id ∉ xs) :
    xs.countP (· ∉ id :: visited) = xs.countP (· ∉ visited) :=
  List.countP_congr fun y hy => by
    have : y ≠ id := fun c => h (c ▸ hy)
    simp [this]

/-- Visits the objects on the stack, top first, each followed by all that hangs below it.
An object is visited once, so the walk ends in a cyclic graph too. -/
def walk (g : G) (visited stack : List Id) : List Id :=
  match stack with
  | [] => visited.reverse
  | id :: rest =>
    if id ∈ visited then walk g visited rest
    else walk g (id :: visited) (childrenOf g id ++ rest)
termination_by ((branching g).countP (· ∉ visited), stack.length)
decreasing_by
  · exact .right _ (by simp)
  · rename_i fresh
    by_cases h : id ∈ branching g
    · exact .left _ _ (countP_fresh_lt h fresh)
    · have leaf : childrenOf g id = [] := Classical.byContradiction fun c => h (mem_branching c)
      rw [countP_fresh_eq h, leaf]
      exact .right _ (by simp)

/-- An object and all that is below it, depth first, in the order of the children.
Below an unknown object there is nothing, and it is not listed either. -/
def subtree (g : G) (root : Id) : List Id :=
  if contains g root then walk g [] [root] else []

end ObjectGraph

/-- A graph given by its child lists. The listed objects are those that exist. -/
structure Adjacency where
  children : Std.ExtTreeMap Id (List Id)

namespace Adjacency

def childrenOf (g : Adjacency) (id : Id) : List Id := g.children.getD id []

theorem mem_keys_of_childrenOf {g : Adjacency} {id : Id} (h : g.childrenOf id ≠ []) :
    id ∈ g.children.keys := by
  rw [Std.ExtTreeMap.mem_keys]
  exact Classical.byContradiction fun c => h (Std.ExtTreeMap.getD_eq_fallback c)

instance : ObjectGraph Adjacency where
  contains g id := g.children.contains id
  childrenOf := childrenOf
  branching g := g.children.keys
  mem_branching := mem_keys_of_childrenOf

end Adjacency

end SceneLock
