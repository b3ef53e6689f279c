import Mathlib.Data.List.Nodup
import Mathlib.Logic.Function.Iterate
import SceneLock.Proofs.Subtrees

/-!
The order of a subtree. The walk keeps a stack of objects, on which children lie before it is known
whether they will have been visited by the time they come up. It lists the same objects in the same
order as the recursion that visits the children of an object right after the object itself.
-/

namespace SceneLock.ObjectGraph

variable {G : Type} [ObjectGraph G]

section Recursion

/-- What has been seen is what has been listed, so a listing that goes on keeps all of it. -/
abbrev Listing (seen : List Id) : Type := { listed : List Id // seen ⊆ listed }

theorem countP_listed_le (xs : List Id) {seen listed : List Id} (kept : seen ⊆ listed) :
    xs.countP (· ∉ listed) ≤ xs.countP (· ∉ seen) :=
  List.countP_mono_left fun x _ => by simpa using mt (@kept x)

theorem countP_append_fresh (xs seen : List Id) (id : Id) :
    xs.countP (· ∉ seen ++ [id]) = xs.countP (· ∉ id :: seen) :=
  List.countP_congr fun x _ => by simp [and_comm]

mutual

/-- Does nothing for an object that was seen before. Any other object is listed, and then its
children are visited in order. -/
def visit (g : G) (seen : List Id) (id : Id) : Listing seen :=
  if _h : id ∈ seen then ⟨seen, List.Subset.refl seen⟩
  else
    let listed := visitAll g (seen ++ [id]) (childrenOf g id)
    ⟨listed.1, List.Subset.trans (List.subset_append_left seen [id]) listed.2⟩
termination_by ((branching g).countP (· ∉ seen), 1)
decreasing_by
  rw [countP_append_fresh]
  by_cases among : id ∈ branching g
  · exact .left _ _ (countP_fresh_lt among _h)
  · have leaf : childrenOf g id = [] := Classical.byContradiction fun c => among (mem_branching c)
    rw [countP_fresh_eq among, leaf]
    exact .right _ (by simp)

/-- Visits one object after the other, each with what has been seen by then. -/
def visitAll (g : G) (seen ids : List Id) : Listing seen :=
  match ids with
  | [] => ⟨seen, List.Subset.refl seen⟩
  | id :: rest =>
    let first := visit g seen id
    let listed := visitAll g first.1 rest
    ⟨listed.1, List.Subset.trans first.2 listed.2⟩
termination_by ((branching g).countP (· ∉ seen), 2 * ids.length)
decreasing_by
  · exact .right _ (by simp; omega)
  · obtain less | same := Nat.lt_or_eq_of_le (countP_listed_le (branching g) first.2)
    · exact .left _ _ less
    · rw [same]
      exact .right _ (by simp)

end

theorem visit_of_mem {g : G} {seen : List Id} {id : Id} (old : id ∈ seen) :
    (visit g seen id).1 = seen := by
  rw [visit, dif_pos old]

theorem visit_of_not_mem {g : G} {seen : List Id} {id : Id} (fresh : id ∉ seen) :
    (visit g seen id).1 = (visitAll g (seen ++ [id]) (childrenOf g id)).1 := by
  rw [visit, dif_neg fresh]

/-- Whatever lies on the stack below some objects, the walk has visited these, with all that they
lead to, when it comes to what lies below. -/
theorem walk_append (g : G) :
    (∀ seen id, ∀ below, walk g seen.reverse (id :: below) =
      walk g (visit g seen id).1.reverse below) ∧
    ∀ seen ids, ∀ below, walk g seen.reverse (ids ++ below) =
      walk g (visitAll g seen ids).1.reverse below := by
  apply visit.mutual_induct g
  · intro seen id old below
    rw [visit_of_mem old, walk, if_pos (List.mem_reverse.2 old)]
  · intro seen id fresh ih below
    have next := ih below
    rw [List.reverse_append] at next
    rw [visit_of_not_mem fresh, walk, if_neg (mt List.mem_reverse.1 fresh)]
    exact next
  · intro seen below
    rw [visitAll]
    rfl
  · intro seen id rest first ihFirst _ ihRest below
    rw [visitAll, List.cons_append, ihFirst, ihRest]

theorem walk_eq_visit (g : G) (root : Id) : walk g [] [root] = (visit g [] root).1 := by
  have visited := (walk_append g).1 [] root []
  rw [walk, List.reverse_reverse] at visited
  exact visited

end Recursion

section Loop

/-- Takes the object on top off the stack. If it is new, its children come in its place. -/
def pop (g : G) : List Id × List Id → List Id × List Id
  | (visited, []) => (visited, [])
  | (visited, id :: rest) =>
    if id ∈ visited then (visited, rest) else (id :: visited, childrenOf g id ++ rest)

/-- The stack is empty after `n` turns and not before, and then these objects have been visited. -/
def EndsAfter (g : G) (n : Nat) (start : List Id × List Id) (listed : List Id) : Prop :=
  (pop g)^[n] start = (listed.reverse, []) ∧ ∀ k < n, ((pop g)^[k] start).2 ≠ []

theorem EndsAfter.pop {g : G} {n : Nat} {visited rest listed : List Id} {id : Id}
    (ends : EndsAfter g n (pop g (visited, id :: rest)) listed) :
    EndsAfter g (n + 1) (visited, id :: rest) listed := by
  refine ⟨ends.1, fun k few => ?_⟩
  cases k with
  | zero => simp
  | succ k => exact ends.2 k (by omega)

/-- How many children these objects put on the stack. -/
def pushes (g : G) (ids : List Id) : Nat := (ids.flatMap (childrenOf g)).length

/-- Every object that comes on the stack is taken off it once, and the children of an object come on
it only once, when the object is listed. -/
theorem walk_endsAfter (g : G) (visited stack : List Id) :
    ∃ added, walk g visited stack = visited.reverse ++ added ∧
      EndsAfter g (stack.length + pushes g added) (visited, stack) (walk g visited stack) := by
  fun_induction walk g visited stack with
  | case1 visited =>
    refine ⟨[], (List.append_nil _).symm, ?_, ?_⟩
    · simp [pushes]
    · intro k few
      exact absurd few (Nat.not_lt_zero k)
  | case2 visited id rest seen ih =>
    obtain ⟨added, listed, ends⟩ := ih
    have turn : pop g (visited, id :: rest) = (visited, rest) := if_pos seen
    have count : (id :: rest).length + pushes g added = rest.length + pushes g added + 1 := by
      simp only [List.length_cons]
      omega
    refine ⟨added, listed, ?_⟩
    rw [count]
    apply EndsAfter.pop
    rwa [turn]
  | case3 visited id rest fresh ih =>
    obtain ⟨added, listed, ends⟩ := ih
    have turn : pop g (visited, id :: rest) = (id :: visited, childrenOf g id ++ rest) :=
      if_neg fresh
    have count : (id :: rest).length + pushes g (id :: added) =
        (childrenOf g id ++ rest).length + pushes g added + 1 := by
      simp only [pushes, List.length_cons, List.length_append, List.flatMap_cons]
      omega
    refine ⟨id :: added, by rw [listed, List.reverse_cons, List.append_assoc]; rfl, ?_⟩
    rw [count]
    apply EndsAfter.pop
    rwa [turn]

end Loop

theorem nodup_walk {g : G} {visited stack : List Id} (once : visited.Nodup) :
    (walk g visited stack).Nodup := by
  fun_induction walk g visited stack with
  | case1 => exact List.nodup_reverse.2 once
  | case2 _ _ _ _ ih => exact ih once
  | case3 _ _ _ fresh ih => exact ih (List.nodup_cons.2 ⟨fresh, once⟩)

theorem head?_walk (g : G) (root : Id) : (walk g [] [root]).head? = some root := by
  obtain ⟨added, listed, _⟩ := walk_endsAfter g [root] (childrenOf g root ++ [])
  rw [walk, if_neg List.not_mem_nil, listed]
  rfl

/-- Over any graph the walk ends. It takes one turn for the root and one for every child of an
object that it lists, and it lists what the recursion lists, in the same order. A subtree is empty
just below an object that does not exist. Any other begins with its root and holds all that the root
leads to, each object once. -/
theorem subtree_eq_preorder (g : G) (root : Id) :
    let listed := (visit g [] root).1
    EndsAfter g (1 + pushes g listed) ([], [root]) listed ∧
    (subtree g root = if contains g root then listed else []) ∧
    (subtree g root = [] ↔ contains g root = false) ∧
    (subtree g root).Nodup ∧
    ((subtree g root).head? = if contains g root then some root else none) ∧
    ∀ id, id ∈ subtree g root ↔ contains g root ∧ Leads g root id := by
  intro listed
  have walked : walk g [] [root] = listed := walk_eq_visit g root
  have ends : EndsAfter g (1 + pushes g listed) ([], [root]) listed := by
    obtain ⟨added, parts, ends⟩ := walk_endsAfter g [] [root]
    rw [walked] at ends parts
    obtain rfl : listed = added := parts
    exact ends
  have same : subtree g root = if contains g root then listed else [] := by
    rw [subtree, walked]
  refine ⟨ends, same, subtree_eq_nil_iff, ?_, ?_, fun id => mem_subtree_iff⟩
  · rw [same, ← walked]
    split
    · exact nodup_walk List.nodup_nil
    · exact List.nodup_nil
  · rw [same, ← walked]
    split
    · exact head?_walk g root
    · rfl

/-- Two objects above each other, a child that is listed twice, and one that does not exist. -/
example : subtree (⟨.ofList [("a", ["b", "b", "d"]), ("b", ["c", "a"]), ("c", ["x"])]⟩ : Adjacency)
    "a" = ["a", "b", "c", "x", "d"] := by
  cbv

end SceneLock.ObjectGraph
