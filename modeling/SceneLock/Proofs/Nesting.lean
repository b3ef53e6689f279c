import SceneLock.Proofs.Counts
import SceneLock.Proofs.Forest
import SceneLock.Proofs.Preorder

/-!
Subtrees within subtrees. No way leads back in a forest, and two children of one object lead to
nothing in common. So a subtree is its root followed by the subtrees of the root's children, and
each of these lies in it in one piece.
-/

namespace SceneLock

namespace ObjectGraph

variable {G : Type} [ObjectGraph G] {g : G}

/-- What has been visited makes no difference to a walk that does not come there. -/
theorem walk_append_visited {visited earlier stack : List Id}
    (apart : ∀ x ∈ earlier, ∀ y ∈ stack, ¬Leads g y x) :
    walk g (visited ++ earlier) stack = earlier.reverse ++ walk g visited stack := by
  fun_induction walk g visited stack with
  | case1 visited => rw [walk, List.reverse_append]
  | case2 visited id rest seen ih =>
    rw [walk, if_pos (List.mem_append_left _ seen)]
    exact ih fun x old y later => apart x old y (List.mem_cons_of_mem _ later)
  | case3 visited id rest fresh ih =>
    have new : id ∉ visited ++ earlier := by
      intro mem
      obtain seen | old := List.mem_append.1 mem
      · exact fresh seen
      · exact apart id old id List.mem_cons_self .refl
    rw [walk, if_neg new]
    refine ih fun x old y mem => ?_
    obtain child | later := List.mem_append.1 mem
    · exact fun leads => apart x old id List.mem_cons_self (.head child leads)
    · exact apart x old y (List.mem_cons_of_mem _ later)

theorem visit_of_apart {seen : List Id} {id : Id} (apart : ∀ x ∈ seen, ¬Leads g id x) :
    (visit g seen id).1 = seen ++ walk g [] [id] := by
  have visited := (walk_append g).1 seen id []
  rw [walk, List.reverse_reverse] at visited
  have foreign : ∀ x ∈ seen.reverse, ∀ y ∈ [id], ¬Leads g y x := by
    intro x mem y alone
    rw [List.mem_singleton.1 alone]
    exact apart x (List.mem_reverse.1 mem)
  rw [← visited, ← List.nil_append seen.reverse, walk_append_visited foreign, List.reverse_reverse]

theorem visitAll_cons (g : G) (seen : List Id) (id : Id) (rest : List Id) :
    (visitAll g seen (id :: rest)).1 = (visitAll g (visit g seen id).1 rest).1 := by
  rw [visitAll]

theorem visitAll_of_apart {seen ids : List Id} (apart : ∀ id ∈ ids, ∀ x ∈ seen, ¬Leads g id x)
    (disjoint : ids.Pairwise fun a b => ∀ x, Leads g a x → ¬Leads g b x) :
    (visitAll g seen ids).1 = seen ++ ids.flatMap fun id => walk g [] [id] := by
  induction ids generalizing seen with
  | nil =>
    rw [visitAll]
    exact (List.append_nil seen).symm
  | cons id rest ih =>
    obtain ⟨first, others⟩ := List.pairwise_cons.1 disjoint
    have next : ∀ y ∈ rest, ∀ x ∈ seen ++ walk g [] [id], ¬Leads g y x := by
      intro y later x mem
      obtain old | new := List.mem_append.1 mem
      · exact apart y (List.mem_cons_of_mem _ later) x old
      · obtain none | ⟨z, alone, leads⟩ := leads_of_mem_walk new
        · cases none
        · rw [List.mem_singleton.1 alone] at leads
          exact first y later x leads
    rw [visitAll_cons, visit_of_apart (apart id List.mem_cons_self), ih next others,
      List.append_assoc, List.flatMap_cons]

theorem walk_eq_cons {root : Id} (acyclic : ∀ c ∈ childrenOf g root, ¬Leads g c root)
    (disjoint : (childrenOf g root).Pairwise fun a b => ∀ x, Leads g a x → ¬Leads g b x) :
    walk g [] [root] = root :: (childrenOf g root).flatMap fun id => walk g [] [id] := by
  have apart : ∀ c ∈ childrenOf g root, ∀ x ∈ [] ++ [root], ¬Leads g c x := by
    intro c child x alone
    rw [List.mem_singleton.1 alone]
    exact acyclic c child
  rw [walk_eq_visit, visit_of_not_mem List.not_mem_nil, visitAll_of_apart apart disjoint]
  rfl

theorem nodup_subtree (g : G) (root : Id) : (subtree g root).Nodup :=
  (subtree_eq_preorder g root).2.2.2.1

end ObjectGraph

namespace Scene

open Std ObjectGraph

variable {s : Scene} {x p root : Id}

/-- The way up to another object is by the parent. -/
theorem Below.cases_parent {y : Id} (below : s.Below x y) (above : s.parentOf x = some p) :
    x = y ∨ s.Below p y := by
  obtain same | ⟨q, step, rest⟩ := below.cases_head
  · exact .inl same
  · obtain rfl : q = p := Option.some.inj (step.symm.trans above)
    exact .inr rest

/-- The way up does not come back to where it started. -/
theorem Forest.acyclic (f : s.Forest) (above : s.parentOf x = some p) : ¬s.Below p x := by
  intro below
  obtain ⟨top, first, up⟩ := f.rooted (f.known above).1
  -- what is above an object on a circle is on the circle as well, and the topmost object is not
  induction up using Relation.ReflTransGen.head_induction_on generalizing p with
  | refl => cases (f.root_iff.1 first).2.symm.trans above
  | @head a b step _ ih =>
    obtain rfl : b = p := Option.some.inj (step.symm.trans above)
    obtain rfl | ⟨q, next, rest⟩ := below.cases_head
    · exact ih above below
    · exact ih next (rest.tail above)

theorem Forest.apart_of_siblings (f : s.Forest) {a b : Id} (differ : a ≠ b)
    (left : s.parentOf a = some p) (right : s.parentOf b = some p) (below : s.Below x a) :
    ¬s.Below x b := by
  have unrelated {a b : Id} (differ : a ≠ b) (left : s.parentOf a = some p)
      (right : s.parentOf b = some p) : ¬s.Below a b := by
    intro below
    obtain same | rest := below.cases_parent left
    · exact differ same
    · exact f.acyclic right rest
  intro also
  obtain down | up := below.total also
  · exact unrelated differ left right down
  · exact unrelated differ.symm right left up

/-- A subtree is its root and then the subtrees of the root's children, one after the other. -/
theorem Forest.subtree_eq_cons (f : s.Forest) (known : root ∈ s.children) :
    subtree s root = root :: (s.childrenOf root).flatMap (subtree s) := by
  have walked {y : Id} (known : y ∈ s.children) : subtree s y = walk s [] [y] :=
    if_pos (ExtTreeMap.contains_iff_mem.2 known)
  have children : (s.childrenOf root).flatMap (subtree s) =
      (s.childrenOf root).flatMap fun y => walk s [] [y] := by
    refine List.flatMap_congr fun y child => ?_
    exact walked (f.known (f.child_iff.1 child)).1
  rw [walked known, children]
  apply walk_eq_cons
  · intro c child
    rw [f.linked.leads_iff]
    exact fun below => f.acyclic (f.child_iff.1 child) below
  · refine (f.once root).imp_of_mem fun left right differ x => ?_
    rw [f.linked.leads_iff, f.linked.leads_iff]
    exact f.apart_of_siblings differ (f.child_iff.1 left) (f.child_iff.1 right)

/-- What is below an object lies in its subtree in one piece with all that is below it in turn. -/
theorem Forest.subtree_eq_append (f : s.Forest) (known : root ∈ s.children)
    (below : s.Below x root) :
    ∃ front back, subtree s root = front ++ subtree s x ++ back := by
  -- with every step up, the subtree so far is one of those of the siblings
  induction below with
  | refl => exact ⟨[], [], by simp⟩
  | @tail b a _ above ih =>
    obtain ⟨front, back, inner⟩ := ih (f.known above).1
    obtain ⟨left, right, siblings⟩ := List.append_of_mem (f.child_iff.2 above)
    refine ⟨a :: left.flatMap (subtree s) ++ front, back ++ right.flatMap (subtree s), ?_⟩
    rw [f.subtree_eq_cons known, siblings, List.flatMap_append, List.flatMap_cons, inner]
    simp

/-- Below an object only its children have it as their parent. -/
theorem Forest.filter_subtree (f : s.Forest) (known : root ∈ s.children) :
    (subtree s root).filter (s.parentOf · = some root) = s.childrenOf root := by
  have self : s.parentOf root ≠ some root := fun above => f.acyclic above .refl
  have first {c : Id} (child : c ∈ s.childrenOf root) :
      (subtree s c).filter (s.parentOf · = some root) = [c] := by
    have above := f.child_iff.1 child
    refine (eq_singleton_iff_of_nodup ((nodup_subtree s c).filter _)).2 fun y => ?_
    rw [List.mem_filter, f.mem_subtree_iff (f.known above).1, decide_eq_true_iff]
    constructor
    · rintro ⟨below, up⟩
      exact (below.cases_parent up).resolve_right (f.acyclic above)
    · rintro rfl
      exact ⟨.refl, above⟩
  rw [f.subtree_eq_cons known, List.filter_cons_of_neg (by simpa using self), List.filter_flatMap,
    List.flatMap_congr fun c child => first child, List.flatMap_singleton']

/-- The children of an object stand in every subtree that it is in, in their order. -/
theorem Forest.childrenOf_eq_filter (f : s.Forest) (known : root ∈ s.children)
    (below : s.Below x root) :
    s.childrenOf x = (subtree s root).filter (s.parentOf · = some x) := by
  have here := f.known_of_below known below
  obtain ⟨front, back, split⟩ := f.subtree_eq_append known below
  have once : (front ++ subtree s x ++ back).Nodup := split ▸ nodup_subtree s root
  obtain ⟨once, _, after⟩ := List.nodup_append'.1 once
  obtain ⟨_, _, before⟩ := List.nodup_append'.1 once
  have inside {y : Id} (above : s.parentOf y = some x) : y ∈ subtree s x :=
    (f.mem_subtree_iff here).2 (.single above)
  have outside {y : Id} (apart : y ∉ subtree s x) : ¬decide (s.parentOf y = some x) = true := by
    simpa using mt inside apart
  have front_none : front.filter (s.parentOf · = some x) = [] :=
    List.filter_eq_nil_iff.2 fun y mem => outside (before mem)
  have back_none : back.filter (s.parentOf · = some x) = [] :=
    List.filter_eq_nil_iff.2 fun y mem => outside fun among =>
      after (List.mem_append_right _ among) mem
  rw [split, List.filter_append, List.filter_append, front_none, back_none, f.filter_subtree here,
    List.nil_append, List.append_nil]

end Scene

end SceneLock
