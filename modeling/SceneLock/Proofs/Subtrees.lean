import Mathlib.Logic.Relation
import SceneLock.Graph

/-!
Which objects a subtree lists: those that the child lists lead to from its root. Cycles, children
listed twice and children that do not exist make no difference.
-/

namespace SceneLock.ObjectGraph

variable {G : Type} [ObjectGraph G]

/-- From the first object down to the second, from child to child. -/
def Leads (g : G) : Id → Id → Prop := Relation.ReflTransGen fun a b => b ∈ childrenOf g a

variable {g : G} {visited stack : List Id}

theorem mem_walk_of_visited {x : Id} (seen : x ∈ visited) : x ∈ walk g visited stack := by
  fun_induction walk g visited stack with
  | case1 => exact List.mem_reverse.2 seen
  | case2 _ _ _ _ ih => exact ih seen
  | case3 _ _ _ _ ih => exact ih (List.mem_cons_of_mem _ seen)

theorem mem_walk_of_stacked {x : Id} (waiting : x ∈ stack) : x ∈ walk g visited stack := by
  fun_induction walk g visited stack with
  | case1 => cases waiting
  | case2 visited id rest seen ih =>
    obtain rfl | later := List.mem_cons.1 waiting
    · exact mem_walk_of_visited seen
    · exact ih later
  | case3 visited id rest _ ih =>
    obtain rfl | later := List.mem_cons.1 waiting
    · exact mem_walk_of_visited List.mem_cons_self
    · exact ih (List.mem_append_right _ later)

/-- As long as the children of what was visited are on the stack or visited too, the walk leaves no
child out. -/
theorem child_mem_walk
    (pending : ∀ a ∈ visited, ∀ b ∈ childrenOf g a, b ∈ visited ∨ b ∈ stack) {a b : Id}
    (mem : a ∈ walk g visited stack) (child : b ∈ childrenOf g a) :
    b ∈ walk g visited stack := by
  fun_induction walk g visited stack with
  | case1 visited =>
    obtain seen | waiting := pending a (List.mem_reverse.1 mem) b child
    · exact List.mem_reverse.2 seen
    · cases waiting
  | case2 visited id rest seen ih =>
    refine ih (fun a there b child => ?_) mem
    obtain done | waiting := pending a there b child
    · exact .inl done
    · obtain rfl | later := List.mem_cons.1 waiting
      · exact .inl seen
      · exact .inr later
  | case3 visited id rest _ ih =>
    refine ih (fun a there b child => ?_) mem
    obtain rfl | earlier := List.mem_cons.1 there
    · exact .inr (List.mem_append_left _ child)
    · obtain done | waiting := pending a earlier b child
      · exact .inl (List.mem_cons_of_mem _ done)
      · obtain rfl | later := List.mem_cons.1 waiting
        · exact .inl List.mem_cons_self
        · exact .inr (List.mem_append_right _ later)

theorem leads_of_mem_walk {x : Id} (mem : x ∈ walk g visited stack) :
    x ∈ visited ∨ ∃ y ∈ stack, Leads g y x := by
  fun_induction walk g visited stack with
  | case1 visited => exact .inl (List.mem_reverse.1 mem)
  | case2 visited id rest _ ih =>
    exact (ih mem).imp_right fun ⟨y, later, leads⟩ => ⟨y, List.mem_cons_of_mem _ later, leads⟩
  | case3 visited id rest _ ih =>
    obtain seen | ⟨y, waiting, leads⟩ := ih mem
    · obtain rfl | earlier := List.mem_cons.1 seen
      · exact .inr ⟨x, List.mem_cons_self, .refl⟩
      · exact .inl earlier
    · obtain child | later := List.mem_append.1 waiting
      · exact .inr ⟨id, List.mem_cons_self, .head child leads⟩
      · exact .inr ⟨y, List.mem_cons_of_mem _ later, leads⟩

/-- A subtree lists exactly what its root leads to. -/
theorem mem_subtree_iff {root x : Id} : x ∈ subtree g root ↔ contains g root ∧ Leads g root x := by
  unfold subtree
  split
  · next known =>
    constructor
    · intro mem
      obtain seen | ⟨y, waiting, leads⟩ := leads_of_mem_walk mem
      · cases seen
      · rw [List.mem_singleton.1 waiting] at leads
        exact ⟨known, leads⟩
    · rintro ⟨-, leads⟩
      induction leads with
      | refl => exact mem_walk_of_stacked List.mem_cons_self
      | tail _ child ih =>
        exact child_mem_walk (fun _ seen => absurd seen List.not_mem_nil) ih child
  · next unknown => simp [unknown]

theorem subtree_eq_nil_iff {root : Id} : subtree g root = [] ↔ contains g root = false := by
  constructor
  · intro none
    refine Bool.eq_false_iff.2 fun known => ?_
    have mem : root ∈ subtree g root := mem_subtree_iff.2 ⟨known, .refl⟩
    rw [none] at mem
    cases mem
  · exact fun unknown => if_neg (Bool.eq_false_iff.1 unknown)

end SceneLock.ObjectGraph
