import Mathlib
import SceneLock.Proofs.GraphFiles
import SceneLock.Proofs.Preorder

/-!
Removing an object takes its subtree out of the scene, all of it and nothing else, one object at a
turn. What was added last goes without a trace.
-/

namespace SceneLock.Scene

open Std

variable {s t : Scene}

section Felling

/-- One turn of a removal: the object on top of the stack goes, and its children come on the stack
in its place, the youngest on top. -/
def fell : Scene × List Id × List Id → Scene × List Id × List Id
  | (s, [], gone) => (s, [], gone)
  | (s, id :: rest, gone) => (s.drop id, (s.childrenOf id).reverse ++ rest, id :: gone)

/-- After these turns the stack is empty, and not before. What is left then, and what has gone. -/
def FelledAfter (s : Scene) (stack gone : List Id) (turns : Nat) (t : Scene) (all : List Id) :
    Prop :=
  fell^[turns] (s, stack, gone) = (t, [], all.reverse) ∧
    ∀ k < turns, (fell^[k] (s, stack, gone)).2.1 ≠ []

variable {id : Id} {rest gone all : List Id} {turns : Nat}

theorem FelledAfter.next
    (ends : (s.drop id).FelledAfter ((s.childrenOf id).reverse ++ rest) (id :: gone) turns t all) :
    s.FelledAfter (id :: rest) gone (turns + 1) t all := by
  refine ⟨ends.1, fun k few => ?_⟩
  cases k with
  | zero => exact List.cons_ne_nil _ _
  | succ k => exact ends.2 k (by omega)

/-- Every turn removes one object, so there are as many turns as objects removed. -/
theorem discard_felledAfter (s : Scene) (stack gone : List Id) :
    ∃ more, (s.discard stack gone).1 = gone.reverse ++ more ∧
      s.FelledAfter stack gone more.length (s.discard stack gone).2 (s.discard stack gone).1 := by
  have step {s r : Scene} {id : Id} {rest gone : List Id} {left : List Id × Scene}
      (same : s.drop id = r)
      (later : ∃ more, left.1 = (id :: gone).reverse ++ more ∧
        r.FelledAfter ((s.childrenOf id).reverse ++ rest) (id :: gone) more.length left.2 left.1) :
      ∃ more, left.1 = gone.reverse ++ more ∧
        s.FelledAfter (id :: rest) gone more.length left.2 left.1 := by
    obtain ⟨more, listed, ends⟩ := later
    rw [← same] at ends
    exact ⟨id :: more, by rw [listed, List.reverse_cons, List.append_assoc]; rfl, ends.next⟩
  fun_induction Scene.discard s stack gone with
  | case1 s gone =>
    refine ⟨[], (List.append_nil _).symm, ?_, ?_⟩
    · simp
    · intro k few
      exact absurd few (Nat.not_lt_zero k)
  | case2 s gone id rest known ih => exact step rfl ih
  | case3 s gone id rest unknown ih =>
    apply step (drop_of_not_mem unknown)
    rw [childrenOf_of_not_mem unknown]
    exact ih

theorem head?_discard {id : Id} (known : id ∈ s.children) (rest : List Id) :
    (s.discard (id :: rest) []).1.head? = some id := by
  obtain ⟨more, listed, _⟩ :=
    discard_felledAfter (s.drop id) ((s.childrenOf id).reverse ++ rest) [id]
  have begun : (s.discard (id :: rest) []).1 = id :: more := by
    rw [Scene.discard, dif_pos known]
    exact listed
  rw [begun]
  rfl

theorem mem_discard (s : Scene) (stack gone : List Id) {x : Id} :
    x ∈ (s.discard stack gone).1 ↔ x ∈ gone ∨ s.Falls stack x := by
  have step {s r : Scene} {id : Id} {rest gone listed : List Id} (same : s.drop id = r)
      (later : x ∈ listed ↔ x ∈ id :: gone ∨ r.Falls ((s.childrenOf id).reverse ++ rest) x) :
      x ∈ listed ↔ x ∈ gone ∨ s.Falls (id :: rest) x := by
    rw [later, falls_cons_iff, same, List.mem_cons]
    tauto
  fun_induction Scene.discard s stack gone with
  | case1 s gone => simp [Falls]
  | case2 s gone id rest known ih => exact step rfl ih
  | case3 s gone id rest unknown ih =>
    apply step (drop_of_not_mem unknown)
    rw [childrenOf_of_not_mem unknown]
    exact ih

/-- No object is on the stack twice, or will come on it again. -/
structure Loosened (s : Scene) (stack gone : List Id) : Prop where
  linked : s.LinkedBut stack
  children_once : ∀ p, (s.childrenOf p).Nodup
  stack_once : stack.Nodup
  gone_once : gone.Nodup
  apart : ∀ x ∈ gone, ¬s.Falls stack x

theorem Loosened.drop (l : s.Loosened (id :: rest) gone) :
    (s.drop id).Loosened ((s.childrenOf id).reverse ++ rest) (id :: gone) := by
  obtain ⟨unlisted, rest_once⟩ := List.nodup_cons.1 l.stack_once
  have cut {a b : Id} (loose : b ∈ id :: rest) : b ∉ s.childrenOf a := l.linked.cut loose
  constructor
  case linked => exact l.linked.drop
  case children_once =>
    intro p
    rw [childrenOf_drop]
    split
    · exact List.nodup_nil
    · exact l.children_once p
  case stack_once =>
    refine (List.nodup_reverse.2 (l.children_once id)).append rest_once fun x child later => ?_
    exact cut (List.mem_cons_of_mem _ later) (List.mem_reverse.1 child)
  case gone_once =>
    refine List.nodup_cons.2 ⟨fun earlier => ?_, l.gone_once⟩
    exact l.apart id earlier ⟨id, List.mem_cons_self, .refl⟩
  case apart =>
    intro x mem falls
    obtain rfl | earlier := List.mem_cons.1 mem
    · -- the object is in no child list, so it would have to lie on the stack itself
      obtain ⟨y, waiting, leads⟩ := falls
      obtain rfl | ⟨b, _, child⟩ := Relation.ReflTransGen.cases_tail leads
      · obtain child | later := List.mem_append.1 waiting
        · exact cut List.mem_cons_self (List.mem_reverse.1 child)
        · exact unlisted later
      · have child : x ∈ (s.drop x).childrenOf b := child
        rw [childrenOf_drop] at child
        split at child
        · cases child
        · exact cut List.mem_cons_self child
    · exact l.apart x earlier (falls_cons_iff.2 (.inr falls))

theorem Loosened.nodup_discard {stack : List Id} (l : s.Loosened stack gone) :
    (s.discard stack gone).1.Nodup := by
  fun_induction Scene.discard s stack gone with
  | case1 => exact List.nodup_reverse.2 l.gone_once
  | case2 s gone id rest known ih => exact ih l.drop
  | case3 s gone id rest unknown ih =>
    have left := l.drop
    rw [childrenOf_of_not_mem unknown, drop_of_not_mem unknown] at left
    exact ih left

theorem Forest.loosened_detach (f : s.Forest) (id : Id) : (s.detach id).Loosened [id] [] where
  linked := f.linked.detach id
  children_once p := by
    rw [f.linked.childrenOf_detach]
    exact (f.once p).filter _
  stack_once := List.nodup_singleton id
  gone_once := List.nodup_nil
  apart x mem := by cases mem

end Felling

section Remove

/-- The scene after an object was removed with all below it. -/
structure Pruned (s : Scene) (id : Id) (gone : List Id) (t : Scene) : Prop where
  first : gone.head? = some id
  once : gone.Nodup
  gone_iff : ∀ x, x ∈ gone ↔ x ∈ ObjectGraph.subtree s id
  left_iff : ∀ x, x ∈ t.children ↔ x ∈ s.children ∧ x ∉ gone
  roots : t.roots = s.roots.filter (· ≠ id)
  parents : ∀ x, t.parentOf x = if x ∈ gone then none else s.parentOf x
  children : ∀ x, t.childrenOf x = if x ∈ gone then [] else (s.childrenOf x).filter (· ≠ id)

variable {id : Id}

theorem filter_ne_of_not_mem {l : List Id} (absent : id ∉ l) : l.filter (· ≠ id) = l := by
  refine List.filter_eq_self.2 fun x mem => decide_eq_true fun same => absent ?_
  exact same ▸ mem

theorem filter_ne_concat {l : List Id} (absent : id ∉ l) : (l ++ [id]).filter (· ≠ id) = l := by
  rw [List.filter_append, filter_ne_of_not_mem absent]
  simp

theorem Forest.roots_remove (f : s.Forest) : (s.detach id).roots = s.roots.filter (· ≠ id) := by
  rw [roots_detach]
  split
  · rfl
  · next child => exact (filter_ne_of_not_mem fun top => child (f.root_iff.1 top).2).symm

theorem Forest.pruned (f : s.Forest) {gone : List Id} (made : s.remove id = .ok (gone, t)) :
    s.Pruned id gone t ∧ (s.detach id).FelledAfter [id] [] gone.length t gone := by
  obtain ⟨known, roots, fallen, left⟩ := f.linked.remove_cases made
  have contained : s.contains id := ExtTreeMap.contains_iff_mem.2 known
  have run : (s.detach id).discard [id] [] = (gone, t) := by
    simpa [Scene.remove, contained] using made
  have gone_iff (x : Id) : x ∈ gone ↔ s.Below x id := by
    have listed := mem_discard (s.detach id) [id] [] (x := x)
    rw [run, f.linked.falls_detach_iff] at listed
    simpa using listed
  obtain ⟨more, listed, ends⟩ := discard_felledAfter (s.detach id) [id] []
  rw [run] at listed ends
  obtain rfl : gone = more := listed
  refine ⟨?_, ends⟩
  constructor
  case first =>
    have begun := head?_discard (s := s.detach id) (mem_children_detach.2 known) []
    rwa [run] at begun
  case once =>
    have once := (f.loosened_detach id).nodup_discard
    rwa [run] at once
  case gone_iff =>
    intro x
    rw [gone_iff, f.mem_subtree_iff known]
  case left_iff =>
    intro x
    rw [gone_iff]
    by_cases below : s.Below x id
    · simp [below, (fallen x below).1]
    · simp [below, (left x below).1]
  case roots => rw [roots, f.roots_remove]
  case parents =>
    intro x
    split
    · next mem => exact (fallen x ((gone_iff x).1 mem)).2
    · next stays => exact (left x (mt (gone_iff x).2 stays)).2.1
  case children =>
    intro x
    split
    · next mem => exact childrenOf_of_not_mem (fallen x ((gone_iff x).1 mem)).1
    · next stays => exact (left x (mt (gone_iff x).2 stays)).2.2

theorem exists_remove (known : id ∈ s.children) : ∃ gone t, s.remove id = .ok (gone, t) := by
  have contained : s.contains id := ExtTreeMap.contains_iff_mem.2 known
  exact ⟨_, _, by rw [Scene.remove, if_pos contained]⟩

theorem remove_of_not_mem (unknown : id ∉ s.children) : s.remove id = .error (.notFound id) := by
  have absent : ¬s.contains id := fun contained => unknown (ExtTreeMap.contains_iff_mem.1 contained)
  rw [Scene.remove, if_neg absent]

/-- Nothing is below an object that was just added. -/
theorem Linked.eq_of_below_added (l : s.Linked) {parent : Option Id}
    (made : s.add id parent = .ok t) {x : Id} (below : t.Below x id) : x = id := by
  obtain same | ⟨y, _, above⟩ := Relation.ReflTransGen.cases_tail below
  · exact same.symm
  · have child : y ∈ t.childrenOf id := ((l.add made).child_iff List.not_mem_nil).2 above
    rw [childrenOf_add made, if_pos rfl] at child
    cases child

/-- What was added last can be removed as if it had never been there. -/
theorem Forest.remove_added (f : s.Forest) {parent : Option Id} (made : s.add id parent = .ok t) :
    t.remove id = .ok ([id], s) := by
  have l := f.linked
  have fresh := (add_cases made).1
  have known : id ∈ t.children := (mem_children_add made).2 (.inl rfl)
  obtain ⟨gone, u, removed⟩ := exists_remove known
  obtain ⟨pruned, _⟩ := (f.add made).pruned removed
  have gone_iff (x : Id) : x ∈ gone ↔ x = id := by
    rw [pruned.gone_iff, (f.add made).mem_subtree_iff known]
    constructor
    · exact l.eq_of_below_added made
    · rintro rfl
      exact .refl
  have alone : gone = [id] := (eq_singleton_iff_of_nodup pruned.once).2 gone_iff
  have restored : u = s := by
    apply ext
    · intro x
      rw [pruned.left_iff, mem_children_add made, gone_iff]
      constructor
      · rintro ⟨rfl | old, other⟩
        · exact absurd rfl other
        · exact old
      · intro old
        exact ⟨.inr old, fun same => fresh (same ▸ old)⟩
    · intro x
      rw [pruned.children, childrenOf_add made]
      by_cases new : x = id
      · rw [if_pos ((gone_iff x).2 new), new, childrenOf_of_not_mem fresh]
      · have unlisted : id ∉ s.childrenOf x := fun mem => fresh (l.listed mem)
        rw [if_neg (mt (gone_iff x).1 new), if_neg new]
        split
        · exact filter_ne_concat unlisted
        · exact filter_ne_of_not_mem unlisted
    · intro x
      rw [pruned.parents, l.parentOf_add made]
      by_cases new : x = id
      · rw [if_pos ((gone_iff x).2 new), new, l.parentOf_of_not_mem fresh]
      · rw [if_neg (mt (gone_iff x).1 new), if_neg new]
    · have unlisted : id ∉ s.roots := fun mem => fresh (f.root_iff.1 mem).1
      rw [pruned.roots, roots_add made]
      split
      · exact filter_ne_concat unlisted
      · exact filter_ne_of_not_mem unlisted
  rw [removed, alone, restored]

/-- Removing an object that exists ends after one turn for every object of its subtree. These are
gone then, and all others are where they were. An object that does not exist is refused, and nothing
is changed. Removing what was just added restores the scene. -/
theorem Edited.removes_subtree (e : s.Edited) :
    (∀ id ∈ s.children, ∃ gone t, (Call.remove id).run s = .ok gone t ∧ s.Pruned id gone t ∧
      (s.detach id).FelledAfter [id] [] gone.length t gone) ∧
    (∀ id, id ∉ s.children → (Call.remove id).run s = .error (.notFound id) s) ∧
    ∀ id parent t, (Call.add id parent).run s = .ok () t →
      (Call.remove id).run t = .ok [id] s := by
  refine ⟨fun id known => ?_, fun id unknown => ?_, fun id parent t added => ?_⟩
  · obtain ⟨gone, t, removed⟩ := exists_remove known
    refine ⟨gone, t, ?_, e.forest.pruned removed⟩
    rw [Call.run_remove, removed]
  · rw [Call.run_remove, remove_of_not_mem unknown]
  · rw [Call.run_add] at added
    split at added
    · next made =>
      cases added
      rw [Call.run_remove, e.forest.remove_added made]
    · cases added

/-- A hall with a lamp, oil in the lamp, and a rug, and an attic beside it. -/
def house : Scene :=
  sketch [⟨"hall", none⟩, ⟨"lamp", some "hall"⟩, ⟨"attic", none⟩, ⟨"oil", some "lamp"⟩,
    ⟨"rug", some "hall"⟩]

theorem edited_house : house.Edited := edited_sketch _

theorem house_removals :
    house.Edited ∧ "hall" ∈ house.children ∧ "roof" ∉ house.children ∧
      (∃ gone t, (Call.remove "hall").run house = .ok gone t ∧ gone.head? = some "hall" ∧
        "oil" ∈ gone ∧ "oil" ∉ t.children ∧ t.roots = ["attic"]) ∧
      (Call.remove "roof").run house = .error (.notFound "roof") house ∧
      ∃ t, (Call.add "bulb" (some "lamp")).run house = .ok () t ∧
        (Call.remove "bulb").run t = .ok ["bulb"] house := by
  obtain ⟨removes, refuses, restores⟩ := edited_house.removes_subtree
  have keys : house.children.keys = ["attic", "hall", "lamp", "oil", "rug"] := by decide +kernel
  have mem_iff (x : Id) : x ∈ house.children ↔ x ∈ ["attic", "hall", "lamp", "oil", "rug"] := by
    rw [← keys, ExtTreeMap.mem_keys]
  have hall := (mem_iff "hall").2 (by decide)
  have roof := mt (mem_iff "roof").1 (by decide)
  refine ⟨edited_house, hall, roof, ?_, refuses "roof" roof, ?_⟩
  · obtain ⟨gone, t, removed, pruned, _⟩ := removes "hall" hall
    have below : house.Below "oil" "hall" := by
      have lamp : house.parentOf "oil" = some "lamp" := by decide +kernel
      have hall : house.parentOf "lamp" = some "hall" := by decide +kernel
      exact .head lamp (.single hall)
    have roots : house.roots = ["hall", "attic"] := by decide +kernel
    have oil : "oil" ∈ gone :=
      (pruned.gone_iff "oil").2 ((edited_house.forest.mem_subtree_iff hall).2 below)
    refine ⟨gone, t, removed, pruned.first, oil, ?_, ?_⟩
    · rw [pruned.left_iff]
      exact fun left => left.2 oil
    · rw [pruned.roots, roots]
      decide
  · have fresh : "bulb" ∉ house.children := mt (mem_iff "bulb").1 (by decide)
    obtain ⟨t, made⟩ : ∃ t, house.add "bulb" (some "lamp") = .ok t :=
      exists_add (by decide) fresh (by simp [mem_iff])
    have added : (Call.add "bulb" (some "lamp")).run house = .ok () t := by
      rw [Call.run_add, made]
    exact ⟨t, added, restores _ _ t added⟩

end Remove

end SceneLock.Scene
