import Mathlib.Logic.Relation
import SceneLock.Proofs.Subtrees
import SceneLock.Scene

/-!
Scenes that were built by edits: the parents and the lists of children tell the same, so that a
subtree can be read off by going up as well as by going down, and two subtrees are nested or apart.
-/

namespace SceneLock.Scene

open Std

/-- The scenes that edits lead to. An edit that fails leads nowhere. -/
inductive Edited : Scene → Prop
  | empty : Edited empty
  | add {s t : Scene} {id : Id} {parent : Option Id} :
      Edited s → s.add id parent = .ok t → Edited t
  | addUnique {s t : Scene} {name id : Id} {parent : Option Id} :
      Edited s → s.addUnique name parent = .ok (id, t) → Edited t
  | remove {s t : Scene} {id : Id} {gone : List Id} :
      Edited s → s.remove id = .ok (gone, t) → Edited t

/-- Going up from the first object, from parent to parent, one comes to the second. -/
def Below (s : Scene) : Id → Id → Prop := Relation.ReflTransGen fun x p => s.parentOf x = some p

/-- The parents and the lists of children tell the same, but for the loose objects. These are in no
list, and whatever is in a list exists. -/
structure LinkedBut (s : Scene) (loose : List Id) : Prop where
  child_iff : ∀ {a b : Id}, b ∉ loose → (b ∈ s.childrenOf a ↔ s.parentOf b = some a)
  cut : ∀ {a b : Id}, b ∈ loose → b ∉ s.childrenOf a
  listed : ∀ {a b : Id}, b ∈ s.childrenOf a → b ∈ s.children

abbrev Linked (s : Scene) : Prop := s.LinkedBut []

variable {s t : Scene}

theorem childrenOf_of_not_mem {id : Id} (unknown : id ∉ s.children) : s.childrenOf id = [] :=
  ExtTreeMap.getD_eq_fallback unknown

theorem Linked.parentOf_of_not_mem (l : s.Linked) {id : Id} (unknown : id ∉ s.children) :
    s.parentOf id = none := by
  refine Option.eq_none_iff_forall_ne_some.2 fun p above => unknown ?_
  exact l.listed ((l.child_iff List.not_mem_nil).2 above)

theorem linked_empty : Linked empty where
  child_iff _ := by simp [childrenOf, parentOf, empty]
  cut mem := absurd mem List.not_mem_nil
  listed mem := by simp [childrenOf, empty] at mem

section Add

variable {id : Id} {parent : Option Id}

/-- What an object is added under exists, and the object itself did not. -/
theorem add_cases (made : s.add id parent = .ok t) :
    id ∉ s.children ∧
      ((parent = none ∧
        t = { s with children := s.children.insert id [], roots := s.roots ++ [id] }) ∨
      ∃ p siblings, parent = some p ∧ s.children[p]? = some siblings ∧
        t = { s with
          children := (s.children.insert p (siblings ++ [id])).insert id []
          parents := s.parents.insert id p }) := by
  unfold add Name.ensureUnique at made
  split at made
  · cases made
  split at made
  · cases made
  next fresh =>
  refine ⟨fun mem => fresh (ExtTreeMap.contains_iff_mem.2 mem), ?_⟩
  cases parent with
  | none =>
    cases made
    exact .inl ⟨rfl, rfl⟩
  | some p =>
    simp only [bind, Except.bind] at made
    split at made
    · cases made
    · next siblings found =>
      cases made
      exact .inr ⟨p, siblings, rfl, found, rfl⟩

theorem parent_mem_of_add (made : s.add id parent = .ok t) {p : Id} (under : parent = some p) :
    p ∈ s.children := by
  obtain ⟨_, ⟨root, _⟩ | ⟨q, siblings, child, found, _⟩⟩ := add_cases made
  · cases root.symm.trans under
  · cases child.symm.trans under
    exact ExtTreeMap.mem_iff_isSome_getElem?.2 (by simp [found])

theorem childrenOf_add (made : s.add id parent = .ok t) (a : Id) :
    t.childrenOf a =
      if a = id then [] else
        if parent = some a then s.childrenOf a ++ [id] else s.childrenOf a := by
  obtain ⟨fresh, ⟨rfl, rfl⟩ | ⟨p, siblings, rfl, found, rfl⟩⟩ := add_cases made
  · simp only [childrenOf, ExtTreeMap.getD_insert, Std.compare_eq_iff_eq, eq_comm (a := id),
      reduceCtorEq, if_false]
  · simp only [childrenOf, ExtTreeMap.getD_insert, Std.compare_eq_iff_eq, Option.some.injEq,
      eq_comm (a := id)]
    by_cases e : p = a
    · subst e
      simp [ExtTreeMap.getD_eq_getD_getElem?, found]
    · simp [e]

theorem Linked.parentOf_add (l : s.Linked) (made : s.add id parent = .ok t) (b : Id) :
    t.parentOf b = if b = id then parent else s.parentOf b := by
  obtain ⟨fresh, ⟨rfl, rfl⟩ | ⟨p, siblings, rfl, found, rfl⟩⟩ := add_cases made
  · have orphan := l.parentOf_of_not_mem fresh
    simp only [parentOf] at orphan ⊢
    split
    · next e => rw [e, orphan]
    · rfl
  · simp only [parentOf, ExtTreeMap.getElem?_insert, Std.compare_eq_iff_eq, eq_comm (a := id)]

theorem mem_children_add (made : s.add id parent = .ok t) {b : Id} :
    b ∈ t.children ↔ b = id ∨ b ∈ s.children := by
  have known (p : Id) := parent_mem_of_add made (p := p)
  obtain ⟨fresh, ⟨rfl, rfl⟩ | ⟨p, siblings, rfl, found, rfl⟩⟩ := add_cases made
  · simp only [ExtTreeMap.mem_insert, Std.compare_eq_iff_eq, eq_comm (a := id)]
  · have mem := known p rfl
    simp only [ExtTreeMap.mem_insert, Std.compare_eq_iff_eq, eq_comm (a := id)]
    refine or_congr_right ⟨?_, .inr⟩
    rintro (rfl | old)
    · exact mem
    · exact old

theorem Linked.add (l : s.Linked) (made : s.add id parent = .ok t) : t.Linked where
  child_iff {a b} _ := by
    have fresh := (add_cases made).1
    have known := parent_mem_of_add made (p := id)
    rw [childrenOf_add made, l.parentOf_add made]
    have before : b ∈ s.childrenOf a ↔ s.parentOf b = some a := l.child_iff List.not_mem_nil
    by_cases new : b = id
    · subst new
      have unlisted : b ∉ s.childrenOf a := fun mem => fresh (l.listed mem)
      grind
    · have barren : s.childrenOf id = [] := childrenOf_of_not_mem fresh
      grind
  cut mem := absurd mem List.not_mem_nil
  listed {a b} mem := by
    rw [mem_children_add made]
    rw [childrenOf_add made] at mem
    have before : b ∈ s.childrenOf a → b ∈ s.children := l.listed
    grind

theorem add_of_addUnique {name : String} (made : s.addUnique name parent = .ok (id, t)) :
    ∃ id, s.add id parent = .ok t := by
  unfold addUnique at made
  simp only [bind, Except.bind] at made
  split at made
  · cases made
  · next added =>
    cases made
    exact ⟨_, added⟩

end Add

section Remove

/-- The scene without an object. Its children stay, but nothing says any more where they belong. -/
def drop (s : Scene) (id : Id) : Scene :=
  { s with children := s.children.erase id, parents := s.parents.erase id }

theorem childrenOf_drop (s : Scene) (id a : Id) :
    (s.drop id).childrenOf a = if a = id then [] else s.childrenOf a := by
  simp only [drop, childrenOf, ExtTreeMap.getD_erase, Std.compare_eq_iff_eq, eq_comm (a := id)]

theorem parentOf_drop (s : Scene) (id b : Id) :
    (s.drop id).parentOf b = if b = id then none else s.parentOf b := by
  simp only [drop, parentOf, ExtTreeMap.getElem?_erase, Std.compare_eq_iff_eq, eq_comm (a := id)]

theorem mem_children_drop {s : Scene} {id b : Id} :
    b ∈ (s.drop id).children ↔ b ≠ id ∧ b ∈ s.children := by
  simp only [drop, ExtTreeMap.mem_erase, Std.compare_eq_iff_eq, eq_comm (a := id), ne_eq]

theorem drop_of_not_mem {id : Id} (unknown : id ∉ s.children) :
    s.drop id = { s with parents := s.parents.erase id } := by
  have same : s.children.erase id = s.children := by
    refine ExtTreeMap.ext_getElem? fun x => ?_
    rw [ExtTreeMap.getElem?_erase]
    split
    · next e =>
      rw [← Std.compare_eq_iff_eq.1 e]
      exact (ExtTreeMap.getElem?_eq_none unknown).symm
    · rfl
  rw [drop, same]

variable {id : Id} {rest : List Id}

/-- When an object goes, its children become loose. -/
theorem LinkedBut.drop (l : s.LinkedBut (id :: rest)) :
    (s.drop id).LinkedBut ((s.childrenOf id).reverse ++ rest) where
  child_iff {a b} bound := by
    obtain ⟨foreign, bound⟩ : b ∉ s.childrenOf id ∧ b ∉ rest := by simpa using bound
    rw [childrenOf_drop, parentOf_drop]
    by_cases self : b = id
    · subst self
      have unlisted : b ∉ s.childrenOf a := l.cut List.mem_cons_self
      split <;> simp [unlisted]
    · have before (a : Id) : b ∈ s.childrenOf a ↔ s.parentOf b = some a :=
        l.child_iff (by simp [self, bound])
      rw [if_neg self, ← before]
      split
      · next e => simp [e, foreign]
      · rfl
  cut {a b} loose := by
    rw [childrenOf_drop]
    split
    · exact List.not_mem_nil
    · next other =>
      obtain child | later : b ∈ s.childrenOf id ∨ b ∈ rest := by simpa using loose
      · intro also
        have bound : b ∉ id :: rest := fun mem => l.cut mem child
        have here := (l.child_iff bound).1 child
        have there := (l.child_iff bound).1 also
        exact other (Option.some.inj (there.symm.trans here))
      · exact l.cut (List.mem_cons_of_mem _ later)
  listed {a b} mem := by
    rw [childrenOf_drop] at mem
    split at mem
    · cases mem
    · refine mem_children_drop.2 ⟨?_, l.listed mem⟩
      rintro rfl
      exact l.cut List.mem_cons_self mem

theorem LinkedBut.discard {stack : List Id} (l : s.LinkedBut stack) (gone : List Id) :
    (s.discard stack gone).2.Linked := by
  fun_induction Scene.discard s stack gone with
  | case1 => exact l
  | case2 s gone id rest known ih => exact ih l.drop
  | case3 s gone id rest unknown ih =>
    have left := l.drop
    rw [childrenOf_of_not_mem unknown, drop_of_not_mem unknown] at left
    exact ih left

theorem Linked.childrenOf_detach (l : s.Linked) (id a : Id) :
    (s.detach id).childrenOf a = (s.childrenOf a).filter (· ≠ id) := by
  have elsewhere (unlisted : id ∉ s.childrenOf a) :
      s.childrenOf a = (s.childrenOf a).filter (· ≠ id) := by
    refine (List.filter_eq_self.2 fun b mem => ?_).symm
    simpa using fun e : b = id => unlisted (e ▸ mem)
  unfold Scene.detach
  split
  · next p above =>
    simp only [childrenOf, ExtTreeMap.getD_modify, Std.compare_eq_iff_eq]
    split
    · next e =>
      rw [e, ExtTreeMap.getD_eq_getD_getElem?]
      cases s.children[a]? <;> rfl
    · next other =>
      refine elsewhere fun mem => other ?_
      exact Option.some.inj (above.symm.trans ((l.child_iff List.not_mem_nil).1 mem))
  · next root =>
    refine elsewhere fun mem => ?_
    cases root.symm.trans ((l.child_iff List.not_mem_nil).1 mem)

theorem parentOf_detach (s : Scene) (id b : Id) :
    (s.detach id).parentOf b = if b = id then none else s.parentOf b := by
  unfold Scene.detach
  split
  · simp only [parentOf, ExtTreeMap.getElem?_erase, Std.compare_eq_iff_eq, eq_comm (a := id)]
  · next root =>
    split
    · next e => rw [e]; exact root
    · rfl

theorem mem_children_detach {id b : Id} : b ∈ (s.detach id).children ↔ b ∈ s.children := by
  unfold Scene.detach
  split
  · exact ExtTreeMap.mem_modify
  · rfl

/-- An object that is detached is in no list any more. -/
theorem Linked.detach (l : s.Linked) (id : Id) : (s.detach id).LinkedBut [id] where
  child_iff {a b} bound := by
    have other : b ≠ id := by simpa using bound
    rw [l.childrenOf_detach, parentOf_detach, if_neg other, List.mem_filter,
      l.child_iff List.not_mem_nil]
    simp [other]
  cut {a b} loose := by
    rw [l.childrenOf_detach, List.mem_singleton.1 loose]
    simp
  listed mem := by
    rw [l.childrenOf_detach] at mem
    exact mem_children_detach.2 (l.listed (List.mem_filter.1 mem).1)

theorem Linked.remove (l : s.Linked) {id : Id} {gone : List Id}
    (made : s.remove id = .ok (gone, t)) : t.Linked := by
  unfold Scene.remove at made
  split at made
  · have done := (l.detach id).discard []
    rw [Except.ok.inj made] at done
    exact done
  · cases made

end Remove

theorem Edited.linked (e : s.Edited) : s.Linked := by
  induction e with
  | empty => exact linked_empty
  | add _ made l => exact l.add made
  | addUnique _ made l =>
    obtain ⟨_, made⟩ := add_of_addUnique made
    exact l.add made
  | remove _ made l => exact l.remove made

/-- A scene that is read from a file is built edit by edit. -/
theorem edited_ofEntries {entries : List Entry} (made : ofEntries entries = .ok s) : s.Edited := by
  have step {entries : List Entry} {s t : Scene} (built : s.Edited)
      (made : entries.foldlM (fun s e => s.add e.id e.parent) s = .ok t) : t.Edited := by
    induction entries generalizing s with
    | nil =>
      cases made
      exact built
    | cons e rest ih =>
      rw [List.foldlM_cons] at made
      cases first : s.add e.id e.parent with
      | error e => simp [first, bind, Except.bind] at made
      | ok more =>
        rw [first] at made
        exact ih (built.add first) made
  exact step .empty made

/-- The scene that these entries make. It is empty if they make none. -/
def sketch (entries : List Entry) : Scene :=
  match ofEntries entries with
  | .ok s => s
  | .error _ => .empty

theorem edited_sketch (entries : List Entry) : (sketch entries).Edited := by
  unfold sketch
  split
  · next made => exact edited_ofEntries made
  · exact .empty

theorem Linked.leads_iff (l : s.Linked) {a x : Id} :
    ObjectGraph.Leads s a x ↔ s.Below x a := by
  unfold ObjectGraph.Leads Below
  rw [← Relation.reflTransGen_swap]
  refine iff_of_eq (congrArg (Relation.ReflTransGen · x a) ?_)
  funext x p
  exact propext (l.child_iff List.not_mem_nil)

/-- Seen from above, a subtree is all that has its root among its ancestors. -/
theorem Linked.mem_subtree_iff (l : s.Linked) {root x : Id} :
    x ∈ ObjectGraph.subtree s root ↔ s.contains root ∧ s.Below x root := by
  rw [ObjectGraph.mem_subtree_iff, l.leads_iff]
  rfl

/-- Of two objects above a third, one is above the other. -/
theorem Below.total {x a b : Id} (first : s.Below x a) (second : s.Below x b) :
    s.Below a b ∨ s.Below b a := by
  refine Relation.ReflTransGen.total_of_right_unique (fun x p q one other => ?_) first second
  exact Option.some.inj (one.symm.trans other)

/-- Two subtrees have an object in common exactly if one root is below the other. -/
theorem Linked.meet_iff (l : s.Linked) {a b : Id} (hasA : s.contains a) (hasB : s.contains b) :
    (∃ x, x ∈ ObjectGraph.subtree s a ∧ x ∈ ObjectGraph.subtree s b) ↔
      s.Below a b ∨ s.Below b a := by
  simp only [l.mem_subtree_iff, hasA, hasB, true_and]
  constructor
  · rintro ⟨x, first, second⟩
    exact first.total second
  · rintro (below | above)
    · exact ⟨a, .refl, below⟩
    · exact ⟨b, above, .refl⟩

end SceneLock.Scene
