import Mathlib
import SceneLock.Proofs.Ancestry
import SceneLock.Proofs.Attempts
import SceneLock.Scene.Edit

/-!
Whatever is done to a scene, its child lists, its parents and its roots describe one and the same
forest. An edit that is refused changes none of them.
-/

namespace SceneLock.Scene

open Std Yaml

/-- The child lists, the parents and the roots describe the same forest. -/
structure Forest (s : Scene) : Prop where
  child_iff : ∀ {p c : Id}, c ∈ s.childrenOf p ↔ s.parentOf c = some p
  once : ∀ p, (s.childrenOf p).Nodup
  known : ∀ {p c : Id}, s.parentOf c = some p → c ∈ s.children ∧ p ∈ s.children
  roots_once : s.roots.Nodup
  root_iff : ∀ {x : Id}, x ∈ s.roots ↔ x ∈ s.children ∧ s.parentOf x = none
  rooted : ∀ {x : Id}, x ∈ s.children → ∃ root ∈ s.roots, s.Below x root
  named : "" ∉ s.children

variable {s t : Scene}

theorem Forest.linked (f : s.Forest) : s.Linked where
  child_iff _ := f.child_iff
  cut mem := absurd mem List.not_mem_nil
  listed mem := (f.known (f.child_iff.1 mem)).1

theorem Linked.known (l : s.Linked) {p c : Id} (above : s.parentOf c = some p) :
    c ∈ s.children ∧ p ∈ s.children := by
  have mem : c ∈ s.childrenOf p := (l.child_iff List.not_mem_nil).2 above
  exact ⟨l.listed mem, ExtTreeMap.mem_keys.1 (mem_ids_of_childrenOf (List.ne_nil_of_mem mem))⟩

theorem Forest.mem_subtree_iff (f : s.Forest) {root x : Id} (known : root ∈ s.children) :
    x ∈ ObjectGraph.subtree s root ↔ s.Below x root := by
  rw [f.linked.mem_subtree_iff]
  exact and_iff_right (ExtTreeMap.contains_iff_mem.2 known)

theorem Forest.known_of_below (f : s.Forest) {root x : Id} (known : root ∈ s.children)
    (below : s.Below x root) : x ∈ s.children := by
  obtain rfl | ⟨_, above, _⟩ := below.cases_head
  · exact known
  · exact (f.known above).1

theorem forest_empty : empty.Forest where
  child_iff := by simp [childrenOf, parentOf, empty]
  once p := by simp [childrenOf, empty]
  known above := by simp [parentOf, empty] at above
  roots_once := List.nodup_nil
  root_iff := by simp [empty]
  rooted mem := by simp [empty] at mem
  named := by simp [empty]

section Add

variable {id : Id} {parent : Option Id}

theorem roots_add (made : s.add id parent = .ok t) :
    t.roots = if parent = none then s.roots ++ [id] else s.roots := by
  obtain ⟨_, ⟨rfl, rfl⟩ | ⟨_, _, rfl, _, rfl⟩⟩ := add_cases made
  · rfl
  · rfl

theorem ne_empty_of_add (made : s.add id parent = .ok t) : id ≠ "" := by
  unfold add Name.ensureUnique at made
  split at made
  · cases made
  · assumption

/-- What was below an object stays below it, for the new object is above none. -/
theorem Linked.below_add (l : s.Linked) (made : s.add id parent = .ok t) {x y : Id}
    (below : s.Below x y) : t.Below x y := by
  refine Relation.ReflTransGen.mono ?_ _ _ below
  intro x p above
  have other : x ≠ id := by
    intro same
    exact (add_cases made).1 (same ▸ (l.known above).1)
  rw [l.parentOf_add made, if_neg other, above]

theorem Forest.add (f : s.Forest) (made : s.add id parent = .ok t) : t.Forest := by
  have l := f.linked
  have fresh := (add_cases made).1
  have linked := l.add made
  constructor
  case child_iff => exact linked.child_iff List.not_mem_nil
  case once =>
    intro p
    rw [childrenOf_add made]
    have unlisted : id ∉ s.childrenOf p := fun mem => fresh (l.listed mem)
    split
    · exact List.nodup_nil
    · split
      · exact List.nodup_append_comm.1 (List.nodup_cons.2 ⟨unlisted, f.once p⟩)
      · exact f.once p
  case known => exact linked.known
  case roots_once =>
    have unlisted : id ∉ s.roots := fun mem => fresh (f.root_iff.1 mem).1
    rw [roots_add made]
    split
    · exact List.nodup_append_comm.1 (List.nodup_cons.2 ⟨unlisted, f.roots_once⟩)
    · exact f.roots_once
  case root_iff =>
    intro x
    have before : x ∈ s.roots ↔ x ∈ s.children ∧ s.parentOf x = none := f.root_iff
    rw [roots_add made, mem_children_add made, l.parentOf_add made]
    grind
  case rooted =>
    intro x mem
    have start {y : Id} (old : y ∈ s.children) : ∃ root ∈ t.roots, t.Below y root := by
      obtain ⟨root, top, below⟩ := f.rooted old
      refine ⟨root, ?_, l.below_add made below⟩
      rw [roots_add made]
      split
      · exact List.mem_append_left _ top
      · exact top
    obtain rfl | old := (mem_children_add made).1 mem
    · cases parent with
      | none => exact ⟨x, by simp [roots_add made], .refl⟩
      | some p =>
        obtain ⟨root, top, below⟩ := start (parent_mem_of_add made rfl)
        exact ⟨root, top, .head (by rw [l.parentOf_add made, if_pos rfl]) below⟩
    · exact start old
  case named =>
    intro mem
    obtain same | old := (mem_children_add made).1 mem
    · exact ne_empty_of_add made same.symm
    · exact f.named old

end Add

section Remove

/-- The objects that go with those on the stack. -/
def Falls (s : Scene) (stack : List Id) (x : Id) : Prop := ∃ y ∈ stack, ObjectGraph.Leads s y x

/-- Whatever hangs below an object is the dropped one, or hangs below the same object still, or
hangs below one of the children that are left over. -/
theorem leads_drop_cases {a x : Id} (leads : ObjectGraph.Leads s a x) (id : Id) :
    x = id ∨ ObjectGraph.Leads (s.drop id) a x ∨
      ∃ c ∈ s.childrenOf id, ObjectGraph.Leads (s.drop id) c x := by
  induction leads using Relation.ReflTransGen.head_induction_on with
  | refl => exact .inr (.inl .refl)
  | @head a b child _ ih =>
    obtain same | below | left := ih
    · exact .inl same
    · by_cases dropped : a = id
      · exact .inr (.inr ⟨b, dropped ▸ child, below⟩)
      · have still : b ∈ (s.drop id).childrenOf a := by
          rw [childrenOf_drop, if_neg dropped]
          exact child
        exact .inr (.inl (.head still below))
    · exact .inr (.inr left)

/-- To fall is to be dropped first, or to fall with what is left over then. -/
theorem falls_cons_iff {id x : Id} {rest : List Id} :
    s.Falls (id :: rest) x ↔
      x = id ∨ (s.drop id).Falls ((s.childrenOf id).reverse ++ rest) x := by
  constructor
  · rintro ⟨y, mem, leads⟩
    obtain same | below | ⟨c, child, below⟩ := leads_drop_cases leads id
    · exact .inl same
    · obtain rfl | later := List.mem_cons.1 mem
      · obtain same | ⟨c, child, _⟩ := below.cases_head
        · exact .inl same.symm
        · have none : c ∈ (s.drop y).childrenOf y := child
          rw [childrenOf_drop, if_pos rfl] at none
          cases none
      · exact .inr ⟨y, List.mem_append_right _ later, below⟩
    · exact .inr ⟨c, List.mem_append_left _ (List.mem_reverse.2 child), below⟩
  · rintro (rfl | ⟨y, mem, leads⟩)
    · exact ⟨x, List.mem_cons_self, .refl⟩
    · have before : ObjectGraph.Leads s y x := by
        refine Relation.ReflTransGen.mono ?_ _ _ leads
        intro a b child
        have child : b ∈ (s.drop id).childrenOf a := child
        rw [childrenOf_drop] at child
        split at child
        · cases child
        · exact child
      obtain child | later : y ∈ s.childrenOf id ∨ y ∈ rest := by simpa using mem
      · exact ⟨id, List.mem_cons_self, .head child before⟩
      · exact ⟨y, List.mem_cons_of_mem _ later, before⟩

/-- What falls is gone without a trace, and all else is as it was. -/
structure Felled (s : Scene) (stack : List Id) (t : Scene) : Prop where
  roots : t.roots = s.roots
  gone : ∀ x, s.Falls stack x → x ∉ t.children ∧ t.parentOf x = none
  left : ∀ x, ¬s.Falls stack x → t.children[x]? = s.children[x]? ∧ t.parentOf x = s.parentOf x

theorem Felled.of_drop {id : Id} {rest : List Id}
    (f : (s.drop id).Felled ((s.childrenOf id).reverse ++ rest) t) : s.Felled (id :: rest) t where
  roots := f.roots
  gone x falls := by
    by_cases later : (s.drop id).Falls ((s.childrenOf id).reverse ++ rest) x
    · exact f.gone x later
    · have same : x = id := (falls_cons_iff.1 falls).resolve_right later
      obtain ⟨children, parent⟩ := f.left x later
      refine ⟨?_, by rw [parent, parentOf_drop, if_pos same]⟩
      intro mem
      rw [ExtTreeMap.mem_iff_isSome_getElem?, children, ← ExtTreeMap.mem_iff_isSome_getElem?] at mem
      exact (mem_children_drop.1 mem).1 same
  left x stays := by
    obtain ⟨other, later⟩ := not_or.1 (mt falls_cons_iff.2 stays)
    obtain ⟨children, parent⟩ := f.left x later
    refine ⟨?_, by rw [parent, parentOf_drop, if_neg other]⟩
    rw [children, drop, ExtTreeMap.getElem?_erase, if_neg]
    exact fun same => other (Std.compare_eq_iff_eq.1 same).symm

theorem felled_discard (s : Scene) (stack gone : List Id) :
    s.Felled stack (s.discard stack gone).2 := by
  fun_induction Scene.discard s stack gone with
  | case1 s gone =>
    constructor
    · rfl
    · rintro x ⟨_, mem, _⟩
      cases mem
    · intro x _
      exact ⟨rfl, rfl⟩
  | case2 s gone id rest known ih => exact Felled.of_drop ih
  | case3 s gone id rest unknown ih =>
    apply Felled.of_drop
    rw [childrenOf_of_not_mem unknown, drop_of_not_mem unknown]
    exact ih

/-- Detaching an object cuts nothing off below it. -/
theorem Linked.falls_detach_iff (l : s.Linked) {id x : Id} :
    (s.detach id).Falls [id] x ↔ s.Below x id := by
  rw [← l.leads_iff]
  constructor
  · rintro ⟨y, mem, leads⟩
    rw [← List.mem_singleton.1 mem]
    refine Relation.ReflTransGen.mono ?_ _ _ leads
    intro a b child
    have child : b ∈ (s.detach id).childrenOf a := child
    rw [l.childrenOf_detach] at child
    exact (List.mem_filter.1 child).1
  · intro leads
    refine ⟨id, List.mem_singleton_self id, ?_⟩
    induction leads with
    | refl => exact .refl
    | @tail a b _ child ih =>
      by_cases back : b = id
      · exact back ▸ .refl
      · apply ih.tail
        have still : b ∈ (s.detach id).childrenOf a := by
          rw [l.childrenOf_detach]
          exact List.mem_filter.2 ⟨child, by simpa using back⟩
        exact still

/-- Removing takes away an object and what is below it. What remains keeps its place, and its
children but for that object. -/
theorem Linked.remove_cases (l : s.Linked) {id : Id} {gone : List Id}
    (made : s.remove id = .ok (gone, t)) :
    id ∈ s.children ∧ t.roots = (s.detach id).roots ∧
    (∀ x, s.Below x id → x ∉ t.children ∧ t.parentOf x = none) ∧
    ∀ x, ¬s.Below x id → (x ∈ t.children ↔ x ∈ s.children) ∧ t.parentOf x = s.parentOf x ∧
      t.childrenOf x = (s.childrenOf x).filter (· ≠ id) := by
  unfold Scene.remove at made
  split at made
  · next known =>
    have felled := (s.detach id).felled_discard [id] []
    rw [Except.ok.inj made] at felled
    refine ⟨ExtTreeMap.contains_iff_mem.1 known, felled.roots, ?_, ?_⟩
    · intro x below
      exact felled.gone x (l.falls_detach_iff.2 below)
    · intro x apart
      obtain ⟨children, parent⟩ := felled.left x (mt l.falls_detach_iff.1 apart)
      have other : x ≠ id := by
        rintro rfl
        exact apart .refl
      refine ⟨?_, ?_, ?_⟩
      · rw [ExtTreeMap.mem_iff_isSome_getElem?, children, ← ExtTreeMap.mem_iff_isSome_getElem?,
          mem_children_detach]
      · rw [parent, parentOf_detach, if_neg other]
      · rw [← l.childrenOf_detach, childrenOf, childrenOf, ExtTreeMap.getD_eq_getD_getElem?,
          ExtTreeMap.getD_eq_getD_getElem?, children]
  · cases made

theorem roots_detach (s : Scene) (id : Id) :
    (s.detach id).roots =
      if s.parentOf id = none then s.roots.filter (· ≠ id) else s.roots := by
  unfold Scene.detach
  split
  · next p above => rw [if_neg (by simp [parentOf, above])]
  · next root => rw [if_pos (show s.parentOf id = none from root)]

theorem Forest.remove (f : s.Forest) {id : Id} {gone : List Id}
    (made : s.remove id = .ok (gone, t)) : t.Forest := by
  have l := f.linked
  have linked := l.remove made
  obtain ⟨known, roots, fallen, left⟩ := l.remove_cases made
  have stays {x : Id} (mem : x ∈ t.children) : ¬s.Below x id := fun below => (fallen x below).1 mem
  have top {x : Id} : x ∈ t.roots ↔ x ∈ s.roots ∧ x ≠ id := by
    rw [roots, roots_detach]
    split
    · simp
    · next child =>
      refine ⟨fun mem => ⟨mem, ?_⟩, And.left⟩
      rintro rfl
      exact child (f.root_iff.1 mem).2
  constructor
  case child_iff => exact linked.child_iff List.not_mem_nil
  case once =>
    intro p
    by_cases below : s.Below p id
    · rw [childrenOf_of_not_mem (fallen p below).1]
      exact List.nodup_nil
    · rw [(left p below).2.2]
      exact (f.once p).filter _
  case known => exact linked.known
  case roots_once =>
    rw [roots, roots_detach]
    split
    · exact f.roots_once.filter _
    · exact f.roots_once
  case root_iff =>
    intro x
    rw [top]
    constructor
    · rintro ⟨mem, other⟩
      obtain ⟨known, orphan⟩ := f.root_iff.1 mem
      have apart : ¬s.Below x id := by
        intro below
        obtain same | ⟨p, above, _⟩ := below.cases_head
        · exact other same
        · cases orphan.symm.trans above
      obtain ⟨kept, parent, _⟩ := left x apart
      exact ⟨kept.2 known, parent.trans orphan⟩
    · rintro ⟨mem, orphan⟩
      obtain ⟨kept, parent, _⟩ := left x (stays mem)
      refine ⟨f.root_iff.2 ⟨kept.1 mem, parent.symm.trans orphan⟩, ?_⟩
      rintro rfl
      exact stays mem .refl
  case rooted =>
    intro x mem
    obtain ⟨root, root_top, below⟩ := f.rooted ((left x (stays mem)).1.1 mem)
    -- nothing above an object that stays has fallen
    have apart := stays mem
    clear mem
    induction below using Relation.ReflTransGen.head_induction_on with
    | refl =>
      refine ⟨root, top.2 ⟨root_top, ?_⟩, .refl⟩
      rintro rfl
      exact apart .refl
    | @head a b above _ ih =>
      obtain ⟨last, last_top, onwards⟩ := ih fun below => apart (.head above below)
      exact ⟨last, last_top, .head ((left a apart).2.1.trans above) onwards⟩
  case named =>
    intro mem
    exact f.named ((left "" (stays mem)).1.1 mem)

end Remove

theorem Edited.forest (e : s.Edited) : s.Forest := by
  induction e with
  | empty => exact forest_empty
  | add _ made f => exact f.add made
  | addUnique _ made f =>
    obtain ⟨_, made⟩ := add_of_addUnique made
    exact f.add made
  | remove _ made f => exact f.remove made

section Calls

/-- Part after part, an edit comes to the same as all at once, and is refused before the first. -/
theorem Call.run_add (s : Scene) (id : Id) (parent : Option Id) :
    (Call.add id parent).run s =
      match s.add id parent with
      | .ok t => .ok () t
      | .error e => .error e s := by
  unfold Call.add Scene.add
  cases checked : Name.ensureUnique s.contains id with
  | error e =>
    simp [checked]
    rfl
  | ok =>
    cases parent with
    | none => simp [checked]
    | some p =>
      cases found : s.children[p]? with
      | none =>
        simp [checked, found]
        rfl
      | some siblings => simp [checked, found]

theorem Call.run_addUnique (s : Scene) (name : String) (parent : Option Id) :
    (Call.addUnique name parent).run s =
      match s.addUnique name parent with
      | .ok (id, t) => .ok id t
      | .error e => .error e s := by
  unfold Call.addUnique Scene.addUnique
  cases made : s.add (Name.makeUnique (.ofList s.ids) name) parent <;> simp [Call.run_add, made]

theorem Call.run_remove (s : Scene) (id : Id) :
    (Call.remove id).run s =
      match s.remove id with
      | .ok (gone, t) => .ok gone t
      | .error e => .error e s := by
  unfold Call.remove Scene.remove
  by_cases known : s.contains id <;> simp [known]

/-- What a step that is not refused can make of a scene. -/
inductive Change (s : Scene) : Scene → Prop
  | none : Change s s
  | add {t : Scene} {id : Id} {parent : Option Id} : s.add id parent = .ok t → Change s t
  | addUnique {t : Scene} {name id : Id} {parent : Option Id} :
      s.addUnique name parent = .ok (id, t) → Change s t
  | remove {t : Scene} {id : Id} {gone : List Id} : s.remove id = .ok (gone, t) → Change s t
  | read {t : Scene} {text : String} : ofYaml text = .ok t → Change s t

theorem Step.act_cases (step : Step) (s : Scene) :
    (∃ e, step.act.run s = .error e s) ∨
      ∃ answer t, step.act.run s = .ok answer t ∧ s.Change t := by
  cases step with
  | add id parent =>
    cases made : s.add id parent with
    | ok t => exact .inr ⟨.added, t, by simp [Step.act, Call.run_add, made], .add made⟩
    | error e => exact .inl ⟨e, by simp [Step.act, Call.run_add, made]⟩
  | addUnique name parent =>
    cases made : s.addUnique name parent with
    | ok added =>
      exact .inr ⟨.addedAs added.1, added.2, by simp [Step.act, Call.run_addUnique, made],
        .addUnique made⟩
    | error e => exact .inl ⟨e, by simp [Step.act, Call.run_addUnique, made]⟩
  | remove id =>
    cases made : s.remove id with
    | ok left =>
      exact .inr ⟨.removed left.1, left.2, by simp [Step.act, Call.run_remove, made], .remove made⟩
    | error e => exact .inl ⟨e, by simp [Step.act, Call.run_remove, made]⟩
  | reload =>
    cases read : ofYaml s.toYaml with
    | ok t => exact .inr ⟨.reloaded, t, by simp [Step.act, read], .read read⟩
    | error e => exact .inl ⟨e, by simp [Step.act, read]⟩
  | parentOf | childrenOf | contains | subtree | toYaml => exact .inr ⟨_, s, rfl, .none⟩

theorem Edited.change (e : s.Edited) (change : s.Change t) : t.Edited := by
  cases change with
  | none => exact e
  | add made => exact e.add made
  | addUnique made => exact e.addUnique made
  | remove made => exact e.remove made
  | read made =>
    unfold ofYaml at made
    split at made
    · cases made
    · exact edited_ofEntries made

/-- The scenes that one starts with: the empty one, and those that are read from graph files. -/
inductive Initial : Scene → Prop
  | empty : Initial empty
  | file {s : Scene} {text : String} : ofYaml text = .ok s → Initial s

/-- The scene after the steps, those that are refused among them. -/
def after (s : Scene) : List Step → Scene
  | [] => s
  | step :: steps => (leaves (step.act.run s)).after steps

theorem Initial.edited (i : s.Initial) : s.Edited := by
  cases i with
  | empty => exact .empty
  | file read => exact Edited.empty.change (.read read)

theorem Edited.after (e : s.Edited) (steps : List Step) : (s.after steps).Edited := by
  induction steps generalizing s with
  | nil => exact e
  | cons step rest ih =>
    apply ih
    obtain ⟨_, refused⟩ | ⟨_, t, done, change⟩ := step.act_cases s
    · rw [refused]
      exact e
    · rw [done]
      exact e.change change

/-- Whatever calls are made from the start on, successful or not, the scene is a forest, and a
call that is refused leaves it alone. -/
theorem Initial.forest_after (i : s.Initial) (steps : List Step) :
    (s.after steps).Forest ∧
      ∀ (step : Step) e t, step.act.run (s.after steps) = .error e t → t = s.after steps := by
  refine ⟨(i.edited.after steps).forest, ?_⟩
  intro step e t failed
  obtain ⟨_, refused⟩ | ⟨_, _, done, _⟩ := step.act_cases (s.after steps)
  · cases refused.symm.trans failed
    rfl
  · cases done.symm.trans failed

/-- A hall with a lamp in it. -/
def hallFile : String := "objects:\n- id: hall\n- id: lamp\n  parent: hall\n"

def hall : Scene :=
  match ofEntries [⟨"hall", none⟩, ⟨"lamp", some "hall"⟩] with
  | .ok s => s
  | .error _ => .empty

/-- The lamp is not added again. It goes with the oil in it. -/
def hallSteps : List Step := [.add "lamp" none, .add "oil" (some "lamp"), .remove "lamp"]

theorem hall_forest :
    ofYaml hallFile = .ok hall ∧ (hall.after hallSteps).Forest ∧
      (hall.after hallSteps).ids = ["hall"] ∧
        ∃ e t, (Step.add "oil" (some "lamp")).act.run (hall.after hallSteps) = .error e t ∧
          t = hall.after hallSteps := by
  have read : ofYaml hallFile = .ok hall := by
    have told : Decode.ofText? decodeEntries hallFile =
        some [⟨"hall", none⟩, ⟨"lamp", some "hall"⟩] := by cbv
    simp only [ofYaml, told]
    cbv
  have names : (hall.after hallSteps).ids = ["hall"] := by cbv
  have missing : (hall.after hallSteps).add "oil" (some "lamp") = .error (.notFound "lamp") := by
    cbv
  obtain ⟨forest, kept⟩ := (Initial.file read).forest_after hallSteps
  have refused : (Step.add "oil" (some "lamp")).act.run (hall.after hallSteps) =
      .error (.notFound "lamp") (hall.after hallSteps) := by
    simp [Step.act, Call.run_add, missing]
  exact ⟨read, forest, names, _, _, refused, kept _ _ _ refused⟩

end Calls

end SceneLock.Scene
