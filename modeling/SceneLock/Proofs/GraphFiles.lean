import Mathlib
import SceneLock.Proofs.Forest

/-!
Graph files: what is listed of a scene comes in an order in which it can be read again, and reading
it gives the scene back, with its roots and all children in their places. The loop that lists it
need not look whether an object was listed before.
-/

namespace SceneLock.Scene

open Std Yaml

variable {s t : Scene}

section Reading

theorem ofEntries_concat_iff {entries : List Entry} {last : Entry} :
    ofEntries (entries ++ [last]) = .ok t ↔
      ∃ s, ofEntries entries = .ok s ∧ s.add last.id last.parent = .ok t := by
  unfold ofEntries
  rw [List.foldlM_append]
  cases entries.foldlM (fun s e => s.add e.id e.parent) empty <;>
    simp [bind, Except.bind, pure, Except.pure]
  split <;> simp_all

/-- A list with one more at its end is taken apart there, or further to the front. -/
theorem concat_eq_append_cons_iff {α : Type} {xs before after : List α} {last x : α} :
    xs ++ [last] = before ++ x :: after ↔
      (xs = before ∧ last = x ∧ after = []) ∨
        ∃ more, after = more ++ [last] ∧ xs = before ++ x :: more := by
  constructor
  · intro split
    obtain rfl | ⟨more, final, rfl⟩ := after.eq_nil_or_concat'
    · obtain ⟨rfl, same⟩ := List.append_inj' split rfl
      exact .inl ⟨rfl, List.head_eq_of_cons_eq same, rfl⟩
    · have split : xs ++ [last] = (before ++ x :: more) ++ [final] := by simpa using split
      obtain ⟨rfl, same⟩ := List.append_inj' split rfl
      exact .inr ⟨more, by rw [same], rfl⟩
  · rintro (⟨rfl, rfl, rfl⟩ | ⟨more, rfl, rfl⟩)
    · rfl
    · simp

/-- What can be read names no object twice, and no parent after a child of it. -/
theorem ordered_of_ofEntries {entries : List Entry} (read : ofEntries entries = .ok s) :
    (entries.map Entry.id).Nodup ∧ (∀ x, x ∈ entries.map Entry.id ↔ x ∈ s.children) ∧
      ∀ before e after, entries = before ++ e :: after → ∀ p, e.parent = some p →
        p ∈ before.map Entry.id := by
  induction entries using List.reverseRecOn generalizing s with
  | nil =>
    cases read
    refine ⟨List.nodup_nil, by simp [empty], ?_⟩
    intro before e after split
    simp at split
  | append_singleton entries last ih =>
    obtain ⟨r, earlier, made⟩ := ofEntries_concat_iff.1 read
    obtain ⟨once, objects, order⟩ := ih earlier
    have fresh := (add_cases made).1
    refine ⟨?_, ?_, ?_⟩
    · rw [List.map_append, List.map_singleton]
      exact List.nodup_append_comm.1 (List.nodup_cons.2 ⟨mt (objects _).1 fresh, once⟩)
    · intro x
      rw [mem_children_add made, ← objects]
      simp [or_comm]
    · intro before e after split p above
      obtain ⟨rfl, rfl, _⟩ | ⟨more, _, shorter⟩ := concat_eq_append_cons_iff.1 split
      · exact (objects p).2 (parent_mem_of_add made above)
      · exact order before e more shorter p above

end Reading

section Rebuilding

/-- What is listed of an object. -/
def entry (s : Scene) (id : Id) : Entry := ⟨id, s.parentOf id⟩

/-- One turn of the loop over a stack that lists a scene. The object on top is listed, and its
children come in its place. -/
def listTop (s : Scene) : List Entry × List Id → List Entry × List Id
  | (listed, []) => (listed, [])
  | (listed, id :: rest) => (s.entry id :: listed, s.childrenOf id ++ rest)

/-- After these turns the stack is empty, and not before. This is what has been listed then. -/
def ListedAfter (s : Scene) (turns : Nat) (start : List Entry × List Id) (all : List Entry) :
    Prop :=
  s.listTop^[turns] start = (all.reverse, []) ∧ ∀ k < turns, (s.listTop^[k] start).2 ≠ []

theorem ListedAfter.next {turns : Nat} {listed all : List Entry} {id : Id} {rest : List Id}
    (ends : s.ListedAfter turns (s.entry id :: listed, s.childrenOf id ++ rest) all) :
    s.ListedAfter (turns + 1) (listed, id :: rest) all := by
  refine ⟨ends.1, fun k few => ?_⟩
  cases k with
  | zero => exact List.cons_ne_nil _ _
  | succ k => exact ends.2 k (by omega)

/-- What reading has come to, when some objects are listed and others are still to be: the listed
ones have their parents, and all that is missing from the child lists and the roots is on the stack,
in order. -/
structure Rebuilt (s : Scene) (visited stack : List Id) (g : Scene) : Prop where
  read : ofEntries (visited.reverse.map s.entry) = .ok g
  real : ∀ x ∈ visited, x ∈ s.children
  parents : ∀ x ∈ visited, g.parentOf x = s.parentOf x
  children : ∀ p ∈ visited,
    s.childrenOf p = g.childrenOf p ++ stack.filter (s.parentOf · = some p)
  roots : s.roots = g.roots ++ stack.filter (s.parentOf · = none)
  waiting : ∀ x ∈ stack, x ∈ s.children ∧ x ∉ visited ∧ ∀ p, s.parentOf x = some p → p ∈ visited
  once : stack.Nodup

variable {visited rest : List Id} {id : Id} {g : Scene}

theorem exists_add {parent : Option Id} (named : id ≠ "") (fresh : id ∉ s.children)
    (known : ∀ p, parent = some p → p ∈ s.children) : ∃ t, s.add id parent = .ok t := by
  have free : Name.ensureUnique s.contains id = .ok () := by
    unfold Name.ensureUnique
    rw [if_neg named, if_neg]
    exact fun taken => fresh (ExtTreeMap.contains_iff_mem.1 taken)
  cases parent with
  | none => exact ⟨_, by rw [add, free]; rfl⟩
  | some p =>
    obtain ⟨siblings, found⟩ :=
      Option.isSome_iff_exists.1 (ExtTreeMap.mem_iff_isSome_getElem?.1 (known p rfl))
    exact ⟨_, by simp only [add, free, found]; rfl⟩

theorem Rebuilt.mem_iff (r : s.Rebuilt visited rest g) {x : Id} : x ∈ g.children ↔ x ∈ visited := by
  rw [← (ordered_of_ofEntries r.read).2.1]
  simp [entry]

theorem Forest.rebuilt_nil (f : s.Forest) : s.Rebuilt [] s.roots empty where
  read := rfl
  real x mem := by cases mem
  parents x mem := by cases mem
  children p mem := by cases mem
  roots := by
    refine (List.filter_eq_self.2 fun x mem => ?_).symm
    simpa using (f.root_iff.1 mem).2
  waiting x mem := by
    obtain ⟨known, orphan⟩ := f.root_iff.1 mem
    refine ⟨known, List.not_mem_nil, ?_⟩
    intro p above
    cases orphan.symm.trans above
  once := f.roots_once

/-- The next object is listed, and its children come to wait in its place. -/
theorem Rebuilt.next (f : s.Forest) (r : s.Rebuilt visited (id :: rest) g) :
    ∃ g', s.Rebuilt (id :: visited) (s.childrenOf id ++ rest) g' := by
  obtain ⟨known, fresh, above⟩ := r.waiting id List.mem_cons_self
  obtain ⟨unlisted, once⟩ := List.nodup_cons.1 r.once
  have linked := (edited_ofEntries r.read).linked
  obtain ⟨g', made⟩ : ∃ g', g.add id (s.parentOf id) = .ok g' :=
    exists_add (fun e => f.named (e ▸ known)) (mt r.mem_iff.1 fresh)
      fun p up => r.mem_iff.2 (above p up)
  have child {x : Id} : x ∈ s.childrenOf id ↔ s.parentOf x = some id := f.child_iff
  -- nothing on the stack hangs below the object yet
  have apart {x : Id} (mem : x ∈ rest) : s.parentOf x ≠ some id := fun up =>
    fresh ((r.waiting x (List.mem_cons_of_mem _ mem)).2.2 id up)
  have orphans : (s.childrenOf id).filter (s.parentOf · = none) = [] := by
    refine List.filter_eq_nil_iff.2 fun x mem => ?_
    simp [child.1 mem]
  refine ⟨g', ?_⟩
  constructor
  case read =>
    rw [List.reverse_cons, List.map_append]
    exact ofEntries_concat_iff.2 ⟨g, r.read, made⟩
  case real =>
    intro x mem
    obtain rfl | earlier := List.mem_cons.1 mem
    · exact known
    · exact r.real x earlier
  case parents =>
    intro x mem
    rw [linked.parentOf_add made]
    split
    · next same => rw [same]
    · next other => exact r.parents x ((List.mem_cons.1 mem).resolve_left other)
  case children =>
    intro p mem
    rw [childrenOf_add made, List.filter_append]
    split
    · next same =>
      subst same
      have own : (s.childrenOf p).filter (s.parentOf · = some p) = s.childrenOf p :=
        List.filter_eq_self.2 fun x mem => by simpa using child.1 mem
      have none : rest.filter (s.parentOf · = some p) = [] :=
        List.filter_eq_nil_iff.2 fun x mem => by simpa using apart mem
      rw [own, none, List.append_nil, List.nil_append]
    · next other =>
      have before := r.children p ((List.mem_cons.1 mem).resolve_left other)
      have none : (s.childrenOf id).filter (s.parentOf · = some p) = [] := by
        refine List.filter_eq_nil_iff.2 fun x mem => ?_
        simpa [child.1 mem] using Ne.symm other
      rw [none, List.nil_append, before, List.filter_cons]
      split
      · next up => simp [of_decide_eq_true up]
      · next up => simp [show s.parentOf id ≠ some p from of_decide_eq_false (by simpa using up)]
  case roots =>
    rw [roots_add made, List.filter_append, orphans, List.nil_append, r.roots, List.filter_cons]
    split
    · next top => simp [of_decide_eq_true top]
    · next below => simp [show s.parentOf id ≠ none from of_decide_eq_false (by simpa using below)]
  case waiting =>
    intro x mem
    obtain down | later := List.mem_append.1 mem
    · have up := child.1 down
      refine ⟨(f.known up).1, ?_, ?_⟩
      · intro seen
        obtain rfl | earlier := List.mem_cons.1 seen
        · exact fresh (above x up)
        · have listed := (linked.known ((r.parents x earlier).trans up)).2
          exact fresh (r.mem_iff.1 listed)
      · intro p also
        rw [← Option.some.inj (up.symm.trans also)]
        exact List.mem_cons_self
    · obtain ⟨real, new, parents⟩ := r.waiting x (List.mem_cons_of_mem _ later)
      refine ⟨real, ?_, fun p up => List.mem_cons_of_mem _ (parents p up)⟩
      intro seen
      obtain rfl | earlier := List.mem_cons.1 seen
      · exact unlisted later
      · exact new earlier
  case once =>
    refine List.Nodup.append (f.once id) once ?_
    intro x down later
    exact apart later (child.1 down)

/-- Two scenes are the same if they have the same objects, in the same places. -/
theorem ext (objects : ∀ x, x ∈ s.children ↔ x ∈ t.children)
    (children : ∀ x, s.childrenOf x = t.childrenOf x) (parents : ∀ x, s.parentOf x = t.parentOf x)
    (roots : s.roots = t.roots) : s = t := by
  have lists : s.children = t.children := by
    apply ExtTreeMap.ext_getElem?
    intro x
    by_cases known : x ∈ s.children
    · have same := children x
      have also := (objects x).1 known
      simp only [childrenOf, ExtTreeMap.getD_eq_getD_getElem?,
        ExtTreeMap.getElem?_eq_some_getElem known, ExtTreeMap.getElem?_eq_some_getElem also,
        Option.getD_some] at same ⊢
      rw [same]
    · rw [ExtTreeMap.getElem?_eq_none known, ExtTreeMap.getElem?_eq_none (mt (objects x).2 known)]
  have ups : s.parents = t.parents := ExtTreeMap.ext_getElem? parents
  cases s
  cases t
  cases lists
  cases ups
  cases roots
  rfl

/-- When nothing waits any more, everything is listed. -/
theorem Rebuilt.complete (f : s.Forest) (r : s.Rebuilt visited [] g) : g = s := by
  have built := (edited_ofEntries r.read).forest
  have roots : g.roots = s.roots := by simpa using r.roots.symm
  have children {p : Id} (seen : p ∈ visited) : g.childrenOf p = s.childrenOf p := by
    simpa using (r.children p seen).symm
  have all {x : Id} (known : x ∈ s.children) : x ∈ visited := by
    obtain ⟨root, top, below⟩ := f.rooted known
    clear known
    induction below using Relation.ReflTransGen.head_induction_on with
    | refl => exact r.mem_iff.1 (built.root_iff.1 (roots ▸ top)).1
    | @head a b up _ seen =>
      have listed : a ∈ g.childrenOf b := children seen ▸ f.child_iff.2 up
      exact r.mem_iff.1 (built.linked.listed listed)
  have objects (x : Id) : x ∈ g.children ↔ x ∈ s.children :=
    r.mem_iff.trans ⟨r.real x, all⟩
  refine ext objects (fun x => ?_) (fun x => ?_) roots
  · by_cases known : x ∈ s.children
    · exact children (all known)
    · rw [childrenOf_of_not_mem known, childrenOf_of_not_mem (mt (objects x).1 known)]
  · by_cases known : x ∈ s.children
    · exact r.parents x (all known)
    · rw [f.linked.parentOf_of_not_mem known,
        built.linked.parentOf_of_not_mem (mt (objects x).1 known)]

theorem Rebuilt.read_walk (f : s.Forest) {stack : List Id} (r : s.Rebuilt visited stack g) :
    ofEntries ((ObjectGraph.walk s visited stack).map s.entry) = .ok s := by
  fun_induction ObjectGraph.walk s visited stack generalizing g with
  | case1 visited => rw [r.read, r.complete f]
  | case2 visited id rest seen => exact absurd seen (r.waiting id List.mem_cons_self).2.1
  | case3 visited id rest _ ih =>
    obtain ⟨g', next⟩ := r.next f
    exact ih next

/-- Nothing that waits has been listed before, so every turn lists one object more. -/
theorem Rebuilt.listedAfter (f : s.Forest) {stack : List Id} (r : s.Rebuilt visited stack g) :
    ∃ more, ObjectGraph.walk s visited stack = visited.reverse ++ more ∧
      s.ListedAfter more.length (visited.map s.entry, stack)
        ((ObjectGraph.walk s visited stack).map s.entry) := by
  fun_induction ObjectGraph.walk s visited stack generalizing g with
  | case1 visited =>
    refine ⟨[], (List.append_nil _).symm, ?_, ?_⟩
    · simp [List.map_reverse]
    · intro k few
      exact absurd few (Nat.not_lt_zero k)
  | case2 visited id rest seen => exact absurd seen (r.waiting id List.mem_cons_self).2.1
  | case3 visited id rest _ ih =>
    obtain ⟨g', next⟩ := r.next f
    obtain ⟨more, listed, ends⟩ := ih next
    refine ⟨id :: more, ?_, ends.next⟩
    rw [listed, List.reverse_cons, List.append_assoc]
    rfl

theorem Forest.entries_listedAfter (f : s.Forest) :
    s.ListedAfter s.entries.length ([], s.roots) s.entries := by
  obtain ⟨more, listed, ends⟩ := f.rebuilt_nil.listedAfter f
  have all : ObjectGraph.walk s [] s.roots = more := listed
  rw [entries, List.length_map, all]
  rw [all] at ends
  exact ends

/-- The loop that lists a scene ends, with one turn for every object, though it does not look
whether an object was listed before. What is listed names every object once, with its parent, no
parent after a child of it, and gives the very same scene when it is read again. -/
theorem Edited.reads_back (e : s.Edited) :
    s.ListedAfter s.entries.length ([], s.roots) s.entries ∧
      (s.entries.map Entry.id).Nodup ∧ (∀ x, x ∈ s.entries.map Entry.id ↔ x ∈ s.children) ∧
      (∀ entry ∈ s.entries, entry.parent = s.parentOf entry.id) ∧
      (∀ before entry after, s.entries = before ++ entry :: after → ∀ p, entry.parent = some p →
        p ∈ before.map Entry.id) ∧
      ofEntries s.entries = .ok s ∧
      (Decode.ofText? decodeEntries s.toYaml = some s.entries → ofYaml s.toYaml = .ok s) := by
  have read : ofEntries s.entries = .ok s := e.forest.rebuilt_nil.read_walk e.forest
  obtain ⟨once, objects, order⟩ := ordered_of_ofEntries read
  refine ⟨e.forest.entries_listedAfter, once, objects, ?_, order, read, ?_⟩
  · intro entry mem
    obtain ⟨x, _, rfl⟩ := List.mem_map.1 mem
    rfl
  · intro parsed
    simp only [ofYaml, parsed, read]

/-- A yard with a nest in it, from which a swing is gone, and an attic. -/
def yard : Scene :=
  match (do
    let s ← ofEntries
      [⟨"yard", none⟩, ⟨"swing", some "yard"⟩, ⟨"attic", none⟩, ⟨"nest", some "yard"⟩]
    s.remove "swing") with
  | .ok (_, s) => s
  | .error _ => .empty

theorem yard_reads_back :
    yard.Edited ∧ yard.entries = [⟨"yard", none⟩, ⟨"nest", some "yard"⟩, ⟨"attic", none⟩] ∧
      ofYaml yard.toYaml = .ok yard := by
  have built : yard.Edited := by
    unfold yard
    split
    · next made =>
      simp only [bind, Except.bind] at made
      split at made
      · cases made
      · next read => exact (edited_ofEntries read).remove made
    · exact .empty
  have listed : yard.entries = [⟨"yard", none⟩, ⟨"nest", some "yard"⟩, ⟨"attic", none⟩] := by cbv
  have parsed : Decode.ofText? decodeEntries yard.toYaml = some yard.entries := by
    rw [toYaml, listed]
    cbv
  obtain ⟨_, _, _, _, _, _, back⟩ := built.reads_back
  exact ⟨built, listed, back parsed⟩

end Rebuilding

end SceneLock.Scene
