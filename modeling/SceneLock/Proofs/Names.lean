import Mathlib
import SceneLock.Proofs.Digits
import SceneLock.Proofs.Readings

/-!
Names that are given out. The first free name is found after no more numbers than there are taken
names, so that a short count is enough for them. An object that is added under such a name is new,
and no two are added under the same one.
-/

namespace SceneLock

open Std

namespace Name

variable {taken : Names} {base : String} {j k : Nat}

theorem candidate_succ (base : String) (k : Nat) :
    candidate base (k + 1) = base ++ "_" ++ toString (k + 1) := rfl

theorem candidate_ne_base (base : String) (k : Nat) : candidate base (k + 1) ≠ base := by
  intro same
  have length := congrArg String.length same
  have mark : "_".length = 1 := rfl
  rw [candidate_succ, String.length_append, String.length_append] at length
  omega

theorem candidate_inj (same : candidate base j = candidate base k) : j = k := by
  match j, k with
  | 0, 0 => rfl
  | 0, k + 1 => exact absurd same.symm (candidate_ne_base base k)
  | j + 1, 0 => exact absurd same (candidate_ne_base base j)
  | j + 1, k + 1 =>
    have chars := congrArg String.toList same
    simp only [candidate_succ, String.toList_append, toList_toString] at chars
    have digits := List.append_cancel_left chars
    simpa using congrArg (Nat.ofDigitChars 10 · 0) digits

/-- The names derived from a base name are taken up to this number, which is free. -/
structure FirstFree (taken : Names) (base : String) (k : Nat) : Prop where
  free : candidate base k ∉ taken
  before : ∀ j < k, candidate base j ∈ taken

/-- A name that is struck off is none of those that come later. -/
theorem mem_erase_candidate_iff (less : k < j) :
    candidate base j ∈ taken.erase (candidate base k) ↔ candidate base j ∈ taken := by
  rw [ExtTreeSet.mem_erase, and_iff_right]
  intro same
  have := candidate_inj (Std.compare_eq_iff_eq.1 same)
  omega

theorem firstFree_cases (base : String) (k : Nat) (taken : Names) :
    ∃ n ≤ taken.size, firstFree base k taken = candidate base (k + n) ∧
      candidate base (k + n) ∉ taken ∧ ∀ j < n, candidate base (k + j) ∈ taken := by
  fun_induction firstFree base k taken with
  | case1 k taken here ih =>
    obtain ⟨n, few, found, free, before⟩ := ih
    rw [ExtTreeSet.size_erase, if_pos (ExtTreeSet.contains_iff_mem.2 here)] at few
    have some : taken.size ≠ 0 := by
      intro none
      simp [ExtTreeSet.eq_empty_iff_size_eq_zero.2 none] at here
    refine ⟨n + 1, by omega, ?_, ?_, ?_⟩
    · rw [found, Nat.add_right_comm, Nat.add_assoc]
    · rwa [mem_erase_candidate_iff (by omega), Nat.add_right_comm, Nat.add_assoc] at free
    · intro j less
      cases j with
      | zero => exact here
      | succ j =>
        have taken := before j (by omega)
        rwa [mem_erase_candidate_iff (by omega), Nat.add_right_comm, Nat.add_assoc] at taken
  | case2 k taken free =>
    exact ⟨0, Nat.zero_le _, rfl, free, fun j less => absurd less (Nat.not_lt_zero j)⟩

/-- No more numbers are tried than there are taken names. -/
theorem exists_firstFree (taken : Names) (base : String) :
    ∃ k ≤ taken.size, FirstFree taken base k ∧ makeUnique taken base = candidate base k := by
  obtain ⟨k, few, found, free, before⟩ := firstFree_cases base 0 taken
  simp only [Nat.zero_add] at found free before
  exact ⟨k, few, ⟨free, before⟩, found⟩

theorem makeUnique_not_mem (taken : Names) (base : String) : makeUnique taken base ∉ taken := by
  obtain ⟨k, _, first, found⟩ := exists_firstFree taken base
  rw [found]
  exact first.free

/-- Only the empty name can become the empty name. -/
theorem makeUnique_eq_empty_iff (named : "" ∉ taken) : makeUnique taken base = "" ↔ base = "" := by
  obtain ⟨k, _, first, found⟩ := exists_firstFree taken base
  rw [found]
  cases k with
  | zero => rfl
  | succ k =>
    have here : base ∈ taken := first.before 0 (Nat.zero_lt_succ k)
    constructor
    · intro empty
      have length := congrArg String.length empty
      have mark : "_".length = 1 := rfl
      rw [candidate_succ, String.length_append, String.length_append, String.length_empty] at length
      omega
    · rintro rfl
      exact absurd here named

section Search

/-- The search as a loop that looks up one name after the other, and counts the names it makes in 32
bits. It gives up after so many rounds. -/
def search (taken : Names) (base : String) :
    (rounds : Nat) → (name : String) → (count : Int32) → Option String
  | rounds, name, count =>
    if name ∈ taken then
      match rounds with
      | 0 => none
      | rounds + 1 => search taken base rounds s!"{base}_{count}" (count + 1)
    else some name

theorem toString_ofNat (small : k < 2 ^ 31) : toString (Int32.ofNat k) = toString k := by
  have value : (Int32.ofNat k).toInt = k := Int32.toInt_ofNat_of_lt small
  show toString (Int32.ofNat k).toInt = toString k
  rw [value]
  rfl

/-- The loop comes to the first free name before the count runs out of bits. -/
theorem search_eq {rounds : Nat} (first : FirstFree taken base (k + j)) (enough : j ≤ rounds)
    (small : k + j < 2 ^ 31) :
    search taken base rounds (candidate base k) (.ofNat (k + 1)) =
      some (candidate base (k + j)) := by
  induction j generalizing k rounds with
  | zero =>
    unfold search
    rw [if_neg (show candidate base k ∉ taken from first.free)]
    rfl
  | succ j ih =>
    obtain ⟨more, rfl⟩ : ∃ more, rounds = more + 1 := ⟨rounds - 1, by omega⟩
    have next : s!"{base}_{Int32.ofNat (k + 1)}" = candidate base (k + 1) := by
      show base ++ "_" ++ toString (Int32.ofNat (k + 1)) = _
      rw [toString_ofNat (by omega), candidate_succ]
    have count : Int32.ofNat (k + 1) + 1 = Int32.ofNat (k + 1 + 1) := (Int32.ofNat_add _ _).symm
    rw [search, if_pos (first.before k (by omega))]
    simp only [next, count]
    have same : k + (j + 1) = k + 1 + j := by omega
    rw [same] at first small ⊢
    exact ih first (Nat.le_of_succ_le_succ enough) small

end Search

end Name

namespace Scene

variable {s t : Scene} {name : String} {id : Id} {parent : Option Id}

theorem mem_names_iff {x : Id} : x ∈ (.ofList s.ids : Name.Names) ↔ x ∈ s.children := by
  rw [ExtTreeSet.mem_ofList, List.contains_iff_mem, ids, ExtTreeMap.mem_keys]

/-- The object is new, and it is all that is new: the last child of its parent, or a root. -/
structure Added (s : Scene) (id : Id) (parent : Option Id) (t : Scene) : Prop where
  fresh : id ∉ s.children
  known : id ∈ t.children
  under : t.parentOf id = parent
  child_iff : ∀ p, id ∈ t.childrenOf p ↔ parent = some p
  root_iff : id ∈ t.roots ↔ parent = none
  others : ∀ x, x ≠ id → (x ∈ t.children ↔ x ∈ s.children) ∧ t.parentOf x = s.parentOf x

theorem Forest.added (f : s.Forest) (made : s.add id parent = .ok t) : s.Added id parent t := by
  have after := f.add made
  have known : id ∈ t.children := (mem_children_add made).2 (.inl rfl)
  have under : t.parentOf id = parent := by rw [f.linked.parentOf_add made, if_pos rfl]
  constructor
  case fresh => exact (add_cases made).1
  case known => exact known
  case under => exact under
  case child_iff =>
    intro p
    rw [after.child_iff, under]
  case root_iff => rw [after.root_iff, under, and_iff_right known]
  case others =>
    intro x other
    rw [mem_children_add made, or_iff_right other, f.linked.parentOf_add made, if_neg other]
    exact ⟨.rfl, rfl⟩

theorem Call.run_addUnique_eq (s : Scene) (name : String) (parent : Option Id) :
    (Call.addUnique name parent).run s =
      match s.add (Name.makeUnique (.ofList s.ids) name) parent with
      | .ok t => .ok (Name.makeUnique (.ofList s.ids) name) t
      | .error e => .error e s := by
  rw [Call.run_addUnique, Scene.addUnique]
  cases s.add (Name.makeUnique (.ofList s.ids) name) parent <;> rfl

/-- Nothing can be added without a name, or below an object that is not there. -/
def Hopeless (s : Scene) (name : String) (parent : Option Id) : Prop :=
  name = "" ∨ ∃ p, parent = some p ∧ p ∉ s.children

theorem Forest.run_addUnique_cases (f : s.Forest) (name : String) (parent : Option Id) :
    (s.Hopeless name parent ∧ ∃ e, (Call.addUnique name parent).run s = .error e s) ∨
      ¬s.Hopeless name parent ∧ ∃ t, s.add (Name.makeUnique (.ofList s.ids) name) parent = .ok t ∧
        (Call.addUnique name parent).run s =
          .ok (Name.makeUnique (.ofList s.ids) name) t := by
  have unnamed : "" ∉ (.ofList s.ids : Name.Names) := mt mem_names_iff.1 f.named
  have fresh := mt mem_names_iff.2 (Name.makeUnique_not_mem (.ofList s.ids) name)
  rw [Call.run_addUnique_eq]
  cases made : s.add (Name.makeUnique (.ofList s.ids) name) parent with
  | ok t =>
    refine .inr ⟨?_, t, rfl, rfl⟩
    rintro (empty | ⟨p, under, missing⟩)
    · exact ne_empty_of_add made ((Name.makeUnique_eq_empty_iff unnamed).2 empty)
    · exact missing (parent_mem_of_add made under)
  | error e =>
    have objects (x : Id) : x ∈ s.children ↔ x ∈ s.ids := ExtTreeMap.mem_keys.symm
    have offends : Entry.Offends s.ids ⟨Name.makeUnique (.ofList s.ids) name, parent⟩ e :=
      (add_eq_error_iff objects).1 made
    refine .inl ⟨?_, e, rfl⟩
    cases offends with
    | unnamed empty => exact .inl ((Name.makeUnique_eq_empty_iff unnamed).1 empty)
    | repeated _ old => exact absurd ((objects _).2 old) fresh
    | orphaned _ _ above missing => exact .inr ⟨_, above, mt (objects _).1 missing⟩

/-- Adds one object after the other, each under the first free name for it, and lists the names that
are given out. What is refused gets none. -/
def addAll : List (String × Option Id) → Scene → List Id × Scene
  | [], s => ([], s)
  | (name, parent) :: rest, s =>
    match (Call.addUnique name parent).run s with
    | .ok id t => (id :: (addAll rest t).1, (addAll rest t).2)
    | .error _ t => addAll rest t

/-- Whatever is there stays, so that no name is given out again. -/
theorem Forest.addAll_fresh (f : s.Forest) (calls : List (String × Option Id)) :
    (addAll calls s).1.Nodup ∧ (∀ x ∈ s.children, x ∈ (addAll calls s).2.children) ∧
      ∀ id ∈ (addAll calls s).1, id ∉ s.children ∧ id ∈ (addAll calls s).2.children := by
  induction calls generalizing s with
  | nil => exact ⟨List.nodup_nil, fun x mem => mem, fun id mem => by cases mem⟩
  | cons call rest ih =>
    obtain ⟨name, parent⟩ := call
    rw [addAll]
    obtain ⟨_, e, refused⟩ | ⟨_, t, made, done⟩ := f.run_addUnique_cases name parent
    · rw [refused]
      exact ih f
    · rw [done]
      obtain ⟨once, stay, given⟩ := ih (f.add made)
      have old {x : Id} (mem : x ∈ s.children) : x ∈ t.children :=
        (mem_children_add made).2 (.inr mem)
      have new : Name.makeUnique (.ofList s.ids) name ∈ t.children :=
        (mem_children_add made).2 (.inl rfl)
      refine ⟨List.nodup_cons.2 ⟨fun again => (given _ again).1 new, once⟩, ?_, ?_⟩
      · intro x mem
        exact stay x (old mem)
      · intro id mem
        obtain rfl | later := List.mem_cons.1 mem
        · exact ⟨(add_cases made).1, stay _ new⟩
        · exact ⟨mt old (given id later).1, (given id later).2⟩

/-- The first free name is found before the numbers run out, and no number below it would do. Under
it an object is added to any scene, unless it has no name or no place, and then the scene stays as
it is. No name is given out twice. -/
theorem Edited.unique_names (e : s.Edited) :
    (∀ (taken : Name.Names) (name : String), taken.size < 2 ^ 31 →
      ∃ k ≤ taken.size, Name.FirstFree taken name k ∧
        Name.makeUnique taken name = Name.candidate name k ∧
        Name.search taken name taken.size name 1 = some (Name.makeUnique taken name)) ∧
    (∀ name parent,
      ((∃ err t, (Call.addUnique name parent).run s = .error err t) ↔ s.Hopeless name parent) ∧
      (∀ err t, (Call.addUnique name parent).run s = .error err t → t = s) ∧
      ∀ id t, (Call.addUnique name parent).run s = .ok id t →
        id = Name.makeUnique (.ofList s.ids) name ∧ s.Added id parent t) ∧
    ∀ calls, (addAll calls s).1.Nodup ∧
      ∀ id ∈ (addAll calls s).1, id ∉ s.children ∧ id ∈ (addAll calls s).2.children := by
  refine ⟨fun taken name few => ?_, fun name parent => ?_, fun calls => ?_⟩
  · obtain ⟨k, within, first, found⟩ := Name.exists_firstFree taken name
    refine ⟨k, within, first, found, ?_⟩
    rw [found]
    rw [← Nat.zero_add k] at first ⊢
    exact Name.search_eq first within (by omega)
  · obtain ⟨hopeless, err, refused⟩ | ⟨fine, t, made, done⟩ :=
      e.forest.run_addUnique_cases name parent
    · rw [refused]
      refine ⟨iff_of_true ⟨err, s, rfl⟩ hopeless, fun _ t failed => ?_, fun id t added => ?_⟩
      · cases failed
        rfl
      · cases added
    · rw [done]
      refine ⟨iff_of_false (fun ⟨_, _, failed⟩ => by cases failed) fine, fun _ _ failed => ?_, ?_⟩
      · cases failed
      · intro id t added
        cases added
        exact ⟨rfl, e.forest.added made⟩
  · obtain ⟨once, _, given⟩ := e.forest.addAll_fresh calls
    exact ⟨once, given⟩

/-- Boxes, some of them with numbers, one of them in another. -/
def boxes : Scene := sketch [⟨"box", none⟩, ⟨"box_1", some "box"⟩, ⟨"box_3", none⟩]

/-- Objects for it, one of them for a box that is not there. -/
def deliveries : List (String × Option Id) :=
  [("box", none), ("box", some "box_9"), ("box_1", some "box_2"), ("box", none)]

theorem boxes_unique_names :
    boxes.Edited ∧ (ExtTreeSet.ofList boxes.ids : Name.Names).size < 2 ^ 31 ∧
      (∃ t, (Call.addUnique "box" (some "box_1")).run boxes = .ok "box_2" t ∧
        boxes.Added "box_2" (some "box_1") t) ∧
      (∃ e, (Call.addUnique "box" (some "box_9")).run boxes = .error e boxes) ∧
      (addAll deliveries boxes).1 = ["box_2", "box_1_1", "box_4"] ∧
      (addAll deliveries boxes).1.Nodup := by
  have edited : boxes.Edited := edited_sketch _
  obtain ⟨_, each, all⟩ := edited.unique_names
  have free : Name.makeUnique (.ofList boxes.ids) "box" = "box_2" := by decide +kernel
  have keys : boxes.children.keys = ["box", "box_1", "box_3"] := by decide +kernel
  have mem_iff (x : Id) : x ∈ boxes.children ↔ x ∈ ["box", "box_1", "box_3"] := by
    rw [← keys, ExtTreeMap.mem_keys]
  have hopeful : ¬boxes.Hopeless "box" (some "box_1") := by
    rintro (empty | ⟨p, under, missing⟩)
    · exact absurd empty (by decide)
    · cases under
      exact missing ((mem_iff "box_1").2 (by decide))
  have hopeless : boxes.Hopeless "box" (some "box_9") :=
    .inr ⟨"box_9", rfl, mt (mem_iff "box_9").1 (by decide)⟩
  refine ⟨edited, by decide +kernel, ?_, ?_, by decide +kernel, (all deliveries).1⟩
  · obtain ⟨refusal, _, given⟩ := each "box" (some "box_1")
    cases done : (Call.addUnique "box" (some "box_1")).run boxes with
    | ok id t =>
      obtain ⟨name, added⟩ := given id t done
      rw [free] at name
      subst name
      exact ⟨t, rfl, added⟩
    | error e t => exact absurd (refusal.1 ⟨e, t, done⟩) hopeful
  · obtain ⟨refusal, kept, _⟩ := each "box" (some "box_9")
    obtain ⟨e, t, refused⟩ := refusal.2 hopeless
    cases kept e t refused
    exact ⟨e, refused⟩

end Scene

end SceneLock
