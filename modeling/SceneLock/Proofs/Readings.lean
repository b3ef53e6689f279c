import Mathlib
import SceneLock.Proofs.GraphFiles

/-!
What a graph file means. Objects are read line by line, each into the scene that the lines before it
have made. All the same the file can be read as a whole: which lines may stand in it, where each
object hangs, and which line is the first that may not stand where it does.
-/

namespace SceneLock.Scene

open Std Yaml

section Lines

/-- What may come next in a file after these objects. -/
structure Entry.Fits (earlier : List Id) (e : Entry) : Prop where
  named : e.id ≠ ""
  fresh : e.id ∉ earlier
  known : ∀ p, e.parent = some p → p ∈ earlier

/-- What is wrong with an entry that may not come next. Its name is looked at first. -/
inductive Entry.Offends (earlier : List Id) (e : Entry) : LockError → Prop
  | unnamed : e.id = "" → e.Offends earlier .nameMissing
  | repeated : e.id ≠ "" → e.id ∈ earlier → e.Offends earlier (.nameTaken e.id)
  | orphaned {p : Id} :
      e.id ≠ "" → e.id ∉ earlier → e.parent = some p → p ∉ earlier →
        e.Offends earlier (.notFound p)

theorem Entry.fits_or_offends (earlier : List Id) (e : Entry) :
    e.Fits earlier ∨ ∃ err, e.Offends earlier err := by
  by_cases named : e.id = ""
  · exact .inr ⟨_, .unnamed named⟩
  by_cases taken : e.id ∈ earlier
  · exact .inr ⟨_, .repeated named taken⟩
  by_cases known : ∀ p, e.parent = some p → p ∈ earlier
  · exact .inl ⟨named, taken, known⟩
  · obtain ⟨p, above, missing⟩ : ∃ p, e.parent = some p ∧ p ∉ earlier := by simpa using known
    exact .inr ⟨_, .orphaned named taken above missing⟩

variable {s t : Scene} {earlier : List Id} {e : Entry} {err : LockError}

theorem exists_add_iff (objects : ∀ x, x ∈ s.children ↔ x ∈ earlier) :
    (∃ t, s.add e.id e.parent = .ok t) ↔ e.Fits earlier := by
  constructor
  · rintro ⟨t, made⟩
    constructor
    · exact ne_empty_of_add made
    · exact mt (objects e.id).2 (add_cases made).1
    · intro p above
      exact (objects p).1 (parent_mem_of_add made above)
  · intro fits
    refine exists_add fits.named (mt (objects e.id).1 fits.fresh) ?_
    intro p above
    exact (objects p).2 (fits.known p above)

theorem add_of_offends (objects : ∀ x, x ∈ s.children ↔ x ∈ earlier)
    (offends : e.Offends earlier err) : s.add e.id e.parent = .error err := by
  have taken {x : Id} : s.contains x = true ↔ x ∈ earlier :=
    ExtTreeMap.contains_iff_mem.trans (objects x)
  unfold add Name.ensureUnique
  cases offends with
  | unnamed unnamed =>
    rw [if_pos unnamed]
    rfl
  | repeated named old =>
    rw [if_neg named, if_pos (taken.2 old)]
    rfl
  | @orphaned p named fresh above missing =>
    have unknown : s.children[p]? = none :=
      ExtTreeMap.getElem?_eq_none (mt (objects p).1 missing)
    rw [if_neg named, if_neg (mt taken.1 fresh)]
    simp only [above, unknown]
    rfl

theorem add_eq_error_iff (objects : ∀ x, x ∈ s.children ↔ x ∈ earlier) :
    s.add e.id e.parent = .error err ↔ e.Offends earlier err := by
  refine ⟨fun failed => ?_, add_of_offends objects⟩
  obtain fits | ⟨cause, offends⟩ := e.fits_or_offends earlier
  · obtain ⟨t, made⟩ := (exists_add_iff objects).2 fits
    cases failed.symm.trans made
  · cases failed.symm.trans (add_of_offends objects offends)
    exact offends

end Lines

section Files

/-- Every entry fits what comes before it. -/
def WellOrdered (entries : List Entry) : Prop :=
  ∀ before e after, entries = before ++ e :: after → e.Fits (before.map Entry.id)

/-- The scene that a file means: its objects, each under its parent, in the order of the lines. -/
structure AsListed (s : Scene) (entries : List Entry) : Prop where
  objects : ∀ x, x ∈ s.ids ↔ x ∈ entries.map Entry.id
  roots : s.roots = (entries.filter (·.parent = none)).map Entry.id
  children : ∀ p, s.childrenOf p = (entries.filter (·.parent = some p)).map Entry.id
  parents : ∀ e ∈ entries, s.parentOf e.id = e.parent

variable {s t : Scene} {entries before after : List Entry} {e last : Entry} {err : LockError}

theorem wellOrdered_concat_iff :
    WellOrdered (entries ++ [last]) ↔ WellOrdered entries ∧ last.Fits (entries.map Entry.id) := by
  constructor
  · intro ordered
    refine ⟨?_, ordered entries last [] rfl⟩
    rintro before e more rfl
    exact ordered before e (more ++ [last]) (by simp)
  · rintro ⟨ordered, fits⟩ before e after split
    obtain ⟨rfl, rfl, _⟩ | ⟨more, _, shorter⟩ := concat_eq_append_cons_iff.1 split
    · exact fits
    · exact ordered before e more shorter

theorem objects_of_ofEntries (read : ofEntries entries = .ok s) (x : Id) :
    x ∈ s.children ↔ x ∈ entries.map Entry.id :=
  ((ordered_of_ofEntries read).2.1 x).symm

theorem exists_ofEntries_iff : (∃ s, ofEntries entries = .ok s) ↔ WellOrdered entries := by
  induction entries using List.reverseRecOn with
  | nil => exact iff_of_true ⟨empty, rfl⟩ fun before e after split => by simp at split
  | append_singleton entries last ih =>
    rw [wellOrdered_concat_iff, ← ih]
    constructor
    · rintro ⟨t, read⟩
      obtain ⟨s, earlier, made⟩ := ofEntries_concat_iff.1 read
      exact ⟨⟨s, earlier⟩, (exists_add_iff (objects_of_ofEntries earlier)).1 ⟨t, made⟩⟩
    · rintro ⟨⟨s, earlier⟩, fits⟩
      obtain ⟨t, made⟩ := (exists_add_iff (objects_of_ofEntries earlier)).2 fits
      exact ⟨t, ofEntries_concat_iff.2 ⟨s, earlier, made⟩⟩

theorem ofEntries_concat_eq_error_iff :
    ofEntries (entries ++ [last]) = .error err ↔ ofEntries entries = .error err ∨
      ∃ s, ofEntries entries = .ok s ∧ s.add last.id last.parent = .error err := by
  unfold ofEntries
  rw [List.foldlM_append]
  cases entries.foldlM (fun s e => s.add e.id e.parent) empty with
  | error cause => simp [bind, Except.bind]
  | ok s =>
    simp only [List.foldlM_cons, List.foldlM_nil, bind, Except.bind, reduceCtorEq, false_or,
      Except.ok.injEq, exists_eq_left']
    cases s.add last.id last.parent <;> simp [pure, Except.pure]

theorem ofEntries_eq_error_iff :
    ofEntries entries = .error err ↔
      ∃ before e after, entries = before ++ e :: after ∧ WellOrdered before ∧
        e.Offends (before.map Entry.id) err := by
  induction entries using List.reverseRecOn with
  | nil =>
    refine iff_of_false (fun failed => by cases failed) ?_
    rintro ⟨before, e, after, split, _⟩
    simp at split
  | append_singleton entries last ih =>
    rw [ofEntries_concat_eq_error_iff, ih]
    constructor
    · rintro (⟨before, e, after, rfl, first⟩ | ⟨s, earlier, failed⟩)
      · exact ⟨before, e, after ++ [last], by simp, first⟩
      · have offends := (add_eq_error_iff (objects_of_ofEntries earlier)).1 failed
        exact ⟨entries, last, [], rfl, exists_ofEntries_iff.1 ⟨s, earlier⟩, offends⟩
    · rintro ⟨before, e, after, split, ordered, offends⟩
      obtain ⟨rfl, rfl, _⟩ | ⟨more, _, shorter⟩ := concat_eq_append_cons_iff.1 split
      · obtain ⟨s, earlier⟩ := exists_ofEntries_iff.2 ordered
        exact .inr ⟨s, earlier, (add_eq_error_iff (objects_of_ofEntries earlier)).2 offends⟩
      · exact .inl ⟨before, e, more, shorter, ordered, offends⟩

/-- The object of the next line comes last among the roots, or last among its siblings. -/
theorem AsListed.add (l : s.AsListed entries) (linked : s.Linked)
    (made : s.add last.id last.parent = .ok t) : t.AsListed (entries ++ [last]) := by
  have fresh := (add_cases made).1
  constructor
  case objects =>
    intro x
    rw [ids, ExtTreeMap.mem_keys, mem_children_add made, ← ExtTreeMap.mem_keys, ← ids,
      l.objects]
    simp [or_comm]
  case roots =>
    rw [roots_add made, l.roots, List.filter_append, List.map_append, List.filter_singleton]
    split <;> simp [*]
  case children =>
    intro p
    rw [childrenOf_add made, List.filter_append, List.map_append, ← l.children p,
      List.filter_singleton]
    split
    · next self =>
      -- the new object is not below itself, for what it is put under is there before it
      have above : last.parent ≠ some p := fun above =>
        fresh (self ▸ parent_mem_of_add made above)
      rw [childrenOf_of_not_mem (self ▸ fresh)]
      simp [above]
    · split <;> simp [*]
  case parents =>
    intro e mem
    rw [linked.parentOf_add made]
    obtain earlier | new := List.mem_append.1 mem
    · have known : e.id ∈ s.children :=
        ExtTreeMap.mem_keys.1 ((l.objects e.id).2 (List.mem_map_of_mem earlier))
      have other : e.id ≠ last.id := fun same => fresh (same ▸ known)
      rw [if_neg other, l.parents e earlier]
    · rw [List.mem_singleton.1 new, if_pos rfl]

theorem asListed_of_ofEntries (read : ofEntries entries = .ok s) : s.AsListed entries := by
  induction entries using List.reverseRecOn generalizing s with
  | nil =>
    cases read
    constructor <;> simp [empty, ids, childrenOf]
  | append_singleton entries last ih =>
    obtain ⟨r, earlier, made⟩ := ofEntries_concat_iff.1 read
    exact (ih earlier).add (edited_ofEntries earlier).linked made

/-- A list of objects can be read exactly if every entry fits what comes before it, and then it is
read as it is listed. Otherwise the first entry that does not fit is to blame. A file is read as the
list that stands in it. -/
theorem ofEntries_meaning (entries : List Entry) :
    ((∃ s, ofEntries entries = .ok s) ↔ WellOrdered entries) ∧
      (∀ s, ofEntries entries = .ok s → s.AsListed entries) ∧
      (∀ err, ofEntries entries = .error err ↔
        ∃ before e after, entries = before ++ e :: after ∧ WellOrdered before ∧
          e.Offends (before.map Entry.id) err) ∧
      ∀ text, Decode.ofText? decodeEntries text = some entries →
        ofYaml text = ofEntries entries := by
  refine ⟨exists_ofEntries_iff, fun s => asListed_of_ofEntries, ?_, ?_⟩
  · intro err
    exact ofEntries_eq_error_iff
  · intro text parsed
    simp only [ofYaml, parsed]

/-- A den with a desk, and then a den again, in a loft that is not there. -/
def denFile : String :=
  "objects:\n- id: den\n- id: desk\n  parent: den\n- id: den\n  parent: loft\n"

theorem denFile_nameTaken : ofYaml denFile = .error (.nameTaken "den") := by
  have parsed : Decode.ofText? decodeEntries denFile =
      some [⟨"den", none⟩, ⟨"desk", some "den"⟩, ⟨"den", some "loft"⟩] := by cbv
  obtain ⟨_, _, failure, text⟩ :=
    ofEntries_meaning [⟨"den", none⟩, ⟨"desk", some "den"⟩, ⟨"den", some "loft"⟩]
  have ordered : WellOrdered [⟨"den", none⟩, ⟨"desk", some "den"⟩] := by
    refine exists_ofEntries_iff.1 ?_
    exact ⟨_, rfl⟩
  rw [text denFile parsed, failure]
  refine ⟨[⟨"den", none⟩, ⟨"desk", some "den"⟩], ⟨"den", some "loft"⟩, [], rfl, ordered, ?_⟩
  exact .repeated (by decide) (by decide)

end Files

end SceneLock.Scene
