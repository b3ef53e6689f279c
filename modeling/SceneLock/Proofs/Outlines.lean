import Mathlib.Data.List.Basic
import SceneLock.Proofs.Nesting
import SceneLock.Scene.Outline

/-!
The outline of a subtree is the subtree. Its lines come from going down from child to child, and
their depths from going up from parent to parent. They agree, and from the lines alone one can tell
where every object hangs.
-/

namespace SceneLock.Scene

open Std ObjectGraph

variable {s t : Scene} {root x p : Id} {n m : Nat}

section Depths

/-- Going up from an object until one stands at the root or cannot go on: how many parents one comes
to, and how it ends. Nothing is forgotten on the way. -/
inductive Climbs (s : Scene) (root : Id) : Id → Nat → Exit → Prop
  | found : s.Climbs root root 0 .found
  | lost {x : Id} : x ≠ root → s.parentOf x = none → s.Climbs root x 0 .lost
  | step {x p : Id} {n : Nat} {e : Exit} :
      x ≠ root → s.parentOf x = some p → s.Climbs root p n e → s.Climbs root x (n + 1) e

theorem Climbs.unique {e e' : Exit} (one : s.Climbs root x n e) (other : s.Climbs root x m e') :
    n = m ∧ e = e' := by
  induction one generalizing m with
  | found =>
    cases other with
    | found => exact ⟨rfl, rfl⟩
    | lost away => exact absurd rfl away
    | step away => exact absurd rfl away
  | lost away orphan =>
    cases other with
    | found => exact absurd rfl away
    | lost => exact ⟨rfl, rfl⟩
    | step _ above => cases orphan.symm.trans above
  | step away above _ ih =>
    cases other with
    | found => exact absurd rfl away
    | lost _ orphan => cases orphan.symm.trans above
    | step _ also rest =>
      cases above.symm.trans also
      obtain ⟨rfl, rfl⟩ := ih rest
      exact ⟨rfl, rfl⟩

theorem Below.exists_climbs (below : s.Below x root) : ∃ n, s.Climbs root x n .found := by
  induction below using Relation.ReflTransGen.head_induction_on with
  | refl => exact ⟨0, .found⟩
  | @head a b above _ ih =>
    by_cases here : a = root
    · exact ⟨0, here ▸ .found⟩
    · obtain ⟨n, rest⟩ := ih
      exact ⟨n + 1, .step here above rest⟩

/-- A link that was followed is not needed again, for the way up does not come back. -/
theorem Forest.climb_eq (f : s.Forest) {e : Exit} (climbs : s.Climbs root x n e)
    {parents : ExtTreeMap Id Id} (same : ∀ y, s.Below x y → parents[y]? = s.parentOf y) :
    climb parents root x = (n, e) := by
  induction climbs generalizing parents with
  | found => rw [climb, if_pos rfl]
  | @lost x away orphan =>
    have unknown : x ∉ parents := by
      rw [ExtTreeMap.mem_iff_isSome_getElem?, same x .refl, orphan]
      exact Bool.false_ne_true
    rw [climb, if_neg away, dif_neg unknown]
  | @step x p n e away above _ ih =>
    obtain ⟨known, rfl⟩ := ExtTreeMap.getElem?_eq_some_iff.1 ((same x .refl).trans above)
    have rest : ∀ y, s.Below parents[x] y → (parents.erase x)[y]? = s.parentOf y := by
      intro y up
      have other : x ≠ y := by
        rintro rfl
        exact f.acyclic above up
      rw [ExtTreeMap.getElem?_erase, if_neg (mt Std.compare_eq_iff_eq.1 other)]
      exact same y (.head above up)
    rw [climb, if_neg away, dif_pos known, ih rest]

/-- The way up from what is below the root ends at the root, after as many steps as its depth. -/
theorem Forest.climbs_iff (f : s.Forest) (below : s.Below x root) {e : Exit} :
    s.Climbs root x n e ↔ n = s.depthBelow root x ∧ e = .found := by
  obtain ⟨k, climbs⟩ := below.exists_climbs
  have climbed : climb s.parents root x = (k, .found) := f.climb_eq climbs fun _ _ => rfl
  rw [depthBelow, climbed]
  constructor
  · exact fun also => also.unique climbs
  · rintro ⟨rfl, rfl⟩
    exact climbs

theorem Forest.climb_eq_found (f : s.Forest) (below : s.Below x root) :
    climb s.parents root x = (s.depthBelow root x, .found) :=
  f.climb_eq ((f.climbs_iff below).2 ⟨rfl, rfl⟩) fun _ _ => rfl

theorem depthBelow_self (s : Scene) (root : Id) : s.depthBelow root root = 0 := by
  rw [depthBelow, climb, if_pos rfl]

theorem Forest.depthBelow_of_parent (f : s.Forest) (above : s.parentOf x = some p)
    (below : s.Below p root) : s.depthBelow root x = s.depthBelow root p + 1 := by
  have away : x ≠ root := by
    rintro rfl
    exact f.acyclic above below
  have climbs := Climbs.step away above ((f.climbs_iff below).2 ⟨rfl, rfl⟩)
  exact ((f.climbs_iff (.head above below)).1 climbs).1.symm

theorem Forest.depthBelow_lt (f : s.Forest) (below : s.Below x p) (other : x ≠ p)
    (deep : s.Below p root) : s.depthBelow root p < s.depthBelow root x := by
  induction below using Relation.ReflTransGen.head_induction_on with
  | refl => exact absurd rfl other
  | @head a b above rest ih =>
    rw [f.depthBelow_of_parent above (rest.trans deep)]
    by_cases same : b = p
    · rw [same]
      omega
    · have := ih same
      omega

end Depths

section Lines

/-- The nearest line before that is one less deep. -/
def lineAbove (before : List (Nat × Id)) (depth : Nat) : Option (Nat × Id) :=
  before.reverse.find? (·.1 + 1 = depth)

theorem lineAbove_eq_some {front between : List (Nat × Id)} {line : Nat × Id}
    (deep : ∀ other ∈ between, line.1 < other.1) :
    lineAbove (front ++ line :: between) (line.1 + 1) = some line := by
  have none : between.reverse.find? (·.1 + 1 = line.1 + 1) = none := by
    refine List.find?_eq_none.2 fun other mem => ?_
    have := deep other (List.mem_reverse.1 mem)
    simp only [decide_eq_true_eq]
    omega
  rw [lineAbove, List.reverse_append, List.reverse_cons, List.append_assoc, List.find?_append, none]
  simp

theorem append_cons_inj_of_nodup {A : Type} {a : A} {before after front back : List A}
    (once : (before ++ a :: after).Nodup) (same : before ++ a :: after = front ++ a :: back) :
    before = front ∧ after = back := by
  rw [same] at once
  have alone := (List.nodup_cons.1 (List.nodup_middle.1 once)).1
  obtain ⟨early, late⟩ := not_or.1 (mt List.mem_append.2 alone)
  obtain ⟨first, _, second⟩ := (List.append_cons_inj_of_notMem early late).1 same.symm
  exact ⟨first.symm, second.symm⟩

/-- Between an object and its parent a subtree lists nothing but what is below the parent too. -/
theorem Forest.exists_between (f : s.Forest) (known : root ∈ s.children) {before after : List Id}
    (split : subtree s root = before ++ x :: after) (later : before ≠ []) :
    ∃ front p between, before = front ++ p :: between ∧ s.parentOf x = some p ∧ s.Below p root ∧
      ∀ y ∈ between, s.Below y p ∧ y ≠ p := by
  have once : (before ++ x :: after).Nodup := split ▸ nodup_subtree s root
  have other : x ≠ root := by
    rintro rfl
    have first : [] ++ x :: (s.childrenOf x).flatMap (subtree s) = before ++ x :: after :=
      (f.subtree_eq_cons known).symm.trans split
    exact later (append_cons_inj_of_nodup (first ▸ once) first).1.symm
  have below : s.Below x root := by
    rw [← f.mem_subtree_iff known, split]
    simp
  obtain same | ⟨p, above, up⟩ := below.cases_head
  · exact absurd same other
  have parent := (f.known above).2
  obtain ⟨front, back, piece⟩ := f.subtree_eq_append known up
  rw [f.subtree_eq_cons parent] at piece
  obtain ⟨between, rest, inner⟩ : ∃ between rest,
      (s.childrenOf p).flatMap (subtree s) = between ++ x :: rest := by
    have mem : x ∈ subtree s p := (f.mem_subtree_iff parent).2 (.single above)
    rw [f.subtree_eq_cons parent] at mem
    obtain rfl | mem := List.mem_cons.1 mem
    · exact absurd .refl (f.acyclic above)
    · exact List.append_of_mem mem
  refine ⟨front, p, between, ?_, above, up, ?_⟩
  · have same : before ++ x :: after = (front ++ p :: between) ++ x :: (rest ++ back) := by
      rw [← split, piece, inner]
      simp
    exact (append_cons_inj_of_nodup once same).1
  · intro y mem
    have inside : subtree s p = p :: (between ++ x :: rest) := by
      rw [f.subtree_eq_cons parent, inner]
    have only := inside ▸ nodup_subtree s p
    constructor
    · rw [← f.mem_subtree_iff parent, inside]
      simp [mem]
    · rintro rfl
      exact (List.nodup_cons.1 only).1 (List.mem_append_left _ mem)

theorem map_snd_outline (s : Scene) (root : Id) :
    (s.outline root).map Prod.snd = subtree s root := by
  rw [outline, List.map_map]
  exact List.map_id _

/-- What every line but the first tells of its object. -/
theorem Forest.later_line (f : s.Forest) (known : root ∈ s.children) {depth : Nat}
    {before after : List (Nat × Id)} (split : s.outline root = before ++ (depth, x) :: after)
    (later : before ≠ []) :
    1 ≤ depth ∧ (∀ line, before.getLast? = some line → depth ≤ line.1 + 1) ∧
      ∃ p, s.parentOf x = some p ∧ lineAbove before depth = some (depth - 1, p) := by
  obtain ⟨ids, tail, parts, rfl, lines⟩ := List.map_eq_append_iff.1 split
  obtain ⟨y, rest, rfl, line, rfl⟩ := List.map_eq_cons_iff.1 lines
  cases line
  have filled : ids ≠ [] := by simpa using later
  obtain ⟨front, p, between, rfl, above, up, inside⟩ := f.exists_between known parts filled
  have depth : s.depthBelow root x = s.depthBelow root p + 1 := f.depthBelow_of_parent above up
  have deeper : ∀ y ∈ between, s.depthBelow root p < s.depthBelow root y := by
    intro y mem
    exact f.depthBelow_lt (inside y mem).1 (inside y mem).2 up
  refine ⟨by omega, ?_, p, above, ?_⟩
  · intro line last
    rw [List.map_append, List.map_cons, List.getLast?_append_cons] at last
    obtain rfl | mem := List.mem_cons.1 (List.mem_of_getLast? last)
    · exact depth.le
    · obtain ⟨y, among, rfl⟩ := List.mem_map.1 mem
      have := deeper y among
      simp only
      omega
  · rw [List.map_append, List.map_cons, depth, Nat.add_sub_cancel]
    apply lineAbove_eq_some
    simpa using deeper

/-- Two scenes with the same outline have the same subtree, child by child. -/
theorem Forest.outline_determines (f : s.Forest) (g : t.Forest) (known : root ∈ s.children)
    {top : Id} (same : t.outline top = s.outline root) :
    top = root ∧ ∀ x ∈ subtree s root,
      t.childrenOf x = s.childrenOf x ∧ (x ≠ root → t.parentOf x = s.parentOf x) := by
  have ids : subtree t top = subtree s root := by
    rw [← map_snd_outline, same, map_snd_outline]
  have known_top : top ∈ t.children := by
    refine ExtTreeMap.contains_iff_mem.1 (Classical.byContradiction fun unknown => ?_)
    rw [subtree_eq_nil_iff.2 (Bool.eq_false_iff.2 unknown), f.subtree_eq_cons known] at ids
    cases ids
  obtain rfl : top = root := by
    rw [f.subtree_eq_cons known, g.subtree_eq_cons known_top] at ids
    exact List.head_eq_of_cons_eq ids
  have parents {x : Id} (mem : x ∈ subtree s top) (away : x ≠ top) :
      t.parentOf x = s.parentOf x := by
    have listed : (s.depthBelow top x, x) ∈ s.outline top := List.mem_map_of_mem mem
    obtain ⟨before, after, split⟩ := List.append_of_mem listed
    have later : before ≠ [] := by
      rintro rfl
      rw [outline, f.subtree_eq_cons known] at split
      exact away (congrArg Prod.snd (List.head_eq_of_cons_eq split)).symm
    obtain ⟨_, _, p, above, line⟩ := f.later_line known split later
    obtain ⟨_, _, q, also, line'⟩ := g.later_line known_top (same.trans split) later
    cases line.symm.trans line'
    rw [above, also]
  refine ⟨rfl, fun x mem => ⟨?_, parents mem⟩⟩
  have below : s.Below x top := (f.mem_subtree_iff known).1 mem
  have also : t.Below x top := (g.mem_subtree_iff known_top).1 (ids ▸ mem)
  rw [f.childrenOf_eq_filter known below, g.childrenOf_eq_filter known_top also, ids]
  refine List.filter_congr fun y among => ?_
  by_cases here : y = top
  · subst here
    have one : s.parentOf y ≠ some x := fun above => f.acyclic above below
    have other : t.parentOf y ≠ some x := fun above => g.acyclic above also
    simp [one, other]
  · rw [parents among here]

/-- What the outline of a subtree tells: its objects, each before the subtrees of its children, how
far it is from each up to the root, and below which earlier line it stands. -/
structure OutlineOf (s : Scene) (root : Id) (lines : List (Nat × Id)) : Prop where
  objects : ∀ x, x ∈ subtree s root ↔ s.Below x root
  once : (subtree s root).Nodup
  preorder : ∀ x ∈ subtree s root, subtree s x = x :: (s.childrenOf x).flatMap (subtree s)
  listed : lines.map Prod.snd = subtree s root
  climbed : ∀ line ∈ lines, climb s.parents root line.2 = (line.1, .found)
  climbs : ∀ line ∈ lines, ∀ n e, s.Climbs root line.2 n e ↔ n = line.1 ∧ e = .found
  first : lines.head? = some (0, root)
  later : ∀ before depth x after, lines = before ++ (depth, x) :: after → before ≠ [] →
    1 ≤ depth ∧ (∀ line, before.getLast? = some line → depth ≤ line.1 + 1) ∧
      ∃ p, s.parentOf x = some p ∧ lineAbove before depth = some (depth - 1, p)

theorem Forest.outlineOf (f : s.Forest) (known : root ∈ s.children) :
    s.OutlineOf root (s.outline root) := by
  constructor
  case objects =>
    intro x
    exact f.mem_subtree_iff known
  case once => exact nodup_subtree s root
  case preorder =>
    intro x mem
    exact f.subtree_eq_cons (f.known_of_below known ((f.mem_subtree_iff known).1 mem))
  case listed => exact map_snd_outline s root
  case climbed =>
    intro line mem
    obtain ⟨x, among, rfl⟩ := List.mem_map.1 mem
    exact f.climb_eq_found ((f.mem_subtree_iff known).1 among)
  case climbs =>
    intro line mem n e
    obtain ⟨x, among, rfl⟩ := List.mem_map.1 mem
    exact f.climbs_iff ((f.mem_subtree_iff known).1 among)
  case first =>
    rw [outline, f.subtree_eq_cons known, List.map_cons, List.head?_cons, depthBelow_self]
  case later =>
    intro before depth x after split filled
    exact f.later_line known split filled

/-- What is printed below an object that exists is its outline, each line indented by two spaces for
every step up to the root, and the outline is the subtree: it holds the objects that are below the
root, it shows where each of them hangs, and there is no other subtree with the same outline. -/
theorem Edited.outline_is_subtree (e : s.Edited) (known : root ∈ s.children) :
    s.OutlineOf root (s.outline root) ∧
      s.outlineText root = .ok (String.join ((s.outline root).map fun line =>
        String.ofList (List.replicate (2 * line.1) ' ') ++ line.2 ++ "\n")) ∧
      ∀ t top, Edited t → t.outline top = s.outline root → top = root ∧
        ∀ x ∈ subtree s root,
          t.childrenOf x = s.childrenOf x ∧ (x ≠ root → t.parentOf x = s.parentOf x) := by
  have outlined := e.forest.outlineOf known
  refine ⟨outlined, ?_, ?_⟩
  · have first := outlined.first
    unfold outlineText
    split
    · next none =>
      rw [none] at first
      cases first
    · rfl
  · intro t top built same
    exact e.forest.outline_determines built.forest known same

/-- A box with a tin in it, in which there is a pin, and with a map. -/
def box : Scene :=
  sketch [⟨"box", none⟩, ⟨"tin", some "box"⟩, ⟨"pin", some "tin"⟩, ⟨"map", some "box"⟩]

theorem box_outline :
    box.Edited ∧ "box" ∈ box.children ∧
      box.outlineText "box" = .ok "box\n  tin\n    pin\n  map\n" ∧
      box.parentOf "map" = some "box" := by
  have built : box.Edited := edited_sketch _
  have known : "box" ∈ box.children := by decide +kernel
  have lines : box.outline "box" = [(0, "box"), (1, "tin"), (2, "pin"), (1, "map")] := by cbv
  obtain ⟨outlined, text, _⟩ := built.outline_is_subtree known
  refine ⟨built, known, ?_, ?_⟩
  · rw [text, lines]
    rfl
  · obtain ⟨_, _, p, above, line⟩ :=
      outlined.later [(0, "box"), (1, "tin"), (2, "pin")] 1 "map" [] lines (by simp)
    cases line
    exact above

end Lines

end SceneLock.Scene
