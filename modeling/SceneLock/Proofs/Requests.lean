import SceneLock.Proofs.Targets

/-!
What a target asks for, said without the steps that collect it. In which order the ids are named,
and how often, matters for the error alone.
-/

namespace SceneLock

open Std

variable {G : Type} [ObjectGraph G] {g : G} {target : Target} {claims : Claims}

/-- An object that is named is claimed itself. A root that is named claims all that it leads to. -/
def Target.Asks (target : Target) (g : G) (x : Id) : Claim → Prop
  | .direct => target.tree = false ∧ x ∈ target.ids
  | .tree root => target.tree ∧ root ∈ target.ids ∧ ObjectGraph.Leads g root x

theorem Target.asks_direct_iff (direct : target.tree = false) {x : Id} {claim : Claim} :
    target.Asks g x claim ↔ x ∈ target.ids ∧ claim = .direct := by
  cases claim with
  | direct => simp [Asks, direct]
  | tree root => simp [Asks, direct]

theorem Target.asks_tree_iff (tree : target.tree) {x : Id} {claim : Claim} :
    target.Asks g x claim ↔
      ∃ root ∈ target.ids, ObjectGraph.Leads g root x ∧ claim = .tree root := by
  cases claim with
  | direct => simp [Asks, tree]
  | tree root =>
    simp only [Asks, tree, true_and, Claim.tree.injEq]
    constructor
    · rintro ⟨named, leads⟩
      exact ⟨root, named, leads, rfl⟩
    · rintro ⟨_, named, leads, rfl⟩
      exact ⟨named, leads⟩

namespace Claims

/-- On every object lie the claims that the target asks for there, and no object is listed without
a claim. -/
structure Meet (claims : Claims) (g : G) (target : Target) : Prop where
  filled : claims.Filled
  asked : ∀ x claim, claim ∈ claims.getD x ∅ ↔ target.Asks g x claim

theorem meet_of_ofTarget (made : ofTarget g target = .ok claims) : claims.Meet g target where
  filled := filled_ofTarget made
  asked x claim := by
    rw [mem_ofTarget made]
    cases claim with
    | direct => simp only [Claim.Reaches, Claim.origin, Target.Asks, true_and, eq_comm]
    | tree root =>
      simp only [Claim.Reaches, Claim.origin, Target.Asks, ObjectGraph.mem_subtree_iff]
      constructor
      · rintro ⟨⟨_, leads⟩, shape, named⟩
        exact ⟨shape.symm, named, leads⟩
      · rintro ⟨shape, named, leads⟩
        exact ⟨⟨contains_of_ofTarget made named, leads⟩, shape.symm, named⟩

namespace Meet

theorem getElem?_eq_some_iff (meet : claims.Meet g target) {x : Id} {on : ExtTreeSet Claim} :
    claims[x]? = some on ↔ on ≠ ∅ ∧ ∀ claim, claim ∈ on ↔ target.Asks g x claim := by
  have asked := meet.asked x
  have filled := meet.filled x
  rw [ExtTreeMap.getD_eq_getD_getElem?] at asked
  simp only [← asked]
  cases laid : claims[x]? with
  | none =>
    simp only [reduceCtorEq, Option.getD_none, false_iff, not_and]
    intro some_claim same
    exact some_claim (ExtTreeSet.ext_mem same)
  | some there =>
    rw [laid] at filled
    simp only [Option.some.injEq, Option.getD_some]
    constructor
    · rintro rfl
      exact ⟨fun none => filled (congrArg some none), fun _ => Iff.rfl⟩
    · rintro ⟨_, same⟩
      exact (ExtTreeSet.ext_mem same).symm

theorem unique {other : Claims} (meet : claims.Meet g target) (too : other.Meet g target) :
    claims = other := by
  apply ExtTreeMap.ext_getElem?
  intro x
  apply Option.ext
  intro on
  rw [meet.getElem?_eq_some_iff, too.getElem?_eq_some_iff]

theorem congr {ids : List Id} (meet : claims.Meet g target)
    (same : ∀ id, id ∈ ids ↔ id ∈ target.ids) : claims.Meet g ⟨ids, target.tree⟩ where
  filled := meet.filled
  asked x claim := by
    rw [meet.asked]
    cases claim with
    | direct => exact and_congr_right fun _ => (same x).symm
    | tree root => exact and_congr_right fun _ => and_congr_left' (same root).symm

theorem mem_iff (meet : claims.Meet g target) {x : Id} :
    x ∈ claims ↔ ∃ claim, target.Asks g x claim := by
  simp only [← meet.asked x, ExtTreeMap.getD_eq_getD_getElem?, ExtTreeMap.mem_iff_isSome_getElem?]
  have filled := meet.filled x
  cases laid : claims[x]? with
  | none => simp
  | some on =>
    rw [laid] at filled
    have some_claim : ∃ claim, claim ∈ on := by
      simpa [ExtTreeSet.eq_empty_iff_forall_not_mem] using filled
    simpa using some_claim

/-- All objects that are named themselves have the same claims. -/
theorem getElem?_of_direct (meet : claims.Meet g target) (direct : target.tree = false) (x : Id) :
    claims[x]? = if x ∈ target.ids then some {.direct} else none := by
  have asks (claim : Claim) : target.Asks g x claim ↔ x ∈ target.ids ∧ claim = .direct :=
    target.asks_direct_iff direct
  have single (claim : Claim) : claim ∈ ({Claim.direct} : ExtTreeSet Claim) ↔ claim = .direct := by
    rw [ExtTreeSet.singleton_eq_insert, ExtTreeSet.mem_insert, Std.compare_eq_iff_eq]
    simp only [ExtTreeSet.not_mem_empty, or_false, eq_comm]
  split
  · next named =>
    rw [meet.getElem?_eq_some_iff]
    constructor
    · intro none
      have mem := (single .direct).2 rfl
      rw [none] at mem
      exact ExtTreeSet.not_mem_empty mem
    · intro claim
      rw [single, asks, and_iff_right named]
  · next other =>
    apply ExtTreeMap.getElem?_eq_none
    rw [meet.mem_iff]
    rintro ⟨claim, asked⟩
    exact other ((asks claim).1 asked).1

end Meet

theorem ofTarget_eq_emptyRequest_iff (g : G) (target : Target) :
    ofTarget g target = .error .emptyRequest ↔ target.ids = [] := by
  obtain ⟨none, e⟩ | ⟨before, id, after, named, _, _, e⟩ | ⟨some_id, _, claims, e⟩ :=
    ofTarget_cases g target
  · exact ⟨fun _ => none, fun _ => e⟩
  · simp [e, named]
  · simp [e, some_id]

theorem ofTarget_eq_notFound_iff (g : G) (target : Target) (id : Id) :
    ofTarget g target = .error (.notFound id) ↔
      target.ids.find? (fun id => !ObjectGraph.contains g id) = some id := by
  obtain ⟨none, e⟩ | ⟨before, first, after, named, known, unknown, e⟩ | ⟨_, known, claims, e⟩ :=
    ofTarget_cases g target
  · simp [e, none]
  · have found : target.ids.find? (fun id => !ObjectGraph.contains g id) = some first := by
      rw [List.find?_eq_some_iff_append]
      refine ⟨by simp [unknown], before, after, named, ?_⟩
      simpa using known
    rw [e, found]
    simp
  · have found : target.ids.find? (fun id => !ObjectGraph.contains g id) = none := by
      rw [List.find?_eq_none]
      simpa using known
    rw [e, found]
    simp

theorem ofTarget_eq_ok_iff (g : G) (target : Target) (claims : Claims) :
    ofTarget g target = .ok claims ↔
      target.ids ≠ [] ∧ (∀ id ∈ target.ids, ObjectGraph.contains g id) ∧ claims.Meet g target := by
  constructor
  · intro made
    refine ⟨?_, fun id named => contains_of_ofTarget made named, meet_of_ofTarget made⟩
    intro none
    cases made.symm.trans ((ofTarget_eq_emptyRequest_iff g target).2 none)
  · rintro ⟨some_id, known, meet⟩
    obtain ⟨none, _⟩ | ⟨_, id, _, named, _, unknown, _⟩ | ⟨_, _, all, made⟩ :=
      ofTarget_cases g target
    · exact absurd none some_id
    · rw [known id (by simp [named])] at unknown
      cases unknown
    · rw [made, (meet_of_ofTarget made).unique meet]

/-- Which ids are named is all that counts for the claims. -/
theorem ofTarget_congr {ids : List Id} (made : ofTarget g target = .ok claims)
    (same : ∀ id, id ∈ ids ↔ id ∈ target.ids) : ofTarget g ⟨ids, target.tree⟩ = .ok claims := by
  obtain ⟨some_id, known, meet⟩ := (ofTarget_eq_ok_iff g target claims).1 made
  refine (ofTarget_eq_ok_iff g _ claims).2 ⟨?_, ?_, meet.congr same⟩
  · obtain ⟨id, named⟩ := List.exists_mem_of_ne_nil _ some_id
    exact List.ne_nil_of_mem ((same id).2 named)
  · intro id named
    exact known id ((same id).1 named)

/-- A request fails if it names nothing, and otherwise with the first object named that does not
exist. If all of them exist, it comes to just the claims that it asks for: a direct claim on each
object named, or a claim through each root named on all that the root leads to. In which order they
are named, and how often, makes no difference to these. -/
theorem ofTarget_means (g : G) (target : Target) :
    (ofTarget g target = .error .emptyRequest ↔ target.ids = []) ∧
    (∀ id, ofTarget g target = .error (.notFound id) ↔
      target.ids.find? (fun id => !ObjectGraph.contains g id) = some id) ∧
    (∀ e, ofTarget g target = .error e → e = .emptyRequest ∨ ∃ id, e = .notFound id) ∧
    (∀ claims, ofTarget g target = .ok claims ↔
      target.ids ≠ [] ∧ (∀ id ∈ target.ids, ObjectGraph.contains g id) ∧ claims.Meet g target) ∧
    ∀ claims : Claims, ofTarget g target = .ok claims →
      (target.tree = false → ∀ x, claims[x]? = if x ∈ target.ids then some {.direct} else none) ∧
      (target.tree → ∀ x, x ∈ claims ↔ ∃ root ∈ target.ids, ObjectGraph.Leads g root x) ∧
      (∀ x : Id, claims[x]? ≠ some ∅) ∧
      (target.tree → ∀ root ∈ target.ids, .tree root ∈ claims.getD root ∅) ∧
      ∀ ids, (∀ id, id ∈ ids ↔ id ∈ target.ids) → ofTarget g ⟨ids, target.tree⟩ = .ok claims := by
  refine ⟨ofTarget_eq_emptyRequest_iff g target, ofTarget_eq_notFound_iff g target, ?_,
    ofTarget_eq_ok_iff g target, fun claims made => ?_⟩
  · intro e failed
    obtain ⟨_, refused⟩ | ⟨_, id, _, _, _, _, refused⟩ | ⟨_, _, _, made⟩ := ofTarget_cases g target
    · cases failed.symm.trans refused
      exact .inl rfl
    · cases failed.symm.trans refused
      exact .inr ⟨id, rfl⟩
    · cases failed.symm.trans made
  · have meet := meet_of_ofTarget made
    refine ⟨meet.getElem?_of_direct, ?_, meet.filled, ?_, fun ids => ofTarget_congr made⟩
    · intro tree x
      simp only [meet.mem_iff, Target.asks_tree_iff tree]
      constructor
      · rintro ⟨_, root, named, leads, _⟩
        exact ⟨root, named, leads⟩
      · rintro ⟨root, named, leads⟩
        exact ⟨_, root, named, leads, rfl⟩
    · intro tree root named
      exact (meet.asked root (.tree root)).2 ⟨tree, named, .refl⟩

/-- Two roots above each other, one of them named twice, and a child that does not exist. -/
example : (ofTarget (⟨.ofList [("a", ["b"]), ("b", ["a", "x"]), ("c", ["b"])]⟩ : Adjacency)
      ⟨["b", "c", "b"], true⟩).map (fun claims => claims.toList.map fun (x, on) => (x, on.toList)) =
    .ok [("a", [.tree "b", .tree "c"]), ("b", [.tree "b", .tree "c"]), ("c", [.tree "c"]),
      ("x", [.tree "b", .tree "c"])] := by
  cbv

end Claims

end SceneLock
