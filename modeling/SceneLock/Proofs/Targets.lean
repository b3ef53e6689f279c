import SceneLock.Request
import SceneLock.Proofs.Counts
import SceneLock.Proofs.Subtrees

/-!
Which claims a target comes to, object by object.
-/

namespace SceneLock

open Std

variable {G : Type} [ObjectGraph G]

/-- Whether a claim, once made, is laid on the object `x` in this graph. -/
def Claim.Reaches (claim : Claim) (g : G) (x : Id) : Prop :=
  match claim with
  | direct => True
  | tree root => x ∈ ObjectGraph.subtree g root

namespace Claims

theorem mem_lay {claims : Claims} {id x : Id} {laid claim : Claim} :
    claim ∈ (claims.lay id laid).getD x ∅ ↔
      claim ∈ claims.getD x ∅ ∨ (x = id ∧ claim = laid) := by
  simp only [lay, ExtTreeMap.getD_eq_getD_getElem?, ExtTreeMap.getElem?_alter,
    Std.compare_eq_iff_eq]
  by_cases e : id = x
  · subst e
    simp only [if_true, Option.getD_some, ExtTreeSet.mem_insert, Std.compare_eq_iff_eq, true_and]
    rw [or_comm, eq_comm]
  · simp [e, Ne.symm e]

theorem mem_foldl_lay {covered : List Id} {claims : Claims} {x : Id} {laid claim : Claim} :
    claim ∈ (covered.foldl (fun claims c => claims.lay c laid) claims).getD x ∅ ↔
      claim ∈ claims.getD x ∅ ∨ (x ∈ covered ∧ claim = laid) := by
  induction covered generalizing claims with
  | nil => simp
  | cons c rest ih =>
    rw [List.foldl_cons, ih, mem_lay, List.mem_cons, or_and_right, or_assoc]

variable {g : G} {tree : Bool}

theorem mem_addNamed {claims more : Claims} {id x : Id} {claim : Claim}
    (made : addNamed g tree claims id = .ok more) :
    claim ∈ more.getD x ∅ ↔
      claim ∈ claims.getD x ∅ ∨ (claim.Reaches g x ∧ claim.origin x = (tree, id)) := by
  unfold addNamed at made
  cases tree with
  | true =>
    simp only [if_true] at made
    split at made
    · cases made
    · next covered _ =>
      cases made
      rw [mem_foldl_lay]
      refine or_congr_right ?_
      cases claim with
      | direct => simp [Claim.origin]
      | tree root =>
        simp only [Claim.Reaches, Claim.origin, Claim.tree.injEq, Prod.mk.injEq, true_and]
        constructor
        · rintro ⟨mem, rfl⟩
          exact ⟨mem, rfl⟩
        · rintro ⟨mem, rfl⟩
          exact ⟨mem, rfl⟩
  | false =>
    simp only [Bool.false_eq_true, if_false] at made
    split at made
    · cases made
      rw [mem_lay]
      refine or_congr_right ?_
      cases claim <;> simp [Claim.Reaches, Claim.origin]
    · cases made

theorem mem_foldlM_addNamed {ids : List Id} {claims all : Claims} {x : Id} {claim : Claim}
    (made : ids.foldlM (addNamed g tree) claims = .ok all) :
    claim ∈ all.getD x ∅ ↔ claim ∈ claims.getD x ∅ ∨
      (claim.Reaches g x ∧ (claim.origin x).1 = tree ∧ (claim.origin x).2 ∈ ids) := by
  induction ids generalizing claims with
  | nil =>
    cases made
    simp
  | cons id rest ih =>
    rw [List.foldlM_cons] at made
    cases first : addNamed g tree claims id with
    | error e => simp [first, bind, Except.bind] at made
    | ok more =>
      rw [first] at made
      rw [ih made, mem_addNamed first, List.mem_cons, Prod.ext_iff]
      constructor
      · rintro ((old | ⟨reached, named⟩) | ⟨reached, shape, named⟩)
        · exact .inl old
        · exact .inr ⟨reached, named.1, .inl named.2⟩
        · exact .inr ⟨reached, shape, .inr named⟩
      · rintro (old | ⟨reached, shape, here | later⟩)
        · exact .inl (.inl old)
        · exact .inl (.inr ⟨reached, shape, here⟩)
        · exact .inr ⟨reached, shape, later⟩

/-- A claim is laid on an object if it is made through one of the ids named, and reaches it. -/
theorem mem_ofTarget {target : Target} {claims : Claims} (made : ofTarget g target = .ok claims)
    {x : Id} {claim : Claim} :
    claim ∈ claims.getD x ∅ ↔ claim.Reaches g x ∧ (claim.origin x).1 = target.tree ∧
      (claim.origin x).2 ∈ target.ids := by
  unfold ofTarget at made
  split at made
  · cases made
  · rw [mem_foldlM_addNamed made]
    simp

/-- A named object is refused exactly if it does not exist. -/
theorem addNamed_cases (g : G) (tree : Bool) (claims : Claims) (id : Id) :
    (ObjectGraph.contains g id = false ∧ addNamed g tree claims id = .error (.notFound id)) ∨
      (ObjectGraph.contains g id ∧ ∃ more, addNamed g tree claims id = .ok more) := by
  unfold addNamed
  cases known : ObjectGraph.contains g id with
  | false =>
    refine .inl ⟨rfl, ?_⟩
    cases tree with
    | true => simp only [if_true, ObjectGraph.subtree_eq_nil_iff.2 known]
    | false => simp only [Bool.false_eq_true, if_false]
  | true =>
    refine .inr ⟨rfl, ?_⟩
    cases tree with
    | true =>
      simp only [if_true]
      split
      · next none =>
        rw [ObjectGraph.subtree_eq_nil_iff.1 none] at known
        cases known
      · exact ⟨_, rfl⟩
    | false => exact ⟨_, by simp only [Bool.false_eq_true, if_false, if_true]; rfl⟩

theorem foldlM_addNamed_cases (g : G) (tree : Bool) (ids : List Id) (claims : Claims) :
    (∃ before id after, ids = before ++ id :: after ∧ (∀ b ∈ before, ObjectGraph.contains g b) ∧
      ObjectGraph.contains g id = false ∧
      ids.foldlM (addNamed g tree) claims = .error (.notFound id)) ∨
    ((∀ id ∈ ids, ObjectGraph.contains g id) ∧
      ∃ all, ids.foldlM (addNamed g tree) claims = .ok all) := by
  induction ids generalizing claims with
  | nil => exact .inr ⟨by simp, claims, rfl⟩
  | cons id rest ih =>
    rw [List.foldlM_cons]
    obtain ⟨unknown, refused⟩ | ⟨known, more, made⟩ := addNamed_cases g tree claims id
    · refine .inl ⟨[], id, rest, rfl, by simp, unknown, ?_⟩
      rw [refused]
      rfl
    · rw [made]
      obtain ⟨before, other, after, rfl, fine, unknown, refused⟩ | ⟨fine, all, made⟩ := ih more
      · exact .inl ⟨id :: before, other, after, rfl, List.forall_mem_cons.2 ⟨known, fine⟩, unknown,
          refused⟩
      · exact .inr ⟨List.forall_mem_cons.2 ⟨known, fine⟩, all, made⟩

/-- A target names nothing, or an object that does not exist, the first of which is reported, or it
comes to claims. -/
theorem ofTarget_cases (g : G) (target : Target) :
    (target.ids = [] ∧ ofTarget g target = .error .emptyRequest) ∨
    (∃ before id after, target.ids = before ++ id :: after ∧
      (∀ b ∈ before, ObjectGraph.contains g b) ∧ ObjectGraph.contains g id = false ∧
      ofTarget g target = .error (.notFound id)) ∨
    (target.ids ≠ [] ∧ (∀ id ∈ target.ids, ObjectGraph.contains g id) ∧
      ∃ claims, ofTarget g target = .ok claims) := by
  unfold ofTarget
  split
  · next empty => exact .inl ⟨List.isEmpty_iff.1 empty, rfl⟩
  · next named =>
    have named : target.ids ≠ [] := fun empty => named (List.isEmpty_iff.2 empty)
    refine .inr ((foldlM_addNamed_cases g target.tree target.ids ∅).imp_right fun all => ?_)
    exact ⟨named, all⟩

theorem contains_of_ofTarget {target : Target} {claims : Claims}
    (made : ofTarget g target = .ok claims) {id : Id} (named : id ∈ target.ids) :
    ObjectGraph.contains g id := by
  obtain ⟨_, e⟩ | ⟨_, _, _, _, _, _, e⟩ | ⟨_, known, _⟩ := ofTarget_cases g target
  · cases e.symm.trans made
  · cases e.symm.trans made
  · exact known id named

/-- Every object that is listed has a claim laid on it. -/
def Filled (claims : Claims) : Prop := ∀ x : Id, claims[x]? ≠ some ∅

theorem Filled.lay {claims : Claims} (filled : claims.Filled) (id : Id) (claim : Claim) :
    (claims.lay id claim).Filled := by
  intro x nothing
  simp only [Claims.lay, ExtTreeMap.getElem?_alter, Std.compare_eq_iff_eq] at nothing
  split at nothing
  · exact ExtTreeSet.insert_ne_empty (Option.some.inj nothing)
  · exact filled x nothing

theorem Filled.foldl_lay {claims : Claims} (filled : claims.Filled) (covered : List Id)
    (claim : Claim) : (covered.foldl (fun claims c => claims.lay c claim) claims).Filled := by
  induction covered generalizing claims with
  | nil => exact filled
  | cons c rest ih => exact ih (filled.lay c claim)

theorem Filled.addNamed {claims more : Claims} (filled : claims.Filled) {id : Id}
    (made : Claims.addNamed g tree claims id = .ok more) : more.Filled := by
  unfold Claims.addNamed at made
  split at made
  · split at made
    · cases made
    · cases made
      exact filled.foldl_lay _ _
  · split at made
    · cases made
      exact filled.lay id .direct
    · cases made

theorem filled_ofTarget {target : Target} {claims : Claims}
    (made : ofTarget g target = .ok claims) : claims.Filled := by
  have step {ids : List Id} {claims all : Claims} (filled : claims.Filled)
      (made : ids.foldlM (addNamed g target.tree) claims = .ok all) : all.Filled := by
    induction ids generalizing claims with
    | nil =>
      cases made
      exact filled
    | cons id rest ih =>
      rw [List.foldlM_cons] at made
      obtain ⟨_, refused⟩ | ⟨_, more, first⟩ := addNamed_cases g target.tree claims id
      · simp [refused, bind, Except.bind] at made
      · rw [first] at made
        exact ih (filled.addNamed first) made
  unfold ofTarget at made
  split at made
  · cases made
  · exact step (fun x => by simp) made

/-- An object is listed if it is reached through one of the ids named. -/
theorem mem_claims_iff {target : Target} {claims : Claims} (made : ofTarget g target = .ok claims)
    {x : Id} : x ∈ claims ↔ ∃ claim : Claim, claim.Reaches g x ∧
      (claim.origin x).1 = target.tree ∧ (claim.origin x).2 ∈ target.ids := by
  simp only [← mem_ofTarget made, ExtTreeMap.getD_eq_getD_getElem?,
    ExtTreeMap.mem_iff_isSome_getElem?]
  have filled := filled_ofTarget made x
  cases laid : claims[x]? with
  | none => simp
  | some on =>
    have some_claim : ∃ claim, claim ∈ on := by
      simpa [laid, ExtTreeSet.eq_empty_iff_forall_not_mem] using filled
    simpa using some_claim

theorem mem_claims_iff_named {target : Target} {claims : Claims}
    (made : ofTarget g target = .ok claims) {x : Id} :
    x ∈ claims ↔
      ∃ id ∈ target.ids, if target.tree then x ∈ ObjectGraph.subtree g id else x = id := by
  rw [mem_claims_iff made]
  constructor
  · rintro ⟨claim, reaches, shape, named⟩
    refine ⟨_, named, ?_⟩
    cases claim with
    | direct => rw [← shape]; rfl
    | tree root => rw [← shape]; exact reaches
  · rintro ⟨id, named, inside⟩
    split at inside
    · next tree => exact ⟨.tree id, inside, tree.symm, named⟩
    · next direct => exact ⟨.direct, trivial, by simp [Claim.origin, direct], inside ▸ named⟩

end Claims

end SceneLock
