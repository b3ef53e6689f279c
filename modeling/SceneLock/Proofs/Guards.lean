import Mathlib
import SceneLock.Proofs.Leases
import SceneLock.Proofs.Ledger
import SceneLock.Proofs.Subtrees

/-!
Guards and the ledger. While the graph stays as it is, an open guard accounts for one entry under
each id that it names.
-/

namespace SceneLock

open Std

variable {G : Type} [ObjectGraph G]

/-- The claim that is laid on whatever is locked through an id. -/
def Claim.via (tree : Bool) (id : Id) : Claim := if tree then .tree id else .direct

@[simp]
theorem Claim.origin_via (tree : Bool) (id : Id) : (Claim.via tree id).origin id = (tree, id) := by
  cases tree <;> rfl

namespace Claims

/-- In a target that is granted every id reaches at least itself. -/
theorem reaches_of_ofTarget {g : G} {target : Target} {claims : Claims}
    (made : ofTarget g target = .ok claims) :
    ∀ id ∈ target.ids, (Claim.via target.tree id).Reaches g id := by
  intro id named
  have known := contains_of_ofTarget made named
  cases target.tree with
  | false => trivial
  | true => exact ObjectGraph.mem_subtree_iff.2 ⟨known, .refl⟩

end Claims

namespace Guard

/-- The request that the guard answers for. -/
def request (guard : Guard) : Request := { owner := guard.owner, target := guard.target }

/-- The claims that the guard's target comes to. -/
def claims (guard : Guard) (g : G) : Claims :=
  (Claims.ofTarget g guard.target).toOption.getD ∅

/-- The guard with the claims that it was granted, in a graph that stays as it is. -/
def lease (guard : Guard) (g : G) : Lease := ⟨guard, guard.claims g⟩

theorem mem_claims {guard : Guard} {g : G} {x : Id} {claim : Claim} :
    claim ∈ (guard.claims g).getD x ∅ → claim.Reaches g x ∧
      (claim.origin x).1 = guard.target.tree ∧ (claim.origin x).2 ∈ guard.target.ids := by
  unfold claims
  cases made : Claims.ofTarget g guard.target with
  | ok claims => exact (Claims.mem_ofTarget made).1
  | error => simp [Except.toOption]

theorem covers_lease_iff {guard : Guard} {g : G} {claims : Claims} {x : Id} {claim : Claim}
    (resolved : Claims.ofTarget g guard.target = .ok claims) :
    (guard.lease g).Covers x claim ↔ claim.Reaches g x ∧
      (claim.origin x).1 = guard.target.tree ∧ (claim.origin x).2 ∈ guard.target.ids := by
  simp only [Lease.Covers, lease, Guard.claims, resolved]
  exact Claims.mem_ofTarget resolved

end Guard

namespace Ledger

/-- One entry for every id that a guard names. -/
def ofGuards (guards : List Guard) : Ledger := fun o m tree id =>
  guards.countP fun guard => Names guard.mode guard.request o m tree id

theorem ofGuards_nil : ofGuards [] = blank := rfl

theorem ofGuards_pos_iff {guards : List Guard} {o : Owner} {m : Mode} {tree : Bool} {id : Id} :
    0 < ofGuards guards o m tree id ↔
      ∃ guard ∈ guards, Names guard.mode guard.request o m tree id := by
  simp only [ofGuards, List.countP_pos_iff, decide_eq_true_eq]

theorem ofGuards_cons (guard : Guard) (guards : List Guard) :
    ofGuards (guard :: guards) = (ofGuards guards).enter guard.mode guard.request := by
  funext o m tree id
  simp only [ofGuards, enter, List.countP_cons, decide_eq_true_eq]

theorem ofGuards_append (guards more : List Guard) (o : Owner) (m : Mode) (tree : Bool) (id : Id) :
    ofGuards (guards ++ more) o m tree id =
      ofGuards guards o m tree id + ofGuards more o m tree id :=
  List.countP_append

theorem ofGuards_eraseIdx {guards : List Guard} {place : Nat} {guard : Guard}
    (found : guards[place]? = some guard) :
    ofGuards (guards.eraseIdx place) = (ofGuards guards).strike guard.mode guard.request := by
  funext o m tree id
  obtain ⟨inside, here⟩ := List.getElem?_eq_some_iff.1 found
  have split := (List.getElem_cons_eraseIdx_perm inside).countP_eq
    fun guard => decide (Names guard.mode guard.request o m tree id)
  rw [List.countP_cons, here] at split
  simp only [decide_eq_true_eq] at split
  simp only [ofGuards, strike]
  omega

theorem ofGuards_filter (guards : List Guard) (owner : Owner) :
    ofGuards (guards.filter (·.owner ≠ owner)) = (ofGuards guards).clear owner := by
  funext o m tree id
  simp only [ofGuards, clear, List.countP_filter]
  split
  · next e =>
    subst e
    refine List.countP_eq_zero.2 fun guard _ both => ?_
    simp only [Bool.and_eq_true, decide_eq_true_eq] at both
    exact both.2 both.1.1
  · next other =>
    refine List.countP_congr fun guard _ => ?_
    simp only [Bool.and_eq_true, decide_eq_true_eq, and_iff_left_iff_imp]
    exact fun own e => other (e.symm.trans own.1)

end Ledger

namespace Coordinator

variable {c d : Coordinator G} {mode : Mode} {request : Request} {guard : Guard}

/-- A guard that is handed out stands for one granted attempt. -/
theorem acquired (made : acquire mode request c = .ok guard d) :
    guard = ⟨request.target, request.owner, mode⟩ ∧
      ∃ claims, Claims.ofTarget c.graph request.target = .ok claims ∧
        c.table.stagedFault? claims request.owner mode c.now = none ∧
        Alike { c with table := c.table.granted claims request.owner mode c.now } d := by
  obtain ⟨claims, _, resolved, passed, e, alike⟩ | ⟨_, _, e, _⟩ := c.acquire_cases mode request
  · rw [e] at made
    cases made
    exact ⟨rfl, claims, resolved, passed, alike⟩
  · rw [e] at made
    cases made

theorem alike_of_refused {e : LockError} (made : acquire mode request c = .error e d) :
    Alike c d := by
  obtain ⟨_, _, _, _, ended, _⟩ | ⟨_, _, ended, alike⟩ := c.acquire_cases mode request
  · rw [ended] at made
    cases made
  · rw [ended] at made
    cases made
    exact alike

end Coordinator

end SceneLock
