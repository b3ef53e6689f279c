import Std.Data.ExtTreeMap
import Std.Data.ExtTreeSet

/-!
What an owner can hold on an object: a mode, and the reason (the claim) the object was locked for.
Objects and owners are opaque texts, ordered by code point.
-/

namespace SceneLock

open Std

abbrev Id := String

abbrev Owner := String

/-- Any number of owners may read an object together; a writer is alone. -/
inductive Mode
  | read
  | write
  deriving DecidableEq, Repr, Inhabited

namespace Mode

def text : Mode → String
  | read => "read"
  | write => "write"

def rank : Mode → Nat
  | read => 0
  | write => 1

instance : Ord Mode := ⟨compareOn rank⟩

instance : TransOrd Mode := inferInstanceAs (TransCmp (compareOn rank))

instance : LawfulEqOrd Mode where
  eq_of_compare {a b} h := by
    have h : compare a.rank b.rank = .eq := h
    have := LawfulEqOrd.eq_of_compare h
    cases a <;> cases b <;> simp_all [rank]

end Mode

/-- An object is held because it was named itself, or because a locked subtree covers it. -/
inductive Claim
  | direct
  | tree (root : Id)
  deriving DecidableEq, Repr

namespace Claim

def root? : Claim → Option Id
  | direct => none
  | tree root => some root

theorem root?_injective {a b : Claim} (h : a.root? = b.root?) : a = b := by
  cases a <;> cases b <;> simp_all [root?]

/-- The direct claim comes first, then the subtrees by root. -/
instance : Ord Claim := ⟨compareOn root?⟩

instance : TransOrd Claim := inferInstanceAs (TransCmp (compareOn root?))

instance : LawfulEqOrd Claim where
  eq_of_compare {a b} h := by
    have h : compare a.root? b.root? = .eq := h
    exact root?_injective (LawfulEqOrd.eq_of_compare h)

def text : Claim → String
  | direct => "direct"
  | tree root => "tree:" ++ root

end Claim

/-- One way of holding an object. An owner may have several on one object at a time. -/
structure Hold where
  mode : Mode
  claim : Claim
  deriving DecidableEq, Repr

namespace Hold

/-- All read holds come before the write holds. -/
instance : Ord Hold := ⟨compareLex (compareOn mode) (compareOn claim)⟩

instance : TransOrd Hold :=
  inferInstanceAs (TransCmp (compareLex (compareOn mode) (compareOn claim)))

instance : LawfulEqOrd Hold where
  eq_of_compare {a b} h := by
    have h : (compare a.mode b.mode).then (compare a.claim b.claim) = .eq := h
    rw [Ordering.then_eq_eq] at h
    cases a; cases b
    simp_all

end Hold

/-- The claims to lay on each object in one acquisition. -/
abbrev Claims := ExtTreeMap Id (ExtTreeSet Claim)

/-- The texts of a list without repetitions, in order. -/
def distinct (ids : List String) : List String :=
  (ExtTreeSet.ofList ids).toList

end SceneLock
