import SceneLock.Error

/-!
Names for new objects: a clashing name is refused, or the first free one of
`box`, `box_1`, `box_2`, … is taken in its place.
-/

namespace SceneLock.Name

open Std

abbrev Names := ExtTreeSet String

def ensureUnique (taken : String → Bool) (name : String) : Except LockError Unit :=
  if name = "" then .error .nameMissing
  else if taken name then .error (.nameTaken name)
  else .ok ()

/-- The names derived from one base name, in order of preference. -/
def candidate (base : String) : Nat → String
  | 0 => base
  | k + 1 => s!"{base}_{k + 1}"

/-- The first free candidate from number `k` on. A candidate that is taken is struck off:
no later one is equal to it, and the search ends when all taken names are struck off. -/
def firstFree (base : String) (k : Nat) (taken : Names) : String :=
  if _h : candidate base k ∈ taken then
    firstFree base (k + 1) (taken.erase (candidate base k))
  else candidate base k
termination_by taken.size
decreasing_by
  have : taken.size ≠ 0 := fun h => by
    simp [ExtTreeSet.eq_empty_iff_size_eq_zero.2 h] at _h
  rw [ExtTreeSet.size_erase, if_pos (ExtTreeSet.contains_iff_mem.2 _h)]
  omega

def makeUnique (taken : Names) (base : String) : String := firstFree base 0 taken

end SceneLock.Name
