import Mathlib
import SceneLock.Proofs.Soundness

/-!
How often holds are counted, all in all. The number that a release answers is what it takes away
from the total.
-/

namespace SceneLock

open Std

/-- What the values of a map weigh together. -/
def weight {K V : Type} [Ord K] [TransOrd K] (m : ExtTreeMap K V) (weigh : V → Nat) : Nat :=
  (m.toList.map fun entry => weigh entry.2).sum

section

variable {K V : Type} [Ord K] [TransOrd K] [LawfulEqOrd K]

theorem toList_perm_of_getElem? {m : ExtTreeMap K V} {k : K} {v : V} (found : m[k]? = some v) :
    m.toList.Perm ((k, v) :: (m.erase k).toList) := by
  have nodup (m : ExtTreeMap K V) : m.toList.Nodup := by
    refine m.distinct_keys_toList.imp fun differ e => ?_
    exact differ (Std.compare_eq_iff_eq.2 (congrArg Prod.fst e))
  apply (List.perm_ext_iff_of_nodup (nodup m) ?_).2
  · rintro ⟨j, w⟩
    simp only [List.mem_cons, Prod.mk.injEq, ExtTreeMap.mem_toList_iff_getElem?_eq_some,
      ExtTreeMap.getElem?_erase, Std.compare_eq_iff_eq]
    by_cases here : k = j
    · subst here
      simp [found, eq_comm]
    · simp [here, Ne.symm here]
  · apply List.nodup_cons.2 ⟨?_, nodup _⟩
    simp [ExtTreeMap.mem_toList_iff_getElem?_eq_some]

theorem weight_eq_add_erase (m : ExtTreeMap K V) (weigh : V → Nat) (k : K) :
    weight m weigh = m[k]?.elim 0 weigh + weight (m.erase k) weigh := by
  cases found : m[k]? with
  | none =>
    have same : m.erase k = m := by
      apply ExtTreeMap.ext_getElem?
      intro j
      rw [ExtTreeMap.getElem?_erase]
      split
      · next e => rw [← Std.compare_eq_iff_eq.1 e, found]
      · rfl
    rw [same, Option.elim_none, Nat.zero_add]
  | some v =>
    have apart := (toList_perm_of_getElem? found).map fun entry => weigh entry.2
    exact apart.sum_nat

theorem weight_alter (m : ExtTreeMap K V) (weigh : V → Nat) (k : K) (f : Option V → Option V) :
    weight (m.alter k f) weigh + m[k]?.elim 0 weigh = weight m weigh + (f m[k]?).elim 0 weigh := by
  have others : (m.alter k f).erase k = m.erase k := by
    apply ExtTreeMap.ext_getElem?
    intro j
    simp only [ExtTreeMap.getElem?_erase, ExtTreeMap.getElem?_alter]
    split <;> rfl
  rw [weight_eq_add_erase (m.alter k f) weigh k, weight_eq_add_erase m weigh k, others,
    ExtTreeMap.getElem?_alter_self]
  omega

omit [LawfulEqOrd K] in
/-- What is dropped because it is empty weighs no less than if it were kept. -/
theorem weight_of_isEmpty {m : ExtTreeMap K V} (empty : m.isEmpty) (weigh : V → Nat) :
    weight m weigh = 0 := by
  have nothing : m.toList = [] := by
    rw [ExtTreeMap.toList_eq_nil_iff]
    exact ExtTreeMap.isEmpty_iff.1 empty
  rw [weight, nothing]
  rfl

end

def Holds.total (holds : Holds) : Nat := weight holds UInt32.toNat

def Record.total (r : Record) : Nat := weight r.holders Holds.total

/-- The sum of all counts, over all objects and all owners. -/
def Table.total (t : Table) : Nat := weight t.records Record.total

theorem Holds.total_revoke {holds : Holds} {hold : Hold} (counted : holds[hold]? ≠ some 0) :
    (holds.revoke hold).total + (if holds[hold]?.isSome then 1 else 0) = holds.total := by
  have lowered : (holds.revoke hold).total + amount holds[hold]? =
      holds.total + amount (holds[hold]?.bind oneLess) :=
    weight_alter holds UInt32.toNat hold (·.bind oneLess)
  rw [amount_oneLess counted] at lowered
  have none_iff := amount_eq_zero counted
  cases found : holds[hold]? with
  | none =>
    rw [found] at lowered
    exact lowered
  | some n =>
    rw [found] at lowered none_iff
    have : amount (some n) ≠ 0 := fun zero => nomatch none_iff.1 zero
    simp only [Option.isSome_some, if_true]
    omega

theorem Record.Tidy.total_revoke {r : Record} (tidy : r.Tidy) (owner : Owner) (hold : Hold) :
    (r.revoke owner hold).total + (if (r.tally? owner hold).isSome then 1 else 0) = r.total := by
  have altered := weight_alter r.holders Holds.total owner fun holds => holds.bind fun holds =>
    let left := Holds.revoke holds hold
    if left.isEmpty then none else some left
  change (r.revoke owner hold).total + _ = r.total + _ at altered
  have counted := tidy.counted owner hold
  rw [tally?] at counted ⊢
  cases found : r.holders[owner]? with
  | none =>
    rw [found] at altered
    exact altered
  | some holds =>
    rw [found, Option.bind_some] at counted
    have lowered := Holds.total_revoke counted
    -- Holds that are dropped when none is left weigh nothing, as they would if they were kept.
    have left : ((if (holds.revoke hold).isEmpty then none else some (holds.revoke hold) :
        Option Holds).elim 0 Holds.total) = (holds.revoke hold).total := by
      split
      · next empty => exact (weight_of_isEmpty empty _).symm
      · rfl
    simp only [found, Option.bind_some, left, Option.elim_some] at altered
    simp only [Option.bind_some]
    omega

theorem Record.total_of_isEmpty {r : Record} (empty : r.isEmpty) : r.total = 0 :=
  weight_of_isEmpty empty _

/-- If each entry weighs as much as what becomes of it, and one more if it is counted, then so do
all of them. -/
theorem length_filter_add_sum_filterMap {α β : Type} {entries : List α} {counted : α → Bool}
    {becomes : α → Option β} {before : α → Nat} {after : β → Nat}
    (each : ∀ a ∈ entries, (if counted a then 1 else 0) + (becomes a).elim 0 after = before a) :
    (entries.filter counted).length + ((entries.filterMap becomes).map after).sum =
      (entries.map before).sum := by
  induction entries with
  | nil => rfl
  | cons a rest ih =>
    obtain ⟨here, each⟩ := List.forall_mem_cons.1 each
    have below := ih each
    have length : ((a :: rest).filter counted).length =
        (rest.filter counted).length + if counted a then 1 else 0 := by
      by_cases h : counted a <;> simp [h]
    rw [length, List.filterMap_cons, List.map_cons, List.sum_cons]
    cases new : becomes a with
    | none =>
      rw [new, Option.elim_none] at here
      dsimp only
      omega
    | some b =>
      rw [new, Option.elim_some] at here
      simp only [List.map_cons, List.sum_cons]
      omega

namespace Table

variable {t : Table}

theorem Sound.total_revoke (s : t.Sound) (owner : Owner) (hold : Hold) (on : Id → Bool) :
    (t.revoke owner hold on).1 + (t.revoke owner hold on).2.total = t.total := by
  simp only [Table.revoke, total, weight, ← ExtTreeMap.length_toList, ExtTreeMap.toList_filter,
    ExtTreeMap.toList_filterMap]
  apply length_filter_add_sum_filterMap
  rintro ⟨x, record⟩ listed
  have sound := s x record (ExtTreeMap.mem_toList_iff_getElem?_eq_some.1 listed)
  have lowered := sound.total_revoke owner hold
  by_cases touched : on x
  · simp only [touched, Bool.true_and, if_true]
    by_cases empty : (record.revoke owner hold).isEmpty
    · have nothing := Record.total_of_isEmpty empty
      rw [if_pos empty, Option.map_none, Option.elim_none]
      omega
    · rw [if_neg empty, Option.map_some, Option.elim_some]
      dsimp only
      omega
  · simp [touched]

theorem Sound.total_releaseOne (s : t.Sound) (owner : Owner) (mode : Mode) (tree : Bool) (id : Id) :
    (t.releaseOne owner mode tree id).1 + (t.releaseOne owner mode tree id).2.total = t.total := by
  unfold Table.releaseOne
  split <;> exact s.total_revoke owner _ _

end Table

end SceneLock
