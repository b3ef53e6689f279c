import Mathlib
import SceneLock.Proofs.Runs

/-!
What holds of every reachable table: its records pass their check, a writer shuts out all others,
and no count is ever taken below zero.
-/

namespace SceneLock

open Std

theorem Record.covers_iff {r : Record} {id : Id} {owner : Owner} {mode : Mode} {tree : Bool} :
    r.covers id owner mode tree ↔ ∃ claim, (r.tally? owner ⟨mode, claim⟩).isSome ∧
      (claim = .direct ∨ ∃ root, claim = .tree root ∧ (tree ∨ root = id)) := by
  simp only [covers, tally?_isSome_iff]
  cases r.holders[owner]? with
  | none => simp
  | some holds =>
    simp only [List.any_eq_true, ExtTreeMap.mem_keys, Bool.and_eq_true, decide_eq_true_eq,
      Option.some.injEq, exists_eq_left']
    constructor
    · rintro ⟨⟨_, claim⟩, mem, rfl, fits⟩
      refine ⟨claim, mem, ?_⟩
      cases claim with
      | direct => exact .inl rfl
      | tree root => exact .inr ⟨root, rfl, by simpa using fits⟩
    · rintro ⟨claim, mem, fits⟩
      refine ⟨⟨mode, claim⟩, mem, rfl, ?_⟩
      obtain rfl | ⟨root, rfl, fits⟩ := fits
      · rfl
      · simpa using fits

namespace Table

theorem Sound.exclusive {t : Table} (s : t.Sound) {x : Id} {o p : Owner} {tree : Bool}
    (locked : t.isLocked x o .write tree) (other : p ≠ o) (m : Mode) (b : Bool) :
    t.isLocked x p m b = false := by
  unfold isLocked at locked ⊢
  cases found : t.records[x]? with
  | none => rfl
  | some record =>
    simp only [found, Bool.and_eq_true, Record.covers_iff] at locked
    obtain ⟨_, claim, writes, _⟩ := locked
    rw [Bool.eq_false_iff]
    intro shared
    simp only [Bool.and_eq_true, Record.covers_iff] at shared
    obtain ⟨_, _, mine, _⟩ := shared
    exact other ((s x record found).alone o claim writes p (Record.mem_holders_of_isSome mine))

end Table

namespace Coordinator

variable {G : Type} [ObjectGraph G]

/-- Whatever clients do, every record has a holder, every holder a hold, and every hold a count;
a record with a write hold has one holder only, so that nobody else has the object locked in any
way; and wherever a release takes one from a count, there is one to take. -/
theorem reachable_exclusive {c : Coordinator G} (h : c.Reachable) :
    (∀ (x : Id) (record : Record), c.table.records[x]? = some record →
      record.fault? = none ∧ record.holders ≠ ∅ ∧
      (∀ (o : Owner) (holds : Holds), record.holders[o]? = some holds →
        holds ≠ ∅ ∧ ∀ (hold : Hold) (n : UInt32), holds[hold]? = some n → 1 ≤ n.toNat) ∧
      ((∃ o claim, 0 < record.count o ⟨.write, claim⟩) → record.holders.size = 1)) ∧
    (∀ x o, c.isLocked .write x o true →
      ∀ p m tree, p ≠ o → c.isLocked m x p tree = false) ∧
    (∀ ids owner mode tree done rest, distinct ids = done ++ rest →
      ∀ x o hold n, (c.table.releaseEach owner mode tree done).tally? x o hold = some n →
        (n - 1).toNat + 1 = n.toNat) := by
  have sound := h.table.sound
  refine ⟨fun x record found => ?_, fun x o locked p m tree other => ?_, ?_⟩
  · have s := sound x record found
    refine ⟨Record.fault?_eq_none_iff.2 s, s.held, fun o holds listed => ⟨?_, ?_⟩, ?_⟩
    · exact fun empty => s.holding o (empty ▸ listed)
    · intro hold n counted
      have : n ≠ 0 := fun zero => s.counted o hold (by simp [Record.tally?, listed, counted, zero])
      have := Holds.toNat_sub_one this
      omega
    · rintro ⟨o, claim, counted⟩
      have writes : (record.tally? o ⟨.write, claim⟩).isSome := by
        rw [Option.isSome_iff_ne_none]
        intro missing
        simp [Record.count, missing, Holds.amount] at counted
      exact Record.single_if_write_iff.2 s.alone (Record.mode_eq_write_iff.2 ⟨o, claim, writes⟩)
  · exact sound.exclusive locked other m tree
  · intro ids owner mode tree done _ _ x o hold n counted
    refine Holds.toNat_sub_one fun zero => ?_
    exact (sound.releaseEach owner mode tree done).counted x o hold (zero ▸ counted)

/-- An object `a` above an object `b`, and alice who has locked both for writing. -/
def aliceInCharge : Coordinator Adjacency :=
  leaves (Coordinator.tryAcquire .write { owner := "alice", target := ⟨["a"], true⟩ }
    { graph := ⟨.ofList [("a", ["b"]), ("b", [])]⟩ })

theorem aliceInCharge_exclusive :
    aliceInCharge.isLocked .write "b" "alice" true ∧ "bob" ≠ "alice" ∧
      aliceInCharge.isLocked .read "b" "bob" false = false ∧
      (aliceInCharge.table.records["b"]?.map (·.holders.size)) = some 1 := by
  have reached : aliceInCharge.Reachable := .next (.start _ default 0) (.tryAcquire _ _ _)
  have exclusive := reachable_exclusive reached
  have locked : aliceInCharge.isLocked .write "b" "alice" true := by cbv
  have other : "bob" ≠ "alice" := by decide
  have recorded : aliceInCharge.table.records["b"]?.isSome := by cbv
  obtain ⟨record, found⟩ := Option.isSome_iff_exists.1 recorded
  have writes : 0 < aliceInCharge.table.count "b" "alice" ⟨.write, .tree "a"⟩ := by cbv
  rw [Table.count, Table.tally?, found] at writes
  have alone := (exclusive.1 "b" record found).2.2.2 ⟨"alice", .tree "a", writes⟩
  exact ⟨locked, other, exclusive.2.1 "b" "alice" locked "bob" .read false other,
    by rw [found, Option.map_some, alone]⟩

end Coordinator

end SceneLock
