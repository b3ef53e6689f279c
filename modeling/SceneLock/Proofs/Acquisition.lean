import Mathlib
import SceneLock.Proofs.Runs

/-!
When an acquisition is granted, refused as a conflict, or fails, and what each outcome changes.
-/

namespace SceneLock

open Std

namespace Holds

theorem mem_grant {holds : Holds} {mode : Mode} {claims : ExtTreeSet Claim} {h : Hold} :
    h ∈ holds.grant mode claims ↔ (h.mode = mode ∧ h.claim ∈ claims) ∨ h ∈ holds := by
  simp only [ExtTreeMap.mem_iff_isSome_getElem?, getElem?_grant]
  split
  · next new => simp [new]
  · next old => simp [old]

theorem grant_ne_empty_iff {holds : Holds} {mode : Mode} {claims : ExtTreeSet Claim} :
    holds.grant mode claims ≠ ∅ ↔ claims ≠ ∅ ∨ holds ≠ ∅ := by
  have laid : claims ≠ ∅ ↔ ∃ claim, claim ∈ claims := by
    simp [ExtTreeSet.eq_empty_iff_forall_not_mem]
  simp only [ne_empty_iff_exists_mem, laid, mem_grant]
  constructor
  · rintro ⟨h, ⟨_, new⟩ | old⟩
    · exact .inl ⟨h.claim, new⟩
    · exact .inr ⟨h, old⟩
  · rintro (⟨claim, new⟩ | ⟨h, old⟩)
    · exact ⟨⟨mode, claim⟩, .inl ⟨rfl, new⟩⟩
    · exact ⟨h, .inr old⟩

end Holds

namespace Record

/-- What keeps an owner from a lock: for reading, that the object is write locked; for writing,
that anybody else holds it. -/
def Obstructs (r : Record) (owner : Owner) : Mode → Prop
  | .read => r.mode = .write
  | .write => ∃ other ∈ r.holders, other ≠ owner

theorem Sound.admits_iff {r : Record} (s : r.Sound) {owner : Owner} {mode : Mode} :
    r.admits owner mode ↔ ¬r.Obstructs owner mode := by
  cases mode with
  | read =>
    simp only [admits, Obstructs, decide_eq_true_eq]
    cases r.mode <;> simp
  | write =>
    simp only [admits, Obstructs, decide_eq_true_eq, soleHolder?_eq_some_iff, not_exists, not_and,
      Classical.not_not]
    constructor
    · exact fun sole => sole.2
    · intro only
      obtain ⟨holder, mem⟩ := ne_empty_iff_exists_mem.1 s.held
      exact ⟨only holder mem ▸ mem, only⟩

theorem tidy_new (now : Instant) : Tidy { since := now } :=
  ⟨fun owner => by simp, fun owner hold => by simp [tally?]⟩

theorem getElem?_holders_grant (r : Record) (owner o : Owner) (mode : Mode)
    (claims : ExtTreeSet Claim) :
    (r.grant owner mode claims).holders[o]? =
      if owner = o then some (Holds.grant (r.holders[o]?.getD ∅) mode claims)
      else r.holders[o]? := by
  simp only [grant, ExtTreeMap.getElem?_alter, Std.compare_eq_iff_eq]
  split
  · next e => rw [e]
  · rfl

theorem mem_holders_grant {r : Record} {owner o : Owner} {mode : Mode}
    {claims : ExtTreeSet Claim} :
    o ∈ (r.grant owner mode claims).holders ↔ owner = o ∨ o ∈ r.holders := by
  simp only [ExtTreeMap.mem_iff_isSome_getElem?, getElem?_holders_grant]
  split
  · next e => simp [e]
  · next e => simp [e]

variable {r : Record} {owner : Owner} {mode : Mode} {claims : ExtTreeSet Claim}

/-- A grant that nothing obstructs leaves a sound record behind, unless it makes somebody a holder
without a hold. -/
theorem Tidy.sound_grant (tidy : r.Tidy) (free : ¬r.Obstructs owner mode)
    (room : ∀ claim ∈ claims, r.count owner ⟨mode, claim⟩ ≠ UInt32.size - 1)
    (filled : claims ≠ ∅ ∨ owner ∈ r.holders) : (r.grant owner mode claims).Sound where
  held := ne_empty_iff_exists_mem.2 ⟨owner, mem_holders_grant.2 (.inl rfl)⟩
  holding o := by
    rw [getElem?_holders_grant]
    split
    · next e =>
      subst e
      have kept : claims ≠ ∅ ∨ r.holders[owner]?.getD ∅ ≠ ∅ := by
        refine filled.imp_right fun mem => ?_
        obtain ⟨holds, found⟩ :=
          Option.isSome_iff_exists.1 (ExtTreeMap.mem_iff_isSome_getElem?.1 mem)
        simpa [found] using tidy.holding owner
      simpa using Holds.grant_ne_empty_iff.2 kept
    · exact tidy.holding o
  counted o h := by
    rw [tally?_grant]
    split
    · next new =>
      obtain ⟨rfl, rfl, laid⟩ := new
      simpa using mt Holds.oneMore_eq_zero_iff.1 (room h.claim laid)
    · exact tidy.counted o h
  alone o claim writes other mem := by
    rw [mem_holders_grant] at mem
    rw [tally?_grant] at writes
    cases mode with
    | write =>
      -- nobody but the owner was there before, so nobody else is there now
      have only : ∀ p ∈ r.holders, p = owner := by simpa [Obstructs] using free
      have writer : o = owner := by
        split at writes
        · next new => exact new.1.symm
        · exact only o (mem_holders_of_isSome writes)
      obtain rfl | mem := mem
      · exact writer.symm
      · exact (only other mem).trans writer.symm
    | read =>
      -- a read grant adds no write hold, so the record was write locked already
      rw [if_neg (by simp)] at writes
      exact absurd (mode_eq_write_iff.2 ⟨o, claim, writes⟩) free

/-- Only the owner's holds can be at fault after a grant. -/
theorem Tidy.fault?_grant (tidy : r.Tidy) {fault : RecordFault}
    (faulty : (Holds.grant (r.holders[owner]?.getD ∅) mode claims).fault? owner = some fault) :
    (r.grant owner mode claims).fault? = some fault := by
  have listed : (r.grant owner mode claims).holders[owner]? =
      some (Holds.grant (r.holders[owner]?.getD ∅) mode claims) := by
    rw [getElem?_holders_grant, if_pos rfl]
  have others {o : Owner} {holds : Holds} {other : RecordFault}
      (found : (r.grant owner mode claims).holders[o]? = some holds)
      (wrong : holds.fault? o = some other) : other = fault := by
    by_cases e : owner = o
    · subst e
      cases listed.symm.trans found
      exact Option.some.inj (wrong.symm.trans faulty)
    · rw [getElem?_holders_grant, if_neg e] at found
      have fine : holds.fault? o = none := by
        refine Holds.fault?_eq_none_iff.2 ⟨fun empty => tidy.holding o (empty ▸ found), ?_⟩
        exact fun hold zero => tidy.counted o hold (by simp [tally?, found, zero])
      simp [fine] at wrong
  have held : (r.grant owner mode claims).holders.isEmpty = false := by
    exact ExtTreeMap.isEmpty_eq_false_iff.2
      (ne_empty_iff_exists_mem.2 ⟨owner, mem_holders_grant.2 (.inl rfl)⟩)
  rw [Record.fault?, held, if_neg (by decide)]
  split
  · next other first =>
    obtain ⟨⟨o, holds⟩, mem, wrong⟩ := List.exists_of_findSome?_eq_some first
    rw [others (ExtTreeMap.mem_toList_iff_getElem?_eq_some.1 mem) wrong]
  · next first =>
    have fine := List.findSome?_eq_none_iff.1 first (owner, _)
      (ExtTreeMap.mem_toList_iff_getElem?_eq_some.2 listed)
    simp [faulty] at fine

/-- Granting nothing to somebody who is no holder is the one thing the check objects to. -/
theorem Tidy.fault?_grant_nothing (tidy : r.Tidy) (absent : owner ∉ r.holders) :
    (r.grant owner mode ∅).fault? = some (.noClaims owner) := by
  have nothing : Holds.grant ∅ mode ∅ = ∅ :=
    Classical.not_not.1 fun left => by simpa using Holds.grant_ne_empty_iff.1 left
  apply tidy.fault?_grant
  rw [ExtTreeMap.getElem?_eq_none absent, Option.getD_none, nothing]
  simp [Holds.fault?]

/-- A count that is at its bound does not survive one more of it. -/
theorem Tidy.fault?_grant_full (tidy : r.Tidy) {claim : Claim} (laid : claim ∈ claims)
    (full : r.count owner ⟨mode, claim⟩ = UInt32.size - 1) :
    (r.grant owner mode claims).fault? = some (.zeroCount owner) := by
  apply tidy.fault?_grant
  have some_claim : claims ≠ ∅ := by
    rintro rfl
    exact ExtTreeSet.not_mem_empty laid
  have held : (Holds.grant (r.holders[owner]?.getD ∅) mode claims).isEmpty = false :=
    ExtTreeMap.isEmpty_eq_false_iff.2 (Holds.grant_ne_empty_iff.2 (.inl some_claim))
  have wrapped : (Holds.grant (r.holders[owner]?.getD ∅) mode claims)[(⟨mode, claim⟩ : Hold)]? =
      some 0 := by
    have same : r.tally? owner ⟨mode, claim⟩ =
        (r.holders[owner]?.getD ∅)[(⟨mode, claim⟩ : Hold)]? := by
      rw [tally?]
      cases r.holders[owner]? <;> simp
    rw [Holds.getElem?_grant, if_pos ⟨rfl, laid⟩, ← same]
    exact congrArg some (Holds.oneMore_eq_zero_iff.2 full)
  have zero : (Holds.grant (r.holders[owner]?.getD ∅) mode claims).toList.any (·.2 = 0) := by
    rw [List.any_eq_true]
    exact ⟨_, ExtTreeMap.mem_toList_iff_getElem?_eq_some.2 wrapped, by simp⟩
  rw [Holds.fault?, held, if_neg (by decide), if_pos zero]

end Record

namespace Table

/-- Some object of the request is held in a way that rules the request out. -/
def Obstructed (t : Table) (claims : Claims) (owner : Owner) (mode : Mode) : Prop :=
  ∃ id ∈ claims, ∃ record, t.records[id]? = some record ∧ record.Obstructs owner mode

/-- The request lays no claim on the object, and the owner is not a holder of it yet. -/
def Hollow (t : Table) (claims : Claims) (owner : Owner) (id : Id) : Prop :=
  claims[id]? = some ∅ ∧ ∀ record, t.records[id]? = some record → owner ∉ record.holders

variable {t : Table} {claims : Claims} {owner : Owner} {mode : Mode} {now : Instant}

theorem Sound.conflict?_eq_none_iff (s : t.Sound) :
    t.conflict? claims owner mode = none ↔ ¬t.Obstructed claims owner mode := by
  simp only [conflict?, List.find?_eq_none, ExtTreeMap.mem_keys, Bool.not_eq_true', Obstructed,
    not_exists, not_and, Bool.not_eq_false]
  refine forall₂_congr fun id _ => ?_
  unfold Table.admits
  cases found : t.records[id]? with
  | none => simp
  | some record => simp [(s id record found).admits_iff]

theorem Sound.tidy_base (s : t.Sound) (id : Id) (now : Instant) :
    (t.records.getD id { since := now }).Tidy := by
  rw [ExtTreeMap.getD_eq_getD_getElem?]
  cases found : t.records[id]? with
  | none => exact Record.tidy_new now
  | some record => exact (s id record found).toTidy

/-- A record that is made for a grant counts what the table counts. -/
theorem count_base (t : Table) (id : Id) (now : Instant) (o : Owner) (hold : Hold) :
    (t.records.getD id { since := now }).count o hold = t.count id o hold := by
  rw [ExtTreeMap.getD_eq_getD_getElem?, Record.count, count, tally?]
  cases t.records[id]? with
  | none => simp [Record.tally?]
  | some record => rfl

theorem Sound.staged_hollow (s : t.Sound) (mode : Mode) (now : Instant) {id : Id}
    (hollow : t.Hollow claims owner id) :
    (t.staged owner mode now id ∅).fault? = some (.noClaims owner) := by
  refine (s.tidy_base id now).fault?_grant_nothing ?_
  rw [ExtTreeMap.getD_eq_getD_getElem?]
  cases found : t.records[id]? with
  | none => simp
  | some record => exact hollow.2 record found

theorem Sound.staged_sound (s : t.Sound) (free : ¬t.Obstructed claims owner mode) {id : Id}
    {on : ExtTreeSet Claim} (laid : claims[id]? = some on)
    (room : ∀ claim ∈ on, t.count id owner ⟨mode, claim⟩ ≠ UInt32.size - 1)
    (filled : ¬t.Hollow claims owner id) :
    (t.staged owner mode now id on).fault? = none := by
  have named : id ∈ claims := ExtTreeMap.mem_iff_isSome_getElem?.2 (by simp [laid])
  refine Record.fault?_eq_none_iff.2 ((s.tidy_base id now).sound_grant ?_ ?_ ?_)
  · intro obstructs
    rw [ExtTreeMap.getD_eq_getD_getElem?] at obstructs
    cases found : t.records[id]? with
    | some record =>
      exact free ⟨id, named, record, found, by simpa [found] using obstructs⟩
    | none =>
      rw [found] at obstructs
      cases mode with
      | read =>
        obtain ⟨o, claim, writes⟩ := Record.mode_eq_write_iff.1 obstructs
        simp [Record.tally?] at writes
      | write => simp [Record.Obstructs] at obstructs
  · intro claim mem
    rw [count_base]
    exact room claim mem
  · by_cases nothing : on = ∅
    · subst nothing
      refine .inr (Classical.byContradiction fun absent => filled ⟨laid, fun record found => ?_⟩)
      simpa [ExtTreeMap.getD_eq_getD_getElem?, found] using absent
    · exact .inl nothing

section

variable (s : t.Sound) (free : ¬t.Obstructed claims owner mode)
  (room : ∀ id claim, claim ∈ claims.getD id ∅ → t.count id owner ⟨mode, claim⟩ ≠ UInt32.size - 1)

include s free room

theorem Sound.fault?_staged_iff {id : Id} {on : ExtTreeSet Claim} (laid : claims[id]? = some on)
    (fault : RecordFault) :
    (t.staged owner mode now id on).fault? = some fault ↔
      t.Hollow claims owner id ∧ fault = .noClaims owner := by
  by_cases hollow : t.Hollow claims owner id
  · have nothing : on = ∅ := by simpa [laid] using hollow.1
    rw [nothing, s.staged_hollow mode now hollow]
    simp [hollow, eq_comm]
  · have room : ∀ claim ∈ on, t.count id owner ⟨mode, claim⟩ ≠ UInt32.size - 1 := by
      intro claim mem
      exact room id claim (by simpa [ExtTreeMap.getD_eq_getD_getElem?, laid] using mem)
    rw [s.staged_sound free laid room hollow]
    simp [hollow]

theorem Sound.stagedFault?_eq_none_iff :
    t.stagedFault? claims owner mode now = none ↔ ∀ id, ¬t.Hollow claims owner id := by
  simp only [stagedFault?, List.findSome?_eq_none_iff, Prod.forall, Option.map_eq_none_iff,
    ExtTreeMap.mem_toList_iff_getElem?_eq_some]
  constructor
  · intro fine id hollow
    have faulty := s.staged_hollow mode now hollow
    simp [fine id ∅ hollow.1] at faulty
  · intro filled id on laid
    refine Option.eq_none_iff_forall_ne_some.2 fun fault faulty => ?_
    exact filled id ((s.fault?_staged_iff free room laid fault).1 faulty).1

/-- The error names the first object, in order of the names, for which there is nothing to take. -/
theorem Sound.stagedFault?_eq_some (e : LockError)
    (faulty : t.stagedFault? claims owner mode now = some e) :
    ∃ id, e = .brokenRecord id (.noClaims owner) ∧ t.Hollow claims owner id ∧
      ∀ other, t.Hollow claims owner other → other = id ∨ id < other := by
  obtain ⟨before, ⟨id, on⟩, after, split, faulty, fine⟩ := List.findSome?_eq_some_iff.1 faulty
  have laid : claims[id]? = some on :=
    ExtTreeMap.mem_toList_iff_getElem?_eq_some.1 (by simp [split])
  obtain ⟨fault, found, rfl⟩ := Option.map_eq_some_iff.1 faulty
  obtain ⟨hollow, rfl⟩ := (s.fault?_staged_iff free room laid fault).1 found
  refine ⟨id, rfl, hollow, fun other also => ?_⟩
  have listed : (other, ∅) ∈ before ++ (id, on) :: after :=
    split ▸ ExtTreeMap.mem_toList_iff_getElem?_eq_some.2 also.1
  have ordered := claims.ordered_keys_toList
  rw [split, List.pairwise_append, List.pairwise_cons] at ordered
  obtain earlier | same | later : _ ∨ _ ∨ _ := by simpa using listed
  · simpa [s.staged_hollow mode now also] using fine _ earlier
  · exact .inl same.1
  · exact .inr (compareOfLessAndEq_eq_lt.1 (ordered.2.1.1 _ later))

end

/-- An acquisition meets a conflict exactly if something obstructs it. If nothing does, it fails
exactly if the request is hollow for some object, and is granted otherwise. Unless it is granted,
the table stays as it was. If it is, the owner has every hold asked for once more than before,
and nothing else is different. -/
theorem Reachable.all_or_nothing {t : Table} (h : t.Reachable) (claims : Claims) (owner : Owner)
    (mode : Mode) (now : Instant)
    (room : ∀ id claim, claim ∈ claims.getD id ∅ →
      t.count id owner ⟨mode, claim⟩ ≠ UInt32.size - 1) :
    ((∃ id u, t.tryAcquire claims owner mode now = .ok (.conflict id) u) ↔
      t.Obstructed claims owner mode) ∧
    ((∃ e u, t.tryAcquire claims owner mode now = .error e u) ↔
      ¬t.Obstructed claims owner mode ∧ ∃ id, t.Hollow claims owner id) ∧
    ((∃ u, t.tryAcquire claims owner mode now = .ok .granted u) ↔
      ¬t.Obstructed claims owner mode ∧ ∀ id, ¬t.Hollow claims owner id) ∧
    (∀ id u, t.tryAcquire claims owner mode now = .ok (.conflict id) u → u = t) ∧
    (∀ e u, t.tryAcquire claims owner mode now = .error e u → u = t ∧
      ∃ id, e = .brokenRecord id (.noClaims owner) ∧ e.kind = .invariantViolation ∧
        t.Hollow claims owner id ∧ ∀ other, t.Hollow claims owner other → other = id ∨ id < other) ∧
    (∀ u, t.tryAcquire claims owner mode now = .ok .granted u →
      (∀ x o hold, u.count x o hold = t.count x o hold +
        if owner = o ∧ hold.mode = mode ∧ hold.claim ∈ claims.getD x ∅ then 1 else 0) ∧
      ∀ x, x ∉ claims → u.records[x]? = t.records[x]?) := by
  have s := h.sound
  obtain ⟨id, blocked, e⟩ | ⟨clear, fault, faulty, e⟩ | ⟨clear, passed, e⟩ :=
    t.tryAcquire_cases claims owner mode now
  · have obstructed : t.Obstructed claims owner mode :=
      Classical.not_not.1 fun free => by simp [s.conflict?_eq_none_iff.2 free] at blocked
    simp [e, obstructed]
  · have free := s.conflict?_eq_none_iff.1 clear
    obtain ⟨id, rfl, hollow, first⟩ := s.stagedFault?_eq_some free room fault faulty
    have gap : ∃ id, t.Hollow claims owner id := ⟨id, hollow⟩
    have not_filled : ¬∀ id, ¬t.Hollow claims owner id := fun filled => filled id hollow
    rw [e]
    refine ⟨by simp [free], by simp [free, gap], by simp [not_filled], by simp, ?_, by simp⟩
    intro e u ended
    cases ended
    exact ⟨rfl, id, rfl, rfl, hollow, first⟩
  · have free := s.conflict?_eq_none_iff.1 clear
    have filled := (s.stagedFault?_eq_none_iff free room).1 passed
    rw [e]
    refine ⟨by simp [free], by simp [filled], by simp [free, filled], by simp, by simp, ?_⟩
    intro u ended
    cases ended
    refine ⟨s.count_granted passed, fun x outside => ?_⟩
    rw [getElem?_granted, ExtTreeMap.getElem?_eq_none outside]

/-- The table after alice was granted a read lock on `a`. -/
def aliceReads : Table :=
  leaves (tryAcquire ((∅ : Claims).insert "a" {.direct}) "alice" .read 0 empty)

/-- Direct claims on `a` and `b`, and nothing at all on `c`. -/
def withGap : Claims := ((∅ : Claims).insert "a" {.direct}).insert "b" {.direct} |>.insert "c" ∅

theorem aliceReads_withGap :
    aliceReads.Reachable ∧
      (∀ id claim, claim ∈ withGap.getD id ∅ →
        aliceReads.count id "alice" ⟨.write, claim⟩ ≠ UInt32.size - 1) ∧
      ∃ e u, aliceReads.tryAcquire withGap "alice" .write 0 = .error e u ∧ u = aliceReads ∧
        e.kind = .invariantViolation := by
  have reached : aliceReads.Reachable := .next .empty (.acquire _ _ _)
  have room : ∀ id claim, claim ∈ withGap.getD id ∅ →
      aliceReads.count id "alice" ⟨.write, claim⟩ ≠ UInt32.size - 1 := by
    intro id claim mem
    have laid : claim = .direct ∧ (id = "a" ∨ id = "b") := by
      simp only [withGap, ExtTreeMap.getD_insert, Std.compare_eq_iff_eq] at mem
      split at mem
      · simp at mem
      · split at mem
        · next e => exact ⟨(Std.compare_eq_iff_eq.1 (by simpa using mem)).symm, .inr e.symm⟩
        · split at mem
          · next e => exact ⟨(Std.compare_eq_iff_eq.1 (by simpa using mem)).symm, .inl e.symm⟩
          · simp at mem
    obtain ⟨rfl, rfl | rfl⟩ := laid <;> cbv
  have outcome := reached.all_or_nothing withGap "alice" .write 0 room
  have clear : aliceReads.conflict? withGap "alice" .write = none := by cbv
  have hollow : aliceReads.Hollow withGap "alice" "c" := by
    refine ⟨by cbv, fun record found => ?_⟩
    have fresh : aliceReads.records["c"]? = none := by cbv
    cases fresh.symm.trans found
  obtain ⟨e, u, failed⟩ :=
    outcome.2.1.2 ⟨reached.sound.conflict?_eq_none_iff.1 clear, "c", hollow⟩
  obtain ⟨same, id, named, kind, _⟩ := outcome.2.2.2.2.1 e u failed
  exact ⟨reached, room, e, u, failed, same, kind⟩

end Table

end SceneLock
