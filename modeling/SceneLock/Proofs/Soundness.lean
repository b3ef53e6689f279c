import SceneLock.Proofs.Counts

/-!
Sound records and tables. A record is sound if its check finds no fault in it. Every operation on
the table keeps all records sound, whatever it is called with.
-/

namespace SceneLock

open Std

theorem ne_empty_iff_exists_mem {K V : Type} [Ord K] [TransOrd K] {m : ExtTreeMap K V} :
    m ≠ ∅ ↔ ∃ a, a ∈ m := by
  simp [ExtTreeMap.eq_empty_iff_forall_not_mem]

theorem keys_eq_singleton_iff {V : Type} {m : ExtTreeMap String V} {a : String} :
    m.keys = [a] ↔ a ∈ m ∧ ∀ b ∈ m, b = a := by
  rw [eq_singleton_iff_of_nodup m.nodup_keys]
  simp only [ExtTreeMap.mem_keys]
  constructor
  · intro same
    exact ⟨(same a).2 rfl, fun b mem => (same b).1 mem⟩
  · rintro ⟨present, only⟩ b
    exact ⟨only b, fun same => same ▸ present⟩

/-- What holds of a record even before its first grant. -/
structure Record.Tidy (r : Record) : Prop where
  holding : ∀ owner : Owner, r.holders[owner]? ≠ some ∅
  counted : ∀ owner hold, r.tally? owner hold ≠ some 0

structure Record.Sound (r : Record) : Prop extends r.Tidy where
  held : r.holders ≠ ∅
  alone : ∀ owner claim, (r.tally? owner ⟨.write, claim⟩).isSome →
    ∀ other ∈ r.holders, other = owner

namespace Holds

theorem fault?_eq_none_iff {holds : Holds} {owner : Owner} :
    holds.fault? owner = none ↔ holds ≠ ∅ ∧ ∀ hold : Hold, holds[hold]? ≠ some 0 := by
  have counts : holds.toList.any (·.2 = 0) ↔ ∃ hold : Hold, holds[hold]? = some 0 := by
    simp only [List.any_eq_true, Prod.exists, ExtTreeMap.mem_toList_iff_getElem?_eq_some,
      decide_eq_true_eq]
    constructor
    · rintro ⟨hold, n, found, rfl⟩
      exact ⟨hold, found⟩
    · rintro ⟨hold, found⟩
      exact ⟨hold, 0, found, rfl⟩
  simp only [fault?, counts]
  split
  · simp_all
  · split <;> simp_all

end Holds

namespace Record

theorem tally?_isSome_iff {r : Record} {owner : Owner} {hold : Hold} :
    (r.tally? owner hold).isSome ↔
      ∃ holds, r.holders[owner]? = some holds ∧ hold ∈ holds := by
  simp only [tally?]
  cases r.holders[owner]? <;> simp

theorem mem_holders_of_isSome {r : Record} {owner : Owner} {hold : Hold}
    (has : (r.tally? owner hold).isSome) : owner ∈ r.holders := by
  obtain ⟨holds, found, _⟩ := tally?_isSome_iff.1 has
  exact ExtTreeMap.mem_iff_isSome_getElem?.2 (by simp [found])

theorem mode_eq_write_iff {r : Record} :
    r.mode = .write ↔ ∃ owner claim, (r.tally? owner ⟨.write, claim⟩).isSome := by
  have listed : r.holders.toList.any (·.2.keys.any (·.mode = .write)) ↔
      ∃ owner claim, (r.tally? owner ⟨.write, claim⟩).isSome := by
    simp only [List.any_eq_true, Prod.exists, ExtTreeMap.mem_toList_iff_getElem?_eq_some,
      ExtTreeMap.mem_keys, decide_eq_true_eq, tally?_isSome_iff]
    constructor
    · rintro ⟨owner, holds, found, ⟨_, claim⟩, mem, rfl⟩
      exact ⟨owner, claim, holds, found, mem⟩
    · rintro ⟨owner, claim, holds, found, mem⟩
      exact ⟨owner, holds, found, _, mem, rfl⟩
  rw [← listed, mode]
  split
  · next any => exact ⟨fun _ => any, fun _ => rfl⟩
  · next any => exact ⟨(nomatch ·), fun h => absurd h any⟩

theorem soleHolder?_eq_some_iff {r : Record} {owner : Owner} :
    r.soleHolder? = some owner ↔ owner ∈ r.holders ∧ ∀ other ∈ r.holders, other = owner := by
  rw [← keys_eq_singleton_iff, soleHolder?]
  split <;> simp_all

theorem size_holders_eq_one_iff {r : Record} :
    r.holders.size = 1 ↔ ∃ owner ∈ r.holders, ∀ other ∈ r.holders, other = owner := by
  simp only [← keys_eq_singleton_iff, ← ExtTreeMap.length_keys, List.length_eq_one_iff]

theorem tidy_iff {r : Record} :
    (r.holders.toList.findSome? fun (owner, holds) => holds.fault? owner) = none ↔ r.Tidy := by
  simp only [List.findSome?_eq_none_iff, Prod.forall, ExtTreeMap.mem_toList_iff_getElem?_eq_some,
    Holds.fault?_eq_none_iff]
  constructor
  · intro ordered
    refine ⟨fun owner empty => (ordered owner _ empty).1 rfl, fun owner hold zero => ?_⟩
    obtain ⟨holds, found, zero⟩ := Option.bind_eq_some_iff.1 zero
    exact (ordered owner holds found).2 hold zero
  · rintro ⟨holding, counted⟩ owner holds found
    refine ⟨fun empty => holding owner (empty ▸ found), fun hold zero => ?_⟩
    exact counted owner hold (by simp [tally?, found, zero])

theorem single_if_write_iff {r : Record} :
    (r.mode = .write → r.holders.size = 1) ↔
      ∀ owner claim, (r.tally? owner ⟨.write, claim⟩).isSome →
        ∀ other ∈ r.holders, other = owner := by
  rw [size_holders_eq_one_iff, mode_eq_write_iff]
  constructor
  · intro single owner claim writes other mem
    obtain ⟨sole, _, only⟩ := single ⟨owner, claim, writes⟩
    rw [only other mem, only owner (mem_holders_of_isSome writes)]
  · rintro alone ⟨owner, claim, writes⟩
    exact ⟨owner, mem_holders_of_isSome writes, alone owner claim writes⟩

/-- The check passes a record exactly if the record is sound. -/
theorem fault?_eq_none_iff {r : Record} : r.fault? = none ↔ r.Sound := by
  have parts : r.Sound ↔
      r.holders ≠ ∅ ∧ r.Tidy ∧ (r.mode = .write → r.holders.size = 1) := by
    rw [single_if_write_iff]
    exact ⟨fun s => ⟨s.held, s.toTidy, s.alone⟩, fun s => ⟨s.2.1, s.1, s.2.2⟩⟩
  rw [parts, ← tidy_iff, fault?]
  split
  · next empty => simp [ExtTreeMap.isEmpty_iff.1 empty]
  · next held =>
    have held : r.holders ≠ ∅ := fun empty => held (ExtTreeMap.isEmpty_iff.2 empty)
    split
    · next found => simp [found]
    · next found => simp [found, held]

theorem Sound.mem_holders_iff {r : Record} (s : r.Sound) {owner : Owner} :
    owner ∈ r.holders ↔ ∃ hold, (r.tally? owner hold).isSome := by
  constructor
  · intro mem
    obtain ⟨holds, found⟩ := Option.isSome_iff_exists.1 (ExtTreeMap.mem_iff_isSome_getElem?.1 mem)
    have holding : holds ≠ ∅ := fun empty => s.holding owner (empty ▸ found)
    obtain ⟨hold, mem⟩ := ne_empty_iff_exists_mem.1 holding
    exact ⟨hold, tally?_isSome_iff.2 ⟨holds, found, mem⟩⟩
  · rintro ⟨hold, has⟩
    exact mem_holders_of_isSome has

/-- Some of what the owner holds, perhaps counted less often, but never zero times. -/
def Part (r : Record) (owner : Owner) (holds : Holds) : Prop :=
  holds ≠ ∅ ∧ ∃ before, r.holders[owner]? = some before ∧
    ∀ (hold : Hold) (n : UInt32), holds[hold]? = some n → n ≠ 0 ∧ hold ∈ before

/-- Taking counts away keeps a record sound, as long as somebody is left and nobody is left
without a hold. -/
theorem Sound.shrink {r left : Record} (s : r.Sound) (held : left.holders ≠ ∅)
    (fewer : ∀ (owner : Owner) (holds : Holds), left.holders[owner]? = some holds →
      r.Part owner holds) : left.Sound where
  held := held
  holding owner empty := (fewer owner ∅ empty).1 rfl
  counted owner hold zero := by
    obtain ⟨holds, found, zero⟩ := Option.bind_eq_some_iff.1 zero
    obtain ⟨_, before, _, counts⟩ := fewer owner holds found
    exact (counts hold 0 zero).1 rfl
  alone owner claim writes other mem := by
    obtain ⟨holds, found, mine⟩ := tally?_isSome_iff.1 writes
    obtain ⟨_, before, was, counts⟩ := fewer owner holds found
    obtain ⟨n, counted⟩ := Option.isSome_iff_exists.1 (ExtTreeMap.mem_iff_isSome_getElem?.1 mine)
    obtain ⟨theirs, there⟩ := Option.isSome_iff_exists.1 (ExtTreeMap.mem_iff_isSome_getElem?.1 mem)
    obtain ⟨_, _, present, _⟩ := fewer other theirs there
    refine s.alone owner claim (tally?_isSome_iff.2 ⟨before, was, (counts _ n counted).2⟩) other ?_
    exact ExtTreeMap.mem_iff_isSome_getElem?.2 (by simp [present])

theorem Sound.part {r : Record} (s : r.Sound) {owner : Owner} {holds : Holds}
    (found : r.holders[owner]? = some holds) : r.Part owner holds := by
  have holding : holds ≠ ∅ := fun empty => s.holding owner (empty ▸ found)
  refine ⟨holding, holds, found, fun hold n counted => ⟨?_, ?_⟩⟩
  · rintro rfl
    exact s.counted owner hold (by simp [tally?, found, counted])
  · exact ExtTreeMap.mem_iff_isSome_getElem?.2 (by simp [counted])

theorem Sound.revoke {r : Record} (s : r.Sound) (owner : Owner) (hold : Hold)
    (left : (r.revoke owner hold).isEmpty = false) : (r.revoke owner hold).Sound := by
  refine s.shrink (ExtTreeMap.isEmpty_eq_false_iff.1 left) fun o holds found => ?_
  simp only [Record.revoke, ExtTreeMap.getElem?_alter, Std.compare_eq_iff_eq] at found
  split at found
  · next e =>
    subst e
    obtain ⟨before, was, found⟩ := Option.bind_eq_some_iff.1 found
    split at found
    · cases found
    · next left =>
      cases found
      refine ⟨fun empty => left (by simp [empty]), before, was, fun h n counted => ?_⟩
      rw [Holds.getElem?_revoke] at counted
      split at counted
      · obtain ⟨m, was_counted, counted⟩ := Option.bind_eq_some_iff.1 counted
        refine ⟨?_, ExtTreeMap.mem_iff_isSome_getElem?.2 (by simp [was_counted])⟩
        rintro rfl
        exact Holds.oneLess_ne_zero m counted
      · obtain ⟨_, _, same, counts⟩ := s.part was
        cases was.symm.trans same
        exact counts h n counted
  · exact s.part found

theorem Sound.evict {r : Record} (s : r.Sound) (owner : Owner)
    (left : (r.evict owner).isEmpty = false) : (r.evict owner).Sound := by
  refine s.shrink (ExtTreeMap.isEmpty_eq_false_iff.1 left) fun o holds found => ?_
  simp only [Record.evict, ExtTreeMap.getElem?_erase, Std.compare_eq_iff_eq] at found
  split at found
  · cases found
  · exact s.part found

end Record

namespace Table

def Sound (t : Table) : Prop :=
  ∀ (id : Id) (record : Record), t.records[id]? = some record → record.Sound

theorem sound_empty : empty.Sound := by
  intro id record found
  simp [empty] at found

theorem Sound.revoke {t : Table} (s : t.Sound) (owner : Owner) (hold : Hold) (on : Id → Bool) :
    (t.revoke owner hold on).2.Sound := by
  intro id record found
  rw [getElem?_revoke] at found
  obtain ⟨before, present, found⟩ := Option.bind_eq_some_iff.1 found
  have sound := s id before present
  split at found
  · split at found
    · cases found
    · next left =>
      cases found
      exact sound.revoke owner hold (Bool.eq_false_iff.2 left)
  · cases found
    exact sound

theorem Sound.releaseOne {t : Table} (s : t.Sound) (owner : Owner) (mode : Mode) (tree : Bool)
    (id : Id) : (t.releaseOne owner mode tree id).2.Sound := by
  unfold Table.releaseOne
  split <;> exact s.revoke _ _ _

theorem Sound.releaseEach {t : Table} (s : t.Sound) (owner : Owner) (mode : Mode) (tree : Bool)
    (ids : List Id) : (t.releaseEach owner mode tree ids).Sound := by
  unfold Table.releaseEach
  induction ids generalizing t with
  | nil => exact s
  | cons id rest ih => exact ih (s.releaseOne owner mode tree id)

theorem Sound.release {t : Table} (s : t.Sound) (ids : List Id) (owner : Owner) (mode : Mode)
    (tree : Bool) : (t.release ids owner mode tree).2.Sound := by
  rw [release_eq_releaseEach]
  exact s.releaseEach owner mode tree _

theorem Sound.releaseOwner {t : Table} (s : t.Sound) (owner : Owner) :
    (t.releaseOwner owner).2.Sound := by
  intro id record found
  simp only [Table.releaseOwner, ExtTreeMap.getElem?_filterMap'] at found
  obtain ⟨before, present, found⟩ := Option.bind_eq_some_iff.1 found
  split at found
  · cases found
  · next left =>
    cases found
    exact (s id before present).evict owner (Bool.eq_false_iff.2 left)

/-- All records of a grant were checked before they were put in place. -/
theorem Sound.granted {t : Table} (s : t.Sound) {claims : Claims} {owner : Owner} {mode : Mode}
    {now : Instant} (passed : t.stagedFault? claims owner mode now = none) :
    (t.granted claims owner mode now).Sound := by
  intro id record found
  rw [getElem?_granted] at found
  split at found
  · next on laid =>
    cases found
    have passed := List.findSome?_eq_none_iff.1 passed (id, on)
      (ExtTreeMap.mem_toList_iff_getElem?_eq_some.2 laid)
    exact Record.fault?_eq_none_iff.1 (by simpa using passed)
  · exact s id record found

theorem Sound.counted {t : Table} (s : t.Sound) (x : Id) (o : Owner) (h : Hold) :
    t.tally? x o h ≠ some 0 := by
  intro zero
  obtain ⟨record, found, zero⟩ := Option.bind_eq_some_iff.1 zero
  exact (s x record found).counted o h zero

theorem Sound.count_pos_iff {t : Table} (s : t.Sound) {x : Id} {o : Owner} {h : Hold} :
    0 < t.count x o h ↔ (t.tally? x o h).isSome := by
  rw [Nat.pos_iff_ne_zero, count, Option.isSome_iff_ne_none]
  exact not_congr (Holds.amount_eq_zero (s.counted x o h))

/-- The holders of an object are those who have a count on it. -/
theorem Sound.holder_iff {t : Table} (s : t.Sound) {x : Id} {o : Owner} :
    (∃ record, t.records[x]? = some record ∧ o ∈ record.holders) ↔
      ∃ hold, 0 < t.count x o hold := by
  simp only [s.count_pos_iff, tally?]
  cases found : t.records[x]? with
  | none => simp
  | some record => simp [(s x record found).mem_holders_iff]

theorem Sound.mem_records_iff {t : Table} (s : t.Sound) {x : Id} :
    x ∈ t.records ↔ ∃ o hold, 0 < t.count x o hold := by
  simp only [← s.holder_iff, ExtTreeMap.mem_iff_isSome_getElem?]
  cases found : t.records[x]? with
  | none => simp
  | some record =>
    have held := ne_empty_iff_exists_mem.1 (s x record found).held
    simpa using held

/-- What a release takes back is one count each, and only where there is one. -/
theorem Sound.count_release {t : Table} (s : t.Sound) (ids : List Id) (owner o : Owner)
    (mode : Mode) (tree : Bool) (x : Id) (h : Hold) :
    (t.release ids owner mode tree).2.count x o h = t.count x o h -
      if owner = o ∧ h.mode = mode ∧ (h.claim.origin x).1 = tree ∧ (h.claim.origin x).2 ∈ ids then 1
      else 0 := by
  rw [release_eq_releaseEach, count, tally?_releaseEach t owner o mode tree (nodup_distinct ids)]
  simp only [mem_distinct]
  split
  · exact Holds.amount_oneLess (s.counted x o h)
  · rfl

theorem count_releaseOwner (t : Table) (owner o : Owner) (x : Id) (h : Hold) :
    (t.releaseOwner owner).2.count x o h = if owner = o then 0 else t.count x o h := by
  rw [count, tally?_releaseOwner]
  split <;> rfl

/-- A grant that passed the check has not taken any count past its bound. -/
theorem Sound.count_granted {t : Table} (s : t.Sound) {claims : Claims} {owner : Owner}
    {mode : Mode} {now : Instant} (passed : t.stagedFault? claims owner mode now = none)
    (x : Id) (o : Owner) (h : Hold) :
    (t.granted claims owner mode now).count x o h = t.count x o h +
      if owner = o ∧ h.mode = mode ∧ h.claim ∈ claims.getD x ∅ then 1 else 0 := by
  have counted := (s.granted passed).counted x o h
  rw [tally?_granted] at counted
  rw [count, tally?_granted]
  split
  · next new =>
    rw [if_pos new] at counted
    exact Holds.amount_oneMore (by simpa using counted)
  · rfl

end Table

end SceneLock
