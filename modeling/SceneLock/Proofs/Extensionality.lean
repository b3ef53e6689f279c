import SceneLock.Proofs.Dates
import SceneLock.Proofs.Soundness

/-!
Sound tables are the same if the same holds are counted in them equally often, and the same objects
are locked since the same time.
-/

namespace SceneLock

open Std

theorem Holds.amount_inj {m n : Option UInt32} (hm : m ≠ some 0) (hn : n ≠ some 0)
    (same : amount m = amount n) : m = n := by
  cases m with
  | none => exact ((amount_eq_zero hn).1 same.symm).symm
  | some a =>
    cases n with
    | none => exact (amount_eq_zero hm).1 same
    | some b => exact congrArg some (UInt32.toNat_inj.1 same)

theorem Record.Sound.holders_eq {r q : Record} (hr : r.Sound) (hq : q.Sound)
    (tallies : ∀ o hold, r.tally? o hold = q.tally? o hold) : r.holders = q.holders := by
  refine ExtTreeMap.ext_getElem? fun o => ?_
  have present : o ∈ r.holders ↔ o ∈ q.holders := by
    rw [hr.mem_holders_iff, hq.mem_holders_iff]
    simp only [tallies]
  cases mine : r.holders[o]? with
  | none =>
    have absent : o ∉ r.holders := by simp [ExtTreeMap.mem_iff_isSome_getElem?, mine]
    exact (ExtTreeMap.getElem?_eq_none (mt present.2 absent)).symm
  | some holds =>
    have there := present.1 (ExtTreeMap.mem_iff_isSome_getElem?.2 (by simp [mine]))
    obtain ⟨others, theirs⟩ :=
      Option.isSome_iff_exists.1 (ExtTreeMap.mem_iff_isSome_getElem?.1 there)
    rw [theirs]
    refine congrArg some (ExtTreeMap.ext_getElem? fun hold => ?_)
    simpa [tally?, mine, theirs] using tallies o hold

namespace Table

/-- Since when an object is locked, if it is. -/
def since? (t : Table) (x : Id) : Option Instant := t.records[x]?.map (·.since)

theorem mem_records_iff_since? {t : Table} {x : Id} : x ∈ t.records ↔ (t.since? x).isSome := by
  rw [since?, Option.isSome_map, ExtTreeMap.mem_iff_isSome_getElem?]

theorem mem_records_of_since?_eq {t u : Table} {x : Id} (mem : x ∈ t.records)
    (same : u.since? x = t.since? x) : x ∈ u.records := by
  rw [mem_records_iff_since?, same]
  exact mem_records_iff_since?.1 mem

variable {t u : Table}

theorem Sound.tally?_eq_of_count_eq (s : t.Sound) (v : u.Sound) {x : Id} {o : Owner} {hold : Hold}
    (same : t.count x o hold = u.count x o hold) : t.tally? x o hold = u.tally? x o hold :=
  Holds.amount_inj (s.counted x o hold) (v.counted x o hold) same

/-- Sound tables with the same counts have the same holders, if perhaps since another time. -/
theorem Sound.sameHolders (s : t.Sound) (v : u.Sound)
    (counts : ∀ x o hold, t.count x o hold = u.count x o hold) : t.SameHolders u := by
  intro x
  have present : x ∈ t.records ↔ x ∈ u.records := by
    rw [s.mem_records_iff, v.mem_records_iff]
    simp only [counts]
  cases mine : t.records[x]? with
  | none =>
    have absent : x ∉ t.records := by simp [ExtTreeMap.mem_iff_isSome_getElem?, mine]
    rw [ExtTreeMap.getElem?_eq_none (mt present.2 absent)]
  | some r =>
    have here : x ∈ t.records := ExtTreeMap.mem_iff_isSome_getElem?.2 (by simp [mine])
    obtain ⟨q, theirs⟩ := Option.isSome_iff_exists.1
      (ExtTreeMap.mem_iff_isSome_getElem?.1 (present.1 here))
    rw [theirs]
    refine congrArg some ((s x r mine).holders_eq (v x q theirs) fun o hold => ?_)
    simpa [tally?, mine, theirs] using s.tally?_eq_of_count_eq v (counts x o hold)

theorem Sound.ext (s : t.Sound) (v : u.Sound)
    (counts : ∀ x o hold, t.count x o hold = u.count x o hold)
    (dates : ∀ x ∈ t.records, t.since? x = u.since? x) : t = u := by
  have records : t.records = u.records := by
    refine ExtTreeMap.ext_getElem? fun x => ?_
    obtain ⟨mine, theirs⟩ | ⟨r, q, mine, theirs, holders⟩ :=
      (s.sameHolders v counts).record_cases x
    · rw [mine, theirs]
    · have here : x ∈ t.records := ExtTreeMap.mem_iff_isSome_getElem?.2 (by simp [mine])
      have since : r.since = q.since := by simpa [since?, mine, theirs] using dates x here
      rw [mine, theirs]
      cases r
      cases q
      simp_all
  cases t
  cases u
  simp_all

/-- A table without a single count is the empty one: it keeps no record for nobody. -/
theorem Sound.eq_empty (s : t.Sound) (nothing : ∀ x o hold, t.count x o hold = 0) :
    t = Table.empty := by
  refine s.ext sound_empty nothing fun x mem => ?_
  obtain ⟨o, hold, held⟩ := s.mem_records_iff.1 mem
  rw [nothing x o hold] at held
  exact absurd held (Nat.lt_irrefl 0)

theorem since?_revoke {owner : Owner} {hold : Hold} {on : Id → Bool} {x : Id}
    (left : x ∈ (t.revoke owner hold on).2.records) :
    (t.revoke owner hold on).2.since? x = t.since? x := by
  rw [ExtTreeMap.mem_iff_isSome_getElem?, getElem?_revoke] at left
  simp only [since?, getElem?_revoke]
  cases found : t.records[x]? with
  | none => rfl
  | some record =>
    simp only [found, Option.bind_some] at left ⊢
    split
    · next touched =>
      rw [if_pos touched] at left
      split at left
      · cases left
      · next kept => rw [if_neg kept]; rfl
    · rfl

theorem since?_releaseOne {owner : Owner} {mode : Mode} {tree : Bool} {id x : Id}
    (left : x ∈ (t.releaseOne owner mode tree id).2.records) :
    (t.releaseOne owner mode tree id).2.since? x = t.since? x := by
  unfold releaseOne at left ⊢
  split at left
  · next e => rw [if_pos e]; exact since?_revoke left
  · next e => rw [if_neg e]; exact since?_revoke left

theorem since?_releaseEach {owner : Owner} {mode : Mode} {tree : Bool} {ids : List Id} {x : Id}
    (left : x ∈ (t.releaseEach owner mode tree ids).records) :
    (t.releaseEach owner mode tree ids).since? x = t.since? x := by
  unfold releaseEach at left ⊢
  induction ids generalizing t with
  | nil => rfl
  | cons id rest ih =>
    rw [List.foldl_cons] at left ⊢
    have later := ih left
    have between := mem_records_of_since?_eq left later.symm
    rw [later, since?_releaseOne between]

/-- Whatever is still locked after a release is locked since the same time as before. -/
theorem since?_release {ids : List Id} {owner : Owner} {mode : Mode} {tree : Bool} {x : Id}
    (left : x ∈ (t.release ids owner mode tree).2.records) :
    (t.release ids owner mode tree).2.since? x = t.since? x := by
  rw [release_eq_releaseEach] at left ⊢
  exact since?_releaseEach left

theorem since?_granted {claims : Claims} {owner : Owner} {mode : Mode} {now : Instant} {x : Id}
    (mem : x ∈ t.records) : (t.granted claims owner mode now).since? x = t.since? x := by
  obtain ⟨record, found⟩ := Option.isSome_iff_exists.1 (ExtTreeMap.mem_iff_isSome_getElem?.1 mem)
  simp only [since?, getElem?_granted]
  split
  · simp [staged, ExtTreeMap.getD_eq_getD_getElem?, found, Record.grant]
  · rfl

/-- A release that finds nothing to give back changes nothing. -/
theorem Sound.release_eq_self (s : t.Sound) {ids : List Id} {owner : Owner} {mode : Mode}
    {tree : Bool}
    (nothing : ∀ x claim, (claim.origin x).1 = tree → (claim.origin x).2 ∈ ids →
      t.count x owner ⟨mode, claim⟩ = 0) : (t.release ids owner mode tree).2 = t := by
  refine (s.release ids owner mode tree).ext s (fun x o hold => ?_) fun x mem => since?_release mem
  rw [s.count_release]
  split
  · next taken =>
    obtain ⟨rfl, rfl, shape, named⟩ := taken
    rw [nothing x hold.claim shape named]
  · rfl

end Table

end SceneLock
