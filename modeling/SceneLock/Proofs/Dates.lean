import SceneLock.Proofs.Counts

/-!
Since when an object is locked is told to whoever asks, but decides nothing: tables that differ in
that alone go on to differ in that alone, whenever the same is done to them.
-/

namespace SceneLock

open Std

namespace Record

variable {r q : Record}

theorem admits_congr (same : r.holders = q.holders) (owner : Owner) (mode : Mode) :
    r.admits owner mode = q.admits owner mode := by
  obtain ⟨holders, since⟩ := r
  obtain ⟨_, _⟩ := q
  obtain rfl : holders = _ := same
  cases mode <;> rfl

theorem fault?_congr (same : r.holders = q.holders) : r.fault? = q.fault? := by
  obtain ⟨holders, since⟩ := r
  obtain ⟨_, _⟩ := q
  obtain rfl : holders = _ := same
  rfl

theorem mode_congr (same : r.holders = q.holders) : r.mode = q.mode := by
  simp only [Record.mode, same]

theorem covers_congr (same : r.holders = q.holders) (id : Id) (owner : Owner) (mode : Mode)
    (tree : Bool) : r.covers id owner mode tree = q.covers id owner mode tree := by
  simp only [covers, same]

/-- A record that is dropped when nobody is left in it. -/
theorem map_holders_congr (same : r.holders = q.holders) :
    (if r.isEmpty then none else some r : Option Record).map holders =
      (if q.isEmpty then none else some q : Option Record).map holders := by
  have empty : r.isEmpty = q.isEmpty := congrArg ExtTreeMap.isEmpty same
  rw [empty]
  split
  · rfl
  · exact congrArg some same

end Record

namespace Table

/-- The same objects are held by the same owners in the same way, if not since the same time. -/
def SameHolders (t u : Table) : Prop :=
  ∀ x : Id, t.records[x]?.map Record.holders = u.records[x]?.map Record.holders

namespace SameHolders

variable {t u : Table}

theorem refl (t : Table) : t.SameHolders t := fun _ => rfl

theorem record_cases (same : t.SameHolders u) (x : Id) :
    (t.records[x]? = none ∧ u.records[x]? = none) ∨
      ∃ r q, t.records[x]? = some r ∧ u.records[x]? = some q ∧ r.holders = q.holders := by
  have here := same x
  cases mine : t.records[x]? with
  | none =>
    rw [mine] at here
    exact .inl ⟨rfl, Option.map_eq_none_iff.1 here.symm⟩
  | some r =>
    rw [mine] at here
    obtain ⟨q, theirs, holders⟩ := Option.map_eq_some_iff.1 here.symm
    exact .inr ⟨r, q, rfl, theirs, holders.symm⟩

variable {claims : Claims} {owner : Owner} {mode : Mode} {now later : Instant}

theorem conflict?_eq (same : t.SameHolders u) :
    t.conflict? claims owner mode = u.conflict? claims owner mode := by
  have admits (x : Id) : t.admits x owner mode = u.admits x owner mode := by
    unfold Table.admits
    obtain ⟨mine, theirs⟩ | ⟨r, q, mine, theirs, holders⟩ := same.record_cases x
    · rw [mine, theirs]
    · rw [mine, theirs]
      exact Record.admits_congr holders owner mode
  simp only [conflict?, admits]

theorem holders_staged (same : t.SameHolders u) (x : Id) (on : ExtTreeSet Claim) :
    (t.staged owner mode now x on).holders = (u.staged owner mode later x on).holders := by
  simp only [staged, ExtTreeMap.getD_eq_getD_getElem?]
  obtain ⟨mine, theirs⟩ | ⟨r, q, mine, theirs, holders⟩ := same.record_cases x
  · rw [mine, theirs]
    rfl
  · rw [mine, theirs]
    simp only [Option.getD_some, Record.grant, holders]

theorem stagedFault?_eq (same : t.SameHolders u) :
    t.stagedFault? claims owner mode now = u.stagedFault? claims owner mode later := by
  have checks (x : Id) (on : ExtTreeSet Claim) :
      (t.staged owner mode now x on).fault? = (u.staged owner mode later x on).fault? :=
    Record.fault?_congr (same.holders_staged x on)
  simp only [stagedFault?, checks]

theorem granted (same : t.SameHolders u) :
    (t.granted claims owner mode now).SameHolders (u.granted claims owner mode later) := by
  intro x
  simp only [getElem?_granted]
  split
  · exact congrArg some (same.holders_staged x _)
  · exact same x

theorem tryAcquire {t' : Table} (same : t.SameHolders u)
    (made : t.tryAcquire claims owner mode now = .ok .granted t') :
    ∃ u', u.tryAcquire claims owner mode later = .ok .granted u' ∧ t'.SameHolders u' := by
  obtain ⟨_, _, e⟩ | ⟨_, _, _, e⟩ | ⟨clear, passed, e⟩ := t.tryAcquire_cases claims owner mode now
  all_goals rw [e] at made
  all_goals cases made
  obtain ⟨_, blocked, _⟩ | ⟨_, _, faulty, _⟩ | ⟨_, _, e⟩ :=
    u.tryAcquire_cases claims owner mode later
  · cases clear.symm.trans (same.conflict?_eq.trans blocked)
  · cases passed.symm.trans (same.stagedFault?_eq.trans faulty)
  · exact ⟨_, e, same.granted⟩

theorem releaseOne (same : t.SameHolders u) (owner : Owner) (mode : Mode) (tree : Bool) (id : Id) :
    (t.releaseOne owner mode tree id).2.SameHolders (u.releaseOne owner mode tree id).2 := by
  have revoke (hold : Hold) (on : Id → Bool) :
      (t.revoke owner hold on).2.SameHolders (u.revoke owner hold on).2 := by
    intro x
    simp only [getElem?_revoke]
    obtain ⟨mine, theirs⟩ | ⟨r, q, mine, theirs, holders⟩ := same.record_cases x
    · rw [mine, theirs]
    · rw [mine, theirs, Option.bind_some, Option.bind_some]
      split
      · exact Record.map_holders_congr (by simp only [Record.revoke, holders])
      · exact congrArg some holders
  unfold Table.releaseOne
  split
  · exact revoke _ _
  · exact revoke _ _

theorem release (same : t.SameHolders u) (ids : List Id) (owner : Owner) (mode : Mode)
    (tree : Bool) :
    (t.release ids owner mode tree).2.SameHolders (u.release ids owner mode tree).2 := by
  rw [release_eq_releaseEach, release_eq_releaseEach]
  unfold releaseEach
  induction distinct ids generalizing t u with
  | nil => exact same
  | cons id rest ih => exact ih (same.releaseOne owner mode tree id)

theorem releaseOwner (same : t.SameHolders u) (owner : Owner) :
    (t.releaseOwner owner).2.SameHolders (u.releaseOwner owner).2 := by
  intro x
  simp only [Table.releaseOwner, ExtTreeMap.getElem?_filterMap']
  obtain ⟨mine, theirs⟩ | ⟨r, q, mine, theirs, holders⟩ := same.record_cases x
  · rw [mine, theirs]
  · rw [mine, theirs, Option.bind_some, Option.bind_some]
    exact Record.map_holders_congr (by simp only [Record.evict, holders])

theorem isLocked_eq (same : t.SameHolders u) (id : Id) (owner : Owner) (mode : Mode)
    (tree : Bool) : t.isLocked id owner mode tree = u.isLocked id owner mode tree := by
  unfold Table.isLocked
  obtain ⟨mine, theirs⟩ | ⟨r, q, mine, theirs, holders⟩ := same.record_cases id
  · rw [mine, theirs]
  · rw [mine, theirs]
    simp only [Record.mode_congr holders, Record.covers_congr holders]

theorem unlocked_eq (same : t.SameHolders u) (ids : List Id) (owner : Owner) :
    t.unlocked ids owner = u.unlocked ids owner := by
  have foreign (id : Id) : t.isForeign owner id = u.isForeign owner id := by
    unfold Table.isForeign
    obtain ⟨mine, theirs⟩ | ⟨r, q, mine, theirs, holders⟩ := same.record_cases id
    · rw [mine, theirs]
    · rw [mine, theirs]
      simp only [Record.mode_congr holders, holders]
  simp only [unlocked, foreign]

theorem size_filter_eq (same : t.SameHolders u) (p : Id → ExtTreeMap Owner Holds → Bool) :
    (t.records.filter fun x record => p x record.holders).size =
      (u.records.filter fun x record => p x record.holders).size := by
  have alike : (t.records.filter fun x record => p x record.holders).map (fun _ r => r.holders) =
      (u.records.filter fun x record => p x record.holders).map fun _ r => r.holders := by
    apply ExtTreeMap.ext_getElem?
    intro x
    simp only [ExtTreeMap.getElem?_map, ExtTreeMap.getElem?_filter']
    obtain ⟨mine, theirs⟩ | ⟨r, q, mine, theirs, holders⟩ := same.record_cases x
    · rw [mine, theirs]
    · rw [mine, theirs, Option.filter_some, Option.filter_some, holders]
      split
      · exact congrArg some holders
      · rfl
  have sizes := congrArg ExtTreeMap.size alike
  rwa [ExtTreeMap.size_map, ExtTreeMap.size_map] at sizes

theorem releaseOne_fst_eq (same : t.SameHolders u) (owner : Owner) (mode : Mode) (tree : Bool)
    (id : Id) : (t.releaseOne owner mode tree id).1 = (u.releaseOne owner mode tree id).1 := by
  have found (hold : Hold) (on : Id → Bool) :
      (t.revoke owner hold on).1 = (u.revoke owner hold on).1 :=
    same.size_filter_eq fun x holders => on x && (holders[owner]?.bind (·[hold]?)).isSome
  unfold Table.releaseOne
  split <;> exact found _ _

theorem release_fst_eq (same : t.SameHolders u) (ids : List Id) (owner : Owner) (mode : Mode)
    (tree : Bool) : (t.release ids owner mode tree).1 = (u.release ids owner mode tree).1 := by
  unfold Table.release
  generalize 0 = revoked
  induction distinct ids generalizing t u revoked with
  | nil => rfl
  | cons id rest ih =>
    rw [List.foldl_cons, List.foldl_cons]
    simp only [same.releaseOne_fst_eq owner mode tree id]
    exact ih (same.releaseOne owner mode tree id) _

theorem releaseOwner_fst_eq (same : t.SameHolders u) (owner : Owner) :
    (t.releaseOwner owner).1 = (u.releaseOwner owner).1 :=
  same.size_filter_eq fun _ holders => holders.contains owner

end SameHolders

end Table

end SceneLock
