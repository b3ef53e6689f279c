import SceneLock.Proofs.Isolation
import SceneLock.Proofs.Monotony

/-!
All questions about the locks are answered alike. The listing of a reachable table tells who has
what locked, which objects an owner need not stay away from, and which acquisitions are granted.
-/

namespace SceneLock

open Std

theorem lt_of_compare_eq_lt {a b : String} (before : compare a b = .lt) : a < b :=
  compareOfLessAndEq_eq_lt.1 before

theorem increasing_distinct (ids : List String) : (distinct ids).Pairwise (· < ·) :=
  ExtTreeSet.ordered_toList.imp lt_of_compare_eq_lt

namespace LockInfo

/-- The holders stand in order, each with what it holds, and a writer stands alone. -/
structure Orderly (info : LockInfo) : Prop where
  holders_increase : (info.holders.map Holder.owner).Pairwise (· < ·)
  claimed : ∀ holder ∈ info.holders, holder.claims ≠ []
  claims_increase : ∀ holder ∈ info.holders, holder.claims.Pairwise fun a b => compare a b = .lt
  writer_alone : info.mode = .write → info.holders.length = 1

/-- Going by what is told of an object, the owner may lock it. -/
def OpenTo (info : LockInfo) (owner : Owner) : Mode → Prop
  | .read => info.mode = .read
  | .write => info.owners = [owner]

end LockInfo

namespace Record

variable {r : Record}

theorem mem_holders_info {x : Id} {holder : Holder} :
    holder ∈ (r.info x).holders ↔ ∃ holds, r.holders[holder.owner]? = some holds ∧
      holder.claims = (ExtTreeSet.ofList (holds.keys.map Hold.claim)).toList := by
  simp only [info, List.mem_map, Prod.exists, ExtTreeMap.mem_toList_iff_getElem?_eq_some]
  constructor
  · rintro ⟨owner, holds, found, rfl⟩
    exact ⟨holds, found, rfl⟩
  · rintro ⟨holds, found, told⟩
    exact ⟨holder.owner, holds, found, by rw [← told]⟩

/-- A claim is told of a holder if it has the claim in the one mode or the other. -/
theorem mem_claims_info {x : Id} {holder : Holder} (listed : holder ∈ (r.info x).holders)
    {claim : Claim} :
    claim ∈ holder.claims ↔ ∃ mode, (r.tally? holder.owner ⟨mode, claim⟩).isSome := by
  obtain ⟨holds, found, told⟩ := mem_holders_info.1 listed
  simp only [told, ExtTreeSet.mem_toList, ExtTreeSet.mem_ofList, List.contains_iff_mem,
    List.mem_map, ExtTreeMap.mem_keys, tally?_isSome_iff, found, Option.some.injEq,
    exists_eq_left']
  constructor
  · rintro ⟨hold, mem, rfl⟩
    exact ⟨hold.mode, mem⟩
  · rintro ⟨mode, mem⟩
    exact ⟨⟨mode, claim⟩, mem, rfl⟩

theorem Sound.orderly_info (s : r.Sound) (x : Id) : (r.info x).Orderly where
  holders_increase := by
    rw [info, List.map_map, List.pairwise_map]
    exact r.holders.ordered_keys_toList.imp lt_of_compare_eq_lt
  claimed holder listed := by
    have mem : holder.owner ∈ r.holders := by
      obtain ⟨holds, found, _⟩ := mem_holders_info.1 listed
      exact ExtTreeMap.mem_iff_isSome_getElem?.2 (by simp [found])
    obtain ⟨hold, has⟩ := s.mem_holders_iff.1 mem
    exact List.ne_nil_of_mem ((mem_claims_info listed).2 ⟨hold.mode, has⟩)
  claims_increase holder listed := by
    obtain ⟨holds, _, told⟩ := mem_holders_info.1 listed
    rw [told]
    exact ExtTreeSet.ordered_toList
  writer_alone writes := by
    have single := single_if_write_iff.2 s.alone writes
    rw [info, List.length_map, ExtTreeMap.length_toList, single]

/-- Whoever holds a sound record at all holds it in the mode of the record. -/
theorem Sound.covers_iff_mem (s : r.Sound) {x : Id} {owner : Owner} :
    r.covers x owner r.mode true ↔ owner ∈ r.holders := by
  have covers : r.covers x owner r.mode true ↔
      ∃ claim, (r.tally? owner ⟨r.mode, claim⟩).isSome := by
    rw [Record.covers_iff]
    refine exists_congr fun claim => and_iff_left ?_
    cases claim <;> simp
  rw [covers]
  constructor
  · rintro ⟨claim, has⟩
    exact mem_holders_of_isSome has
  · intro holder
    cases mode : r.mode with
    | write => exact (s.writes_iff holder).1 mode
    | read =>
      obtain ⟨⟨m, claim⟩, has⟩ := s.mem_holders_iff.1 holder
      cases m with
      | read => exact ⟨claim, has⟩
      | write =>
        have writes := mode_eq_write_iff.2 ⟨owner, claim, has⟩
        cases mode.symm.trans writes

theorem soleHolder?_iff_owners {x : Id} {owner : Owner} :
    r.soleHolder? = some owner ↔ (r.info x).owners = [owner] := by
  have once : (r.info x).owners.Nodup := nodup_distinct _
  rw [soleHolder?_eq_some_iff, ← keys_eq_singleton_iff,
    eq_singleton_iff_of_nodup r.holders.nodup_keys, eq_singleton_iff_of_nodup once]
  simp only [ExtTreeMap.mem_keys, LockInfo.mem_owners_iff]

/-- Who is admitted can be told from the listing. -/
theorem admits_iff_openTo {x : Id} {owner : Owner} {mode : Mode} :
    r.admits owner mode ↔ (r.info x).OpenTo owner mode := by
  cases mode with
  | read => exact decide_eq_true_iff
  | write => exact decide_eq_true_iff.trans soleHolder?_iff_owners

end Record

namespace Table

variable {t : Table} {x : Id} {owner : Owner} {mode : Mode}

theorem increasing_locks (t : Table) : (t.locks.map LockInfo.id).Pairwise (· < ·) := by
  rw [locks, List.map_map, List.pairwise_map]
  exact t.records.ordered_keys_toList.imp lt_of_compare_eq_lt

section

variable {P : LockInfo → Prop}

/-- What is listed of an object is what its record tells. -/
theorem exists_listed_iff :
    (∃ info ∈ t.locks, info.id = x ∧ P info) ↔
      ∃ record, t.records[x]? = some record ∧ P (record.info x) := by
  simp only [mem_locks_iff]
  constructor
  · rintro ⟨_, ⟨y, record, found, rfl⟩, rfl, holds⟩
    exact ⟨record, found, holds⟩
  · rintro ⟨record, found, holds⟩
    exact ⟨_, ⟨x, record, found, rfl⟩, rfl, holds⟩

theorem forall_listed_iff :
    (∀ info ∈ t.locks, info.id = x → P info) ↔
      ∀ record, t.records[x]? = some record → P (record.info x) := by
  simp only [mem_locks_iff]
  constructor
  · intro all record found
    exact all _ ⟨x, record, found, rfl⟩ rfl
  · rintro all _ ⟨y, record, found, rfl⟩ rfl
    exact all record found

end

/-- There is an entry for every object that somebody holds, and for no other. -/
theorem Sound.listed_iff (s : t.Sound) :
    (∃ info ∈ t.locks, info.id = x) ↔ ∃ o hold, 0 < t.count x o hold := by
  have listed := exists_listed_iff (t := t) (x := x) (P := fun _ => True)
  simp only [and_true] at listed
  rw [listed, ← s.mem_records_iff, ExtTreeMap.mem_iff_isSome_getElem?, Option.isSome_iff_exists]

theorem Sound.told_iff (s : t.Sound) {info : LockInfo} (listed : info ∈ t.locks) {holder : Holder}
    (holds : holder ∈ info.holders) {claim : Claim} :
    claim ∈ holder.claims ↔ ∃ mode, 0 < t.count info.id holder.owner ⟨mode, claim⟩ := by
  obtain ⟨x, record, found, rfl⟩ := mem_locks_iff.1 listed
  have here : (record.info x).id = x := rfl
  rw [Record.mem_claims_info holds]
  simp only [s.count_pos_iff, here, tally?, found, Option.bind_some]

theorem Sound.isLocked_iff_listed (s : t.Sound) :
    t.isLocked x owner mode true ↔
      ∃ info ∈ t.locks, info.id = x ∧ info.mode = mode ∧ owner ∈ info.owners := by
  simp only [exists_listed_iff, LockInfo.mem_owners_iff, isLocked]
  cases found : t.records[x]? with
  | none => simp
  | some record =>
    have mode_info : (record.info x).mode = record.mode := rfl
    simp only [Bool.and_eq_true, decide_eq_true_eq, Option.some.injEq, exists_eq_left', mode_info]
    refine and_congr_right fun same => ?_
    subst same
    exact (s x record found).covers_iff_mem

/-- An object is kept from an owner if somebody else has it write locked. -/
theorem Sound.isForeign_iff (s : t.Sound) :
    t.isForeign owner x ↔ ∃ other, other ≠ owner ∧ t.isLocked x other .write true := by
  simp only [s.isLocked_iff_listed, exists_listed_iff, LockInfo.mem_owners_iff, isForeign]
  cases found : t.records[x]? with
  | none => simp
  | some record =>
    have mode_info : (record.info x).mode = record.mode := rfl
    simp only [Bool.and_eq_true, decide_eq_true_eq, Bool.not_eq_true', Option.some.injEq,
      exists_eq_left', mode_info]
    constructor
    · rintro ⟨writes, absent⟩
      obtain ⟨holder, mem⟩ := ne_empty_iff_exists_mem.1 (s x record found).held
      refine ⟨holder, ?_, writes, mem⟩
      rintro rfl
      exact Bool.eq_false_iff.1 absent (ExtTreeMap.contains_iff_mem.2 mem)
    · rintro ⟨other, differs, writes, mem⟩
      refine ⟨writes, Bool.eq_false_iff.2 fun also => ?_⟩
      obtain ⟨claim, has⟩ := ((s x record found).writes_iff mem).1 writes
      have among : owner ∈ record.holders := ExtTreeMap.contains_iff_mem.1 also
      exact differs ((s x record found).alone other claim has owner among).symm

theorem Sound.mem_unlocked_iff (s : t.Sound) {ids : List Id} :
    x ∈ t.unlocked ids owner ↔
      x ∈ ids ∧ ∀ other, other ≠ owner → t.isLocked x other .write true = false := by
  rw [unlocked, mem_distinct, List.mem_filter]
  refine and_congr_right fun _ => ?_
  rw [Bool.not_eq_true', Bool.eq_false_iff, ne_eq, s.isForeign_iff]
  simp only [not_exists, not_and, Bool.not_eq_true]

theorem admits_iff_listed :
    t.admits x owner mode ↔ ∀ info ∈ t.locks, info.id = x → info.OpenTo owner mode := by
  rw [forall_listed_iff]
  unfold Table.admits
  cases t.records[x]? with
  | none => simp
  | some record => simpa using Record.admits_iff_openTo

/-- Nobody is admitted, in whatever mode, to what somebody else has write locked. -/
theorem Sound.not_admits_of_foreign (s : t.Sound) {other : Owner} (differs : other ≠ owner)
    (locked : t.isLocked x other .write true) (mode : Mode) : t.admits x owner mode = false := by
  obtain ⟨info, listed, here, writes, holder⟩ := s.isLocked_iff_listed.1 locked
  refine Bool.eq_false_iff.2 fun admitted => ?_
  have free := admits_iff_listed.1 admitted info listed here
  cases mode with
  | read => cases writes.symm.trans free
  | write =>
    have only : info.owners = [owner] := free
    rw [only, List.mem_singleton] at holder
    exact differs holder

/-- An acquisition is refused if one of its objects is kept from its owner. -/
theorem tryAcquire_of_not_admitted {claims : Claims} (claimed : x ∈ claims)
    (barred : t.admits x owner mode = false) (now : Instant) :
    ∃ id, t.tryAcquire claims owner mode now = .ok (.conflict id) t := by
  obtain ⟨id, _, refused⟩ | ⟨clear, _⟩ | ⟨clear, _⟩ := t.tryAcquire_cases claims owner mode now
  · exact ⟨id, refused⟩
  · rw [clear_iff.1 clear x claimed] at barred
    cases barred
  · rw [clear_iff.1 clear x claimed] at barred
    cases barred

theorem Sound.granted_iff (s : t.Sound) {claims : Claims} (filled : claims.Filled)
    (now : Instant) :
    (∃ u, t.tryAcquire claims owner mode now = .ok .granted u) ↔
      (∀ x ∈ claims, t.admits x owner mode) ∧ ¬t.Full claims owner mode := by
  rw [← clear_iff]
  obtain ⟨id, blocked, e⟩ | ⟨clear, fault, faulty, e⟩ | ⟨clear, passed, e⟩ :=
    t.tryAcquire_cases claims owner mode now
  · simp [e, blocked]
  · have passes := s.passes_iff filled clear now
    rw [faulty] at passes
    simpa [e, clear] using passes
  · simpa [e, clear] using (s.passes_iff filled clear now).1 passed

/-- The listing has its entries in order, one for each object that somebody holds, in order
themselves. Who has a lock on an object, by itself or as part of a tree, is who is listed there, in
the mode that is listed. Nothing but the write locks of others keeps an object out of the unlocked
ones, and then every acquisition of it is refused. An acquisition is granted if the listing leaves
all its objects open to its owner, and no count that it raises is at its bound. -/
theorem Reachable.listing_tells_all (h : t.Reachable) :
    (t.locks.map LockInfo.id).Pairwise (· < ·) ∧
    (∀ x, (∃ info ∈ t.locks, info.id = x) ↔ ∃ o hold, 0 < t.count x o hold) ∧
    (∀ info ∈ t.locks, info.Orderly ∧ ∀ holder ∈ info.holders, ∀ claim,
      claim ∈ holder.claims ↔ ∃ mode, 0 < t.count info.id holder.owner ⟨mode, claim⟩) ∧
    (∀ x owner mode, t.isLocked x owner mode true ↔
      ∃ info ∈ t.locks, info.id = x ∧ info.mode = mode ∧ owner ∈ info.owners) ∧
    (∀ ids owner, (t.unlocked ids owner).Pairwise (· < ·) ∧
      (∀ x, x ∈ t.unlocked ids owner ↔
        x ∈ ids ∧ ∀ other, other ≠ owner → t.isLocked x other .write true = false) ∧
      ∀ x ∈ ids, x ∉ t.unlocked ids owner → ∀ (claims : Claims) mode now, x ∈ claims →
        ∃ id, t.tryAcquire claims owner mode now = .ok (.conflict id) t) ∧
    ∀ (claims : Claims) owner mode now, claims.Filled →
      ((∃ u, t.tryAcquire claims owner mode now = .ok .granted u) ↔
        (∀ x ∈ claims, ∀ info ∈ t.locks, info.id = x → info.OpenTo owner mode) ∧
          ¬t.Full claims owner mode) := by
  have s := h.sound
  refine ⟨t.increasing_locks, fun x => s.listed_iff, fun info listed => ⟨?_, ?_⟩,
    fun x owner mode => s.isLocked_iff_listed, fun ids owner => ⟨increasing_distinct _, ?_, ?_⟩,
    ?_⟩
  · obtain ⟨x, record, found, rfl⟩ := mem_locks_iff.1 listed
    exact (s x record found).orderly_info x
  · intro holder holds claim
    exact s.told_iff listed holds
  · intro x
    exact s.mem_unlocked_iff
  · intro x named left_out claims mode now claimed
    have foreign : ∃ other, other ≠ owner ∧ t.isLocked x other .write true := by
      rw [s.mem_unlocked_iff] at left_out
      push Not at left_out
      simpa only [Bool.not_eq_false] using left_out named
    obtain ⟨other, differs, locked⟩ := foreign
    exact tryAcquire_of_not_admitted claimed (s.not_admits_of_foreign differs locked mode) now
  · intro claims owner mode now filled
    rw [s.granted_iff filled]
    simp only [admits_iff_listed]

/-- Direct claims on some objects. -/
def directly (ids : List Id) : Claims := ids.foldl (fun claims id => claims.lay id .direct) ∅

/-- Bob reads `x` as often as 32 bits can count. The listing leaves it open to him, and yet he
cannot read it once more. -/
theorem last_count_looks_open :
    let t := (Coordinator.bobReads (UInt32.size - 1)).table
    t.Reachable ∧ (directly ["x"]).Filled ∧
      (∀ x ∈ directly ["x"], ∀ info ∈ t.locks, info.id = x → info.OpenTo "bob" .read) ∧
      ∃ e, t.tryAcquire (directly ["x"]) "bob" .read 0 = .error e t ∧
        e.kind = .invariantViolation := by
  intro t
  have few : UInt32.size - 1 < UInt32.size := by decide
  have reached : t.Reachable := (Coordinator.reachable_bobReads _).table
  have free (x : Id) : t.admits x "bob" .read := Coordinator.admits_bobReads few x "bob"
  have filled : (directly ["x"]).Filled := Claims.Filled.foldl_lay (fun x => by simp) _ .direct
  have full : t.Full (directly ["x"]) "bob" .read := by
    refine ⟨"x", .direct, Claims.mem_foldl_lay.2 (.inr ⟨List.mem_singleton_self _, rfl⟩), ?_⟩
    exact ((Coordinator.count_bobReads few).2 _ _ _).trans (if_pos ⟨rfl, rfl, rfl⟩)
  refine ⟨reached, filled, fun x _ => admits_iff_listed.1 (free x), ?_⟩
  exact reached.sound.tryAcquire_of_full filled (clear_iff.2 fun x _ => free x) full 0

def takeDirectly (t : Table) (owner : Owner) (mode : Mode) (ids : List Id) : Table :=
  leaves (t.tryAcquire (directly ids) owner mode 0)

/-- Alice reads `a` and `b`, of which she writes `a` too. Bob reads `b` with her, and carol `c`. -/
def mixedTable : Table :=
  (((empty.takeDirectly "alice" .read ["a", "b"]).takeDirectly "alice" .write ["a"]).takeDirectly
    "bob" .read ["b"]).takeDirectly "carol" .read ["c"]

theorem mixedTable_listing :
    mixedTable.Reachable ∧
      mixedTable.isLocked "a" "alice" .write true ∧
      mixedTable.isLocked "a" "alice" .read true = false ∧
      "a" ∈ ["b", "a", "d"] ∧ "a" ∉ mixedTable.unlocked ["b", "a", "d"] "bob" ∧
      (directly ["a", "d"]).Filled ∧
      (∃ id, mixedTable.tryAcquire (directly ["a", "d"]) "bob" .read 1 =
        .ok (.conflict id) mixedTable) ∧
      ∃ u, mixedTable.tryAcquire (directly ["a", "d"]) "alice" .write 1 = .ok .granted u := by
  have taken {t : Table} (h : t.Reachable) (owner : Owner) (mode : Mode) (ids : List Id) :
      (t.takeDirectly owner mode ids).Reachable := h.next (.acquire _ _ _)
  have reached : mixedTable.Reachable :=
    taken (taken (taken (taken .empty _ _ _) _ _ _) _ _ _) _ _ _
  have filled : (directly ["a", "d"]).Filled := Claims.Filled.foldl_lay (fun x => by simp) _ .direct
  have room : ¬mixedTable.Full (directly ["a", "d"]) "alice" .write := by
    rintro ⟨x, claim, laid, full⟩
    obtain old | ⟨named, rfl⟩ := Claims.mem_foldl_lay.1 laid
    · simp at old
    · have few : mixedTable.count x "alice" ⟨.write, .direct⟩ < 2 := by
        obtain rfl | rfl : x = "a" ∨ x = "d" := by simpa using named
        · cbv
        · cbv
      rw [full] at few
      exact absurd few (by decide)
  obtain ⟨_, _, _, locked_iff, unlocked, granted_iff⟩ := reached.listing_tells_all
  obtain ⟨_, _, refused⟩ := unlocked ["b", "a", "d"] "bob"
  have listed : mixedTable.locks.map (fun info => (info.id, info.mode, info.owners)) =
      [("a", .write, ["alice"]), ("b", .read, ["alice", "bob"]), ("c", .read, ["carol"])] := by cbv
  have told {info : LockInfo} (mem : info ∈ mixedTable.locks) :
      (info.id, info.mode, info.owners) ∈ [("a", Mode.write, ["alice"]),
        ("b", .read, ["alice", "bob"]), ("c", .read, ["carol"])] :=
    listed ▸ List.mem_map_of_mem mem
  have not_read : mixedTable.isLocked "a" "alice" .read true = false := by
    refine Bool.eq_false_iff.2 fun reads => ?_
    obtain ⟨info, mem, here, reading, _⟩ := (locked_iff _ _ _).1 reads
    simpa [here, reading] using told mem
  have left_out : "a" ∉ mixedTable.unlocked ["b", "a", "d"] "bob" := by
    rw [show mixedTable.unlocked ["b", "a", "d"] "bob" = ["b", "d"] by cbv]
    decide
  have claimed : (directly ["a", "d"]).keys = ["a", "d"] := by cbv
  have open_to : ∀ x ∈ directly ["a", "d"], ∀ info ∈ mixedTable.locks, info.id = x →
      info.OpenTo "alice" .write := by
    rintro _ mem info entry rfl
    rw [← ExtTreeMap.mem_keys, claimed] at mem
    have shown := told entry
    obtain here | here : info.id = "a" ∨ info.id = "d" := by simpa using mem
    · exact (by simpa [here] using shown : info.mode = .write ∧ info.owners = ["alice"]).2
    · simp [here] at shown
  refine ⟨reached, by cbv, not_read, by decide, left_out, filled, ?_, ?_⟩
  · refine refused "a" (by decide) left_out _ .read 1 (ExtTreeMap.mem_keys.1 ?_)
    rw [claimed]
    decide
  · exact (granted_iff _ "alice" .write 1 filled).2 ⟨open_to, room⟩

end Table

end SceneLock
