import SceneLock.Proofs.Orders

/-!
Releases only free, and acquisitions only block. Who is granted a lock stays so while counts go
down, and who is refused one stays so while they go up. What an owner alone has in another's way is
gone when all locks of that owner are dropped.
-/

namespace SceneLock

open Std

theorem LockInfo.mem_owners_iff {r : Record} {x : Id} {o : Owner} :
    o ∈ (r.info x).owners ↔ o ∈ r.holders := by
  simp only [owners, Record.info, mem_distinct, List.map_map, List.mem_map, Prod.exists,
    Function.comp_apply, ExtTreeMap.mem_toList_iff_getElem?_eq_some,
    ExtTreeMap.mem_iff_isSome_getElem?, Option.isSome_iff_exists]
  constructor
  · rintro ⟨_, holds, found, rfl⟩
    exact ⟨holds, found⟩
  · rintro ⟨holds, found⟩
    exact ⟨o, holds, found, rfl⟩

namespace Table

variable {t : Table} {owner : Owner}

theorem count_lt (t : Table) (x : Id) (o : Owner) (hold : Hold) :
    t.count x o hold < UInt32.size := by
  rw [count, Holds.amount_eq_toNat]
  exact UInt32.toNat_lt_size _

/-- Whether it is granted or not, an acquisition lowers no count. -/
theorem Sound.count_le_tryAcquire (s : t.Sound) (claims : Claims) (owner : Owner) (mode : Mode)
    (now : Instant) (x : Id) (o : Owner) (hold : Hold) :
    t.count x o hold ≤ (leaves (t.tryAcquire claims owner mode now)).count x o hold := by
  obtain ⟨_, _, e⟩ | ⟨_, _, _, e⟩ | ⟨_, passed, e⟩ := t.tryAcquire_cases claims owner mode now
  · rw [e]
    exact Nat.le_refl _
  · rw [e]
    exact Nat.le_refl _
  · rw [e]
    simp only [leaves, s.count_granted passed]
    exact Nat.le_add_right _ _

theorem mem_locks_iff {info : LockInfo} :
    info ∈ t.locks ↔
      ∃ (x : Id) (record : Record), t.records[x]? = some record ∧ record.info x = info := by
  simp only [locks, List.mem_map, Prod.exists, ExtTreeMap.mem_toList_iff_getElem?_eq_some]

/-- The number that an eviction answers is that of the records in which the owner was listed. -/
theorem releaseOwner_fst (t : Table) (owner : Owner) :
    (t.releaseOwner owner).1 = t.locks.countP (owner ∈ ·.owners) := by
  let listed (entry : Id × Record) : Bool := entry.2.holders.contains owner
  have same : (fun entry : Id × Record => decide (owner ∈ (entry.2.info entry.1).owners)) =
      listed := by
    funext entry
    rw [Bool.eq_iff_iff, decide_eq_true_eq, LockInfo.mem_owners_iff]
    exact ExtTreeMap.mem_iff_contains
  calc (t.releaseOwner owner).1
      = (t.records.toList.filter listed).length := by
        rw [releaseOwner, ← ExtTreeMap.length_toList, ExtTreeMap.toList_filter]
    _ = t.records.toList.countP listed := List.countP_eq_length_filter.symm
    _ = t.locks.countP (owner ∈ ·.owners) := by
        rw [locks, List.countP_map, ← same]
        rfl

theorem Sound.not_listed_of_releaseOwner (s : t.Sound) (owner : Owner) :
    ∀ info ∈ (t.releaseOwner owner).2.locks, owner ∉ info.owners := by
  intro info mem listed
  obtain ⟨x, record, found, rfl⟩ := mem_locks_iff.1 mem
  have holder := LockInfo.mem_owners_iff.1 listed
  obtain ⟨hold, counted⟩ := (s.releaseOwner owner).holder_iff.1 ⟨record, found, holder⟩
  rw [count_releaseOwner, if_pos rfl] at counted
  exact Nat.lt_irrefl 0 counted

/-- Nobody else has a count where an owner is the sole holder. -/
theorem Sound.count_of_sole (s : t.Sound) {x : Id} {record : Record}
    (found : t.records[x]? = some record) (sole : record.soleHolder? = some owner) {o : Owner}
    (other : owner ≠ o) (hold : Hold) : t.count x o hold = 0 := by
  apply Nat.eq_zero_of_not_pos
  intro counted
  obtain ⟨record', found', holder⟩ := s.holder_iff.2 ⟨hold, counted⟩
  cases found.symm.trans found'
  exact other ((Record.soleHolder?_eq_some_iff.1 sole).2 o holder).symm

/-- Whoever has a count on an object where nobody else has one is its sole holder. -/
theorem Sound.exists_sole (s : t.Sound) {x : Id} {hold : Hold} (counted : 0 < t.count x owner hold)
    (alone : ∀ o hold, 0 < t.count x o hold → o = owner) :
    ∃ record, t.records[x]? = some record ∧ record.soleHolder? = some owner := by
  obtain ⟨record, found, holder⟩ := s.holder_iff.2 ⟨hold, counted⟩
  refine ⟨record, found, Record.soleHolder?_eq_some_iff.2 ⟨holder, fun o mem => ?_⟩⟩
  obtain ⟨hold, counted⟩ := s.holder_iff.1 ⟨record, found, mem⟩
  exact alone o hold counted

end Table

namespace Coordinator

variable {G : Type} {c d : Coordinator G}

theorem graph_takeClaims (c : Coordinator G) (claims : Claims) (owner : Owner) (mode : Mode) :
    (leaves (Coordinator.takeClaims claims owner mode c)).graph = c.graph := by
  unfold Coordinator.takeClaims
  obtain ⟨_, _, e⟩ | ⟨_, _, _, e⟩ | ⟨_, _, e⟩ := c.table.tryAcquire_cases claims owner mode c.now
  all_goals rw [e]; rfl

/-- Ways in which holds are given back. -/
inductive Frees : Coordinator G → Coordinator G → Prop
  | release (c : Coordinator G) (mode : Mode) (request : Request) :
      Frees c (c.release mode request)
  | releaseGuard (c : Coordinator G) (guard : Guard) : Frees c (guard.release c)
  | releaseClaims (c : Coordinator G) (ids : List Id) (owner : Owner) (mode : Mode) (tree : Bool) :
      Frees c { c with table := (c.table.release ids owner mode tree).2 }
  | releaseOwner (c : Coordinator G) (owner : Owner) : Frees c (c.releaseOwner owner).2

/-- The same graph, and no count that is higher. -/
structure Eased (c d : Coordinator G) : Prop where
  sound : d.table.Sound
  graph : d.graph = c.graph
  fewer : ∀ x o hold, d.table.count x o hold ≤ c.table.count x o hold

theorem Eased.trans {e : Coordinator G} (before : Eased c d) (last : Eased d e) : Eased c e where
  sound := last.sound
  graph := last.graph.trans before.graph
  fewer x o hold := (last.fewer x o hold).trans (before.fewer x o hold)

theorem eased_of_release (s : c.table.Sound) (graph : d.graph = c.graph) {ids : List Id}
    {owner : Owner} {mode : Mode} {tree : Bool}
    (table : d.table = (c.table.release ids owner mode tree).2) : Eased c d where
  sound := table ▸ s.release ids owner mode tree
  graph := graph
  fewer x o hold := by
    rw [table, s.count_release]
    exact Nat.sub_le _ _

theorem Frees.eased (frees : Frees c d) (s : c.table.Sound) : Eased c d := by
  cases frees with
  | release mode request => exact eased_of_release s rfl rfl
  | releaseGuard guard => exact eased_of_release s rfl rfl
  | releaseClaims ids owner mode tree => exact eased_of_release s rfl rfl
  | releaseOwner owner =>
    refine ⟨?_, c.graph_releaseOwner owner, fun x o hold => ?_⟩
    · rw [table_releaseOwner]
      exact s.releaseOwner owner
    · rw [table_releaseOwner, Table.count_releaseOwner]
      split
      · exact Nat.zero_le _
      · exact Nat.le_refl _

theorem eased_of_frees (frees : Relation.ReflTransGen Frees c d) (s : c.table.Sound) :
    Eased c d := by
  induction frees with
  | refl => exact ⟨s, rfl, fun _ _ _ => Nat.le_refl _⟩
  | tail _ step before => exact before.trans (step.eased before.sound)

theorem Eased.admits (eased : Eased c d) (s : c.table.Sound) {x : Id} {owner : Owner}
    {mode : Mode} (free : c.table.admits x owner mode) : d.table.admits x owner mode :=
  s.admits_mono eased.sound (fun holder hold _ => eased.fewer x holder hold) free

variable [ObjectGraph G]

/-- Attempts for a request or straight for claims, granted or not. -/
inductive Tries : Coordinator G → Coordinator G → Prop
  | attempt (c : Coordinator G) (now : Instant) (mode : Mode) (request : Request) :
      Tries c (c.attempt now mode request).2
  | takeClaims (c : Coordinator G) (now : Instant) (claims : Claims) (owner : Owner) (mode : Mode) :
      Tries c (leaves (takeClaims claims owner mode { c with now }))

theorem Tries.eased (tries : Tries c d) (h : c.table.Reachable) :
    d.table.Reachable ∧ Eased d c := by
  cases tries with
  | attempt now mode request =>
    refine ⟨reachable_attempt h now mode request, h.sound, (c.graph_attempt now mode request).symm,
      fun x o hold => ?_⟩
    rw [count_attempt h.sound]
    exact Nat.le_add_right _ _
  | takeClaims now claims owner mode =>
    refine ⟨reachable_takeClaims (c := { c with now }) h claims owner mode, h.sound,
      (graph_takeClaims { c with now } claims owner mode).symm, fun x o hold => ?_⟩
    rw [table_takeClaims]
    exact h.sound.count_le_tryAcquire claims owner mode now x o hold

/-- After attempts, the coordinator as it was before is the one with the lower counts. -/
theorem eased_of_tries (tries : Relation.ReflTransGen Tries c d) (h : c.table.Reachable) :
    d.table.Reachable ∧ Eased d c := by
  induction tries with
  | refl => exact ⟨h, h.sound, rfl, fun _ _ _ => Nat.le_refl _⟩
  | tail _ step before =>
    obtain ⟨reached, eased⟩ := before
    obtain ⟨next, last⟩ := step.eased reached
    exact ⟨next, last.trans eased⟩

variable {now later : Instant} {mode : Mode} {request : Request}

theorem Eased.granted (eased : Eased c d) (s : c.table.Sound)
    (granted : (c.attempt now mode request).1 = .ok true) :
    (d.attempt later mode request).1 = .ok true := by
  obtain ⟨known, free⟩ := (answer_eq_true_iff s).1 granted
  rw [answer_eq_true_iff eased.sound, eased.graph]
  refine ⟨known, fun x claim asked => ?_⟩
  obtain ⟨admits, room⟩ := free x claim asked
  refine ⟨eased.admits s admits, ?_⟩
  have fewer := eased.fewer x request.owner ⟨mode, claim⟩
  have bound := c.table.count_lt x request.owner ⟨mode, claim⟩
  omega

theorem Eased.refused (eased : Eased c d) (s : c.table.Sound)
    (refused : (d.attempt later mode request).1 = .ok false) :
    (c.attempt now mode request).1 = .ok false := by
  rw [answer_eq_false_iff, eased.graph] at refused
  obtain ⟨known, x, claim, asked, barred⟩ := refused
  refine answer_eq_false_iff.2 ⟨known, x, claim, asked, ?_⟩
  rw [Bool.eq_false_iff] at barred ⊢
  exact mt (eased.admits s) barred

/-- The objects on which an attempt meets a conflict are held by this owner alone. -/
def SoleRival (c : Coordinator G) (mode : Mode) (request : Request) (owner : Owner) : Prop :=
  ∀ x claim, request.target.Asks c.graph x claim →
    c.table.admits x request.owner mode = false →
    ∃ record, c.table.records[x]? = some record ∧ record.soleHolder? = some owner

theorem admits_of_soleRival (s : c.table.Sound) {owner : Owner}
    (sole : c.SoleRival mode request owner) {x : Id} {claim : Claim}
    (asked : request.target.Asks c.graph x claim) :
    (c.releaseOwner owner).2.table.admits x request.owner mode := by
  have eased : Eased c (c.releaseOwner owner).2 := (Frees.releaseOwner c owner).eased s
  by_cases free : c.table.admits x request.owner mode
  · exact eased.admits s free
  · obtain ⟨record, found, alone⟩ := sole x claim asked (Bool.eq_false_iff.2 free)
    rw [eased.sound.admits_iff]
    intro holder hold _
    rw [table_releaseOwner, Table.count_releaseOwner]
    split
    · rfl
    · next other => exact s.count_of_sole found alone other hold

/-- With the only rival gone, a request meets no conflict. What it may meet is a count of its own
owner that is at its bound. -/
theorem answer_of_soleRival (s : c.table.Sound) {owner : Owner}
    (sole : c.SoleRival mode request owner) (known : request.target.Known c.graph)
    (later : Instant) :
    ((c.releaseOwner owner).2.attempt later mode request).1 ≠ .ok false ∧
      (((c.releaseOwner owner).2.attempt later mode request).1 = .ok true ∨
        request.owner ≠ owner ∧ ∃ x claim, request.target.Asks c.graph x claim ∧
          c.table.count x request.owner ⟨mode, claim⟩ + 1 = UInt32.size) := by
  have v := ((Frees.releaseOwner c owner).eased s).sound
  constructor
  · rw [ne_eq, answer_eq_false_iff, graph_releaseOwner]
    rintro ⟨_, x, claim, asked, barred⟩
    rw [admits_of_soleRival s sole asked] at barred
    cases barred
  · rw [answer_eq_true_iff v, graph_releaseOwner]
    by_cases full : ∃ x claim, request.target.Asks c.graph x claim ∧
        (c.releaseOwner owner).2.table.count x request.owner ⟨mode, claim⟩ = UInt32.size - 1
    · right
      obtain ⟨x, claim, asked, bound⟩ := full
      rw [table_releaseOwner, Table.count_releaseOwner] at bound
      split at bound
      · cases bound
      · next other =>
        exact ⟨fun same => other same.symm, x, claim, asked, by rw [bound]; rfl⟩
    · left
      refine ⟨known, fun x claim asked => ⟨admits_of_soleRival s sole asked, ?_⟩⟩
      intro bound
      exact full ⟨x, claim, asked, bound⟩

/-- A release keeps every request granted that was, however many there are, and an attempt keeps
every request refused that was. When all locks of an owner are dropped, no record lists it, as many
records as are told did, and a request that met a conflict with that owner alone meets none any
more. It is granted then, unless one of the counts that it asks for is at its bound. -/
theorem Reachable.releases_free_attempts_block (h : c.Reachable) :
    (∀ d, Relation.ReflTransGen Frees c d → ∀ now later mode request,
      (c.attempt now mode request).1 = .ok true → (d.attempt later mode request).1 = .ok true) ∧
    (∀ d, Relation.ReflTransGen Tries c d → ∀ now later mode request,
      (c.attempt now mode request).1 = .ok false → (d.attempt later mode request).1 = .ok false) ∧
    ∀ owner,
      let freed := c.releaseOwner owner
      (∀ info ∈ freed.2.locks, owner ∉ info.owners) ∧
      freed.1 = c.locks.countP (owner ∈ ·.owners) ∧
      ∀ now later mode request, (c.attempt now mode request).1 = .ok false →
        c.SoleRival mode request owner →
        (freed.2.attempt later mode request).1 ≠ .ok false ∧
        ((freed.2.attempt later mode request).1 = .ok true ∨ request.owner ≠ owner ∧
          ∃ x claim, request.target.Asks c.graph x claim ∧
            c.table.count x request.owner ⟨mode, claim⟩ + 1 = UInt32.size) := by
  have s := h.table.sound
  refine ⟨?_, ?_, ?_⟩
  · intro d frees now later mode request granted
    exact (eased_of_frees frees s).granted s granted
  · intro d tries now later mode request refused
    obtain ⟨reached, eased⟩ := eased_of_tries tries h.table
    exact eased.refused reached.sound refused
  · intro owner freed
    refine ⟨?_, c.table.releaseOwner_fst owner, ?_⟩
    · intro info mem
      rw [Coordinator.locks, table_releaseOwner] at mem
      exact s.not_listed_of_releaseOwner owner info mem
    · intro now later mode request refused sole
      exact answer_of_soleRival s sole (answer_eq_false_iff.1 refused).1 later

def aliceOnY : Request := { owner := "alice", target := ⟨["y"], false⟩ }

/-- Bob reads `x` so many times, and then alice writes `y`. -/
def sideBySide (n : Nat) : Coordinator Adjacency := ((bobReads n).attempt 0 .write aliceOnY).2

open Classical in
theorem count_sideBySide {n : Nat} (few : n < UInt32.size) :
    (sideBySide n).graph = twoObjects ∧ ∀ x o hold, (sideBySide n).table.count x o hold =
      (if x = "x" ∧ o = "bob" ∧ hold = ⟨.read, .direct⟩ then n else 0) +
        if x = "y" ∧ o = "alice" ∧ hold = ⟨.write, .direct⟩ then 1 else 0 := by
  have s := (reachable_bobReads n).table.sound
  obtain ⟨graph, counts⟩ := count_bobReads few
  have granted : ((bobReads n).attempt 0 .write aliceOnY).1 = .ok true := by
    refine (answer_eq_true_iff s).2 ⟨?_, fun x claim asked => ?_⟩
    · rw [graph]
      exact known_twoObjects (by decide) (by decide)
    · obtain ⟨named, rfl⟩ := (Target.asks_direct_iff rfl).1 asked
      obtain rfl := List.mem_singleton.1 named
      refine ⟨s.admits_iff.2 fun holder hold _ => ?_, ?_⟩
      · rw [counts, if_neg (by simp)]
      · rw [counts, if_neg (by simp)]
        decide
  refine ⟨(graph_attempt _ _ _ _).trans graph, fun x o hold => ?_⟩
  rw [sideBySide, count_of_granted s granted, counts]
  congr 1
  exact if_congr Request.wants_direct_iff rfl rfl

/-- Bob, who has read `x` as often as 32 bits can count, asks for both objects. Alice alone is in
his way, on `y`. When she has gone, he is not granted both either, because of his own count on `x`. -/
theorem answers_sideBySide {n : Nat} (last : n + 1 = UInt32.size) :
    let c := sideBySide n
    let freed := (c.releaseOwner "alice").2
    c.Reachable ∧ (c.attempt 0 .read bobOnBoth).1 = .ok false ∧
      c.SoleRival .read bobOnBoth "alice" ∧
      ∃ e, (freed.attempt 0 .read bobOnBoth).1 = .error e ∧ e.kind = .invariantViolation := by
  intro c freed
  have reached : c.Reachable := .attempt (reachable_bobReads n) 0 .write _
  have s := reached.table.sound
  obtain ⟨graph, counts⟩ : c.graph = twoObjects ∧ _ := count_sideBySide (by omega)
  have known : Target.Known bobOnBoth.target c.graph := by
    rw [graph]
    exact known_twoObjects (by decide) (by decide)
  have asks (x : Id) (claim : Claim) :
      bobOnBoth.target.Asks c.graph x claim ↔ (x = "x" ∨ x = "y") ∧ claim = .direct := by
    rw [Target.asks_direct_iff rfl, bobOnBoth, List.mem_pair]
  have barred : c.table.admits "y" "bob" .read = false := by
    refine Bool.eq_false_iff.2 fun free => ?_
    have nothing := s.admits_iff.1 free "alice" ⟨.write, .direct⟩ rfl
    rw [counts] at nothing
    simp at nothing
  -- only bob reads `x`, and only alice writes
  have sole : c.SoleRival .read bobOnBoth "alice" := by
    intro x claim asked blocked
    obtain ⟨rfl | rfl, rfl⟩ := (asks x claim).1 asked
    · refine absurd (s.admits_iff.2 fun holder hold writing => ?_) (Bool.eq_false_iff.1 blocked)
      rw [counts, if_neg (by rintro ⟨_, _, rfl⟩; cases writing), if_neg (by simp)]
    · have writes : 0 < c.table.count "y" "alice" ⟨.write, .direct⟩ := by
        rw [counts]
        simp
      refine s.exists_sole writes fun o hold counted => ?_
      rw [counts, if_neg (by simp)] at counted
      split at counted
      · next alice => exact alice.2.1
      · cases counted
  have graph_freed : freed.graph = c.graph := c.graph_releaseOwner "alice"
  have full : freed.table.count "x" "bob" ⟨.read, .direct⟩ = UInt32.size - 1 := by
    rw [table_releaseOwner, Table.count_releaseOwner, if_neg (by decide), counts, ← last]
    simp
  have eased : Eased c freed := (Frees.releaseOwner c "alice").eased s
  refine ⟨reached, ?_, sole, ?_⟩
  · exact answer_eq_false_iff.2 ⟨known, "y", .direct, (asks _ _).2 ⟨.inr rfl, rfl⟩, barred⟩
  · have asked : bobOnBoth.target.Asks freed.graph "x" .direct := ⟨rfl, List.mem_cons_self⟩
    rw [← graph_freed] at known
    apply answer_of_full eased.sound known ?_ asked full
    intro x claim asked
    rw [graph_freed] at asked
    exact admits_of_soleRival s sole asked

/-- Bob is refused because of alice alone, and fails when she has gone. It is the same with a bare
name, for which he would be granted nothing. -/
theorem last_count_stays_taken :
    let c := sideBySide (UInt32.size - 1)
    let freed := (c.releaseOwner "alice").2
    let bare := (∅ : Claims).insert "x" ∅
    let held := leaves (Table.empty.tryAcquire ((∅ : Claims).lay "x" .direct) "alice" .write 0)
    let dropped := (held.releaseOwner "alice").2
    c.Reachable ∧ (c.attempt 0 .read bobOnBoth).1 = .ok false ∧
      c.SoleRival .read bobOnBoth "alice" ∧
      (∃ e, (freed.attempt 0 .read bobOnBoth).1 = .error e ∧ e.kind = .invariantViolation) ∧
      held.tryAcquire bare "bob" .read 0 = .ok (.conflict "x") held ∧
      dropped.tryAcquire bare "bob" .read 0 =
        .error (.brokenRecord "x" (.noClaims "bob")) dropped := by
  obtain ⟨reached, refused, sole, failed⟩ := answers_sideBySide (n := UInt32.size - 1) (by decide)
  exact ⟨reached, refused, sole, failed, rfl, by cbv⟩

/-- Alice writes one of the two trees. -/
def aliceInTree : Coordinator Adjacency := (sharedChild.attempt 0 .write aliceOnTree).2

def bobOnShared : Request := { owner := "bob", target := ⟨["x"], false⟩ }

theorem aliceInTree_frees :
    let given := aliceInTree.release .write aliceOnTree
    let tried := (aliceInTree.attempt 1 .read bobOnRoot).2
    let freed := aliceInTree.releaseOwner "alice"
    aliceInTree.Reachable ∧
      (aliceInTree.attempt 1 .read bobOnRoot).1 = .ok true ∧
      (given.attempt 2 .read bobOnRoot).1 = .ok true ∧
      (aliceInTree.attempt 1 .read bobOnShared).1 = .ok false ∧
      (tried.attempt 2 .read bobOnShared).1 = .ok false ∧
      freed.1 = 2 ∧ freed.2.locks = [] ∧ aliceInTree.SoleRival .read bobOnShared "alice" ∧
      (freed.2.attempt 2 .read bobOnShared).1 = .ok true := by
  intro given tried freed
  have reached : aliceInTree.Reachable := .attempt (.start _ default 0) 0 .write _
  have granted : (aliceInTree.attempt 1 .read bobOnRoot).1 = .ok true := by cbv
  have refused : (aliceInTree.attempt 1 .read bobOnShared).1 = .ok false := by cbv
  have sole : aliceInTree.SoleRival .read bobOnShared "alice" := by
    intro x claim asked _
    obtain ⟨named, _⟩ := (Target.asks_direct_iff rfl).1 asked
    obtain rfl := List.mem_singleton.1 named
    have alone : (aliceInTree.table.records["x"]?.bind Record.soleHolder?) = some "alice" := by cbv
    exact Option.bind_eq_some_iff.1 alone
  obtain ⟨frees, blocks, drops⟩ := reached.releases_free_attempts_block
  obtain ⟨_, _, outcome⟩ := drops "alice"
  have room : ¬∃ x claim, bobOnShared.target.Asks aliceInTree.graph x claim ∧
      aliceInTree.table.count x "bob" ⟨.read, claim⟩ + 1 = UInt32.size := by
    rintro ⟨x, claim, asked, bound⟩
    obtain ⟨named, rfl⟩ := (Target.asks_direct_iff rfl).1 asked
    obtain rfl := List.mem_singleton.1 named
    have nothing : aliceInTree.table.count "x" "bob" ⟨.read, .direct⟩ = 0 := by cbv
    rw [nothing] at bound
    cases bound
  refine ⟨reached, granted, ?_, refused, ?_, by cbv, by cbv, sole, ?_⟩
  · exact frees given (.single (.release aliceInTree .write aliceOnTree)) 1 2 .read bobOnRoot
      granted
  · exact blocks tried (.single (.attempt aliceInTree 1 .read bobOnRoot)) 1 2 .read bobOnShared
      refused
  · exact (outcome 1 2 .read bobOnShared refused sole).2.resolve_right fun full => room full.2

end Coordinator

end SceneLock
