import Mathlib
import SceneLock.Proofs.Ancestry
import SceneLock.Proofs.Interference

/-!
Locks on a forest. Who has write locked a whole subtree shuts the others out of it, and of the trees
that it lies in, but of nothing else.
-/

namespace SceneLock

open Std

namespace Scene

variable {s : Scene} {root : Id} {target : Target}

/-- A target has something in common with the subtree of a root. Seen from the objects named: one
of them is below the root, or it stands for all below it and the root is there. -/
def Crosses (s : Scene) (root : Id) (target : Target) : Prop :=
  ∃ id ∈ target.ids, s.Below id root ∨ (target.tree ∧ s.Below root id)

theorem Linked.crosses_iff (l : s.Linked) (known : s.contains root) {claims : Claims}
    (made : Claims.ofTarget s target = .ok claims) :
    (∃ x ∈ claims, x ∈ ObjectGraph.subtree s root) ↔ s.Crosses root target := by
  simp only [Claims.mem_claims_iff_named made]
  constructor
  · rintro ⟨x, ⟨id, named, inside⟩, below⟩
    refine ⟨id, named, ?_⟩
    split at inside
    · next tree =>
      have meet := (l.meet_iff (Claims.contains_of_ofTarget made named) known).1 ⟨x, inside, below⟩
      exact meet.imp_right fun above => ⟨tree, above⟩
    · rw [inside] at below
      exact .inl (l.mem_subtree_iff.1 below).2
  · rintro ⟨id, named, crosses⟩
    have contained := Claims.contains_of_ofTarget made named
    cases tree : target.tree with
    | true =>
      have either : s.Below id root ∨ s.Below root id := crosses.imp_right And.right
      obtain ⟨x, inside, below⟩ := (l.meet_iff contained known).2 either
      exact ⟨x, ⟨id, named, inside⟩, below⟩
    | false =>
      have below : s.Below id root := by simpa [tree] using crosses
      exact ⟨id, ⟨id, named, rfl⟩, l.mem_subtree_iff.2 ⟨known, below⟩⟩

end Scene

namespace Table

variable {t : Table} {claims : Claims} {owner : Owner} {mode : Mode} {now : Instant}

theorem Sound.obstructed_of_write (s : t.Sound) {x : Id} (listed : x ∈ claims) {writer : Owner}
    (foreign : writer ≠ owner) {claim : Claim} (writes : 0 < t.count x writer ⟨.write, claim⟩) :
    t.Obstructed claims owner mode := by
  obtain ⟨record, found, holder⟩ := s.holder_iff.2 ⟨_, writes⟩
  refine ⟨x, listed, record, found, ?_⟩
  cases mode with
  | read =>
    have has := s.count_pos_iff.1 writes
    exact Record.mode_eq_write_iff.2 ⟨writer, claim, by simpa [tally?, found] using has⟩
  | write => exact ⟨writer, holder, foreign⟩

/-- Where nobody holds anything, nothing is in the way. -/
theorem Sound.tryAcquire_unheld (s : t.Sound) (filled : claims.Filled)
    (unheld : ∀ x ∈ claims, ∀ o hold, t.count x o hold = 0) :
    ∃ u, t.tryAcquire claims owner mode now = .ok .granted u := by
  have free : ¬t.Obstructed claims owner mode := by
    rintro ⟨x, listed, record, found, _⟩
    have locked : x ∈ t.records := ExtTreeMap.mem_iff_isSome_getElem?.2 (by simp [found])
    obtain ⟨o, hold, held⟩ := s.mem_records_iff.1 locked
    exact Nat.ne_of_gt held (unheld x listed o hold)
  have clear := s.conflict?_eq_none_iff.2 free
  obtain ⟨id, blocked, _⟩ | ⟨_, fault, faulty, _⟩ | ⟨_, _, e⟩ :=
    t.tryAcquire_cases claims owner mode now
  · simp [clear] at blocked
  · obtain ⟨x, claim, laid, full⟩ := s.full_of_stagedFault? filled clear faulty
    have listed : x ∈ claims := by
      by_contra absent
      simp [ExtTreeMap.getD_eq_fallback absent] at laid
    rw [unheld x listed] at full
    cases full
  · exact ⟨_, e⟩

end Table

namespace Coordinator

section

variable {G : Type} [ObjectGraph G]

/-- The coordinator as an acquisition has left it that was granted, at once or after waiting. -/
inductive Obtained (mode : Mode) (request : Request) : Coordinator G → Prop
  | attempt {c d : Coordinator G} (h : c.Reachable) :
      tryAcquire mode request c = .ok true d → Obtained mode request d
  | waiting {c d : Coordinator G} {guard : Guard} (h : c.Reachable)
      (meanwhile : Nat → Coordinator G → Coordinator G)
      (others : ∀ n d, d.table.Reachable → (meanwhile n d).table.Reachable) :
      acquireAmid meanwhile mode request c = .ok guard d → Obtained mode request d

/-- What clients do while the graph stays as it is, as long as the owner neither gives back a write
lock of the subtree of the root nor has all its locks dropped. Those who wait for a lock let the
others do the like meanwhile. -/
inductive Sparing (owner : Owner) (root : Id) : Coordinator G → Coordinator G → Prop
  | refl (c : Coordinator G) : Sparing owner root c c
  | trans {c d e : Coordinator G} :
      Sparing owner root c d → Sparing owner root d e → Sparing owner root c e
  | takeClaims (c : Coordinator G) (claims : Claims) (o : Owner) (mode : Mode) :
      Sparing owner root c (leaves (takeClaims claims o mode c))
  | releaseClaims (c : Coordinator G) (ids : List Id) (o : Owner) (mode : Mode) (tree : Bool)
      (spared : ¬(o = owner ∧ mode = .write ∧ tree ∧ root ∈ ids)) :
      Sparing owner root c { c with table := (c.table.release ids o mode tree).2 }
  | tryAcquire (c : Coordinator G) (mode : Mode) (request : Request) :
      Sparing owner root c (leaves (tryAcquire mode request c))
  | acquire (c : Coordinator G) (meanwhile : Nat → Coordinator G → Coordinator G)
      (others : ∀ n d, Sparing owner root d (meanwhile n d)) (mode : Mode) (request : Request) :
      Sparing owner root c (leaves (acquireAmid meanwhile mode request c))
  | release (c : Coordinator G) (mode : Mode) (request : Request)
      (spared : ¬(request.owner = owner ∧ mode = .write ∧ request.target.tree ∧
        root ∈ request.target.ids)) : Sparing owner root c (c.release mode request)
  | releaseGuard (c : Coordinator G) (guard : Guard)
      (spared : ¬(guard.owner = owner ∧ guard.mode = .write ∧ guard.target.tree ∧
        root ∈ guard.target.ids)) : Sparing owner root c (guard.release c)
  | keepGuard (c : Coordinator G) (guard : Guard) : Sparing owner root c (guard.keep c)
  | releaseOwner (c : Coordinator G) {o : Owner} (other : o ≠ owner) :
      Sparing owner root c (c.releaseOwner o).2
  | wait (c : Coordinator G) (now : Instant) : Sparing owner root c { c with now }

/-- Over this graph, the owner has write locked all that is below the root. -/
structure Covered (g : G) (owner : Owner) (root : Id) (c : Coordinator G) : Prop where
  graph : c.graph = g
  table : c.table.Reachable
  held : ∀ x ∈ ObjectGraph.subtree g root, 0 < c.table.count x owner ⟨.write, .tree root⟩

variable {g : G} {owner : Owner} {root : Id} {c d : Coordinator G}

/-- Nothing that leaves the graph alone and takes none of these counts back uncovers the subtree. -/
theorem Covered.of_le (h : c.Covered g owner root) (graph : d.graph = c.graph)
    (table : d.table.Reachable)
    (kept : ∀ x, c.table.count x owner ⟨.write, .tree root⟩ ≤
      d.table.count x owner ⟨.write, .tree root⟩) : d.Covered g owner root where
  graph := graph.trans h.graph
  table := table
  held x inside := Nat.lt_of_lt_of_le (h.held x inside) (kept x)

theorem Covered.release (h : c.Covered g owner root) {ids : List Id} {o : Owner} {mode : Mode}
    {tree : Bool} (spared : ¬(o = owner ∧ mode = .write ∧ tree ∧ root ∈ ids)) :
    ({ c with table := (c.table.release ids o mode tree).2 } : Coordinator G).Covered
      g owner root := by
  refine h.of_le rfl (h.table.next (.release ids mode tree)) fun x => ?_
  rw [h.table.sound.count_release, if_neg]
  · exact Nat.le_refl _
  · rintro ⟨own, writes, shape, named⟩
    exact spared ⟨own, writes.symm, shape.symm, named⟩

theorem Covered.tryAcquire (h : c.Covered g owner root) (mode : Mode) (request : Request) :
    (leaves (tryAcquire mode request c)).Covered g owner root := by
  have table := reachable_tryAcquire h.table mode request
  obtain ⟨claims, _, _, passed, e⟩ | ⟨id, e⟩ | ⟨_, e⟩ := c.tryAcquire_cases mode request
  all_goals rw [e] at table ⊢
  · refine h.of_le rfl table fun x => ?_
    rw [leaves, h.table.sound.count_granted passed]
    exact Nat.le_add_right _ _
  · exact h.of_le rfl table fun _ => Nat.le_refl _
  · exact h

/-- As long as the lock is spared, the subtree stays locked. -/
theorem Sparing.covered (run : Sparing owner root c d) (h : c.Covered g owner root) :
    d.Covered g owner root := by
  induction run with
  | refl => exact h
  | trans _ _ first second => exact second (first h)
  | takeClaims c claims o mode =>
    have table := reachable_takeClaims h.table claims o mode
    unfold Coordinator.takeClaims at table ⊢
    obtain ⟨id, _, e⟩ | ⟨_, _, _, e⟩ | ⟨_, passed, e⟩ :=
      c.table.tryAcquire_cases claims o mode c.now
    all_goals rw [e] at table ⊢
    · exact h.of_le rfl table fun _ => Nat.le_refl _
    · exact h.of_le rfl table fun _ => Nat.le_refl _
    · refine h.of_le rfl table fun x => ?_
      rw [leaves, h.table.sound.count_granted passed]
      exact Nat.le_add_right _ _
  | releaseClaims c ids o mode tree spared => exact h.release spared
  | tryAcquire c mode request => exact h.tryAcquire mode request
  | acquire c meanwhile _ mode request others =>
    obtain ⟨e, t, n, kept, made, ended⟩ | ⟨e, t, kept, ended⟩ :=
      acquireAmid_cases h (fun n d kept => others n d kept)
        (fun _ _ kept => ⟨kept.graph, kept.table, kept.held⟩) mode request
    · have granted := kept.tryAcquire mode request
      rw [made] at granted
      rw [ended]
      exact ⟨granted.graph, granted.table, granted.held⟩
    · rw [ended]
      exact kept
  | release c mode request spared =>
    have left := h.release spared
    exact ⟨left.graph, left.table, left.held⟩
  | releaseGuard c guard spared =>
    have left := h.release spared
    exact ⟨left.graph, left.table, left.held⟩
  | keepGuard => exact ⟨h.graph, h.table, h.held⟩
  | @releaseOwner c o other =>
    have table : (c.releaseOwner o).2.table = (c.table.releaseOwner o).2 := table_releaseOwner c o
    refine h.of_le (c.graph_releaseOwner o) (table ▸ h.table.next .releaseOwner) fun x => ?_
    rw [table, Table.count_releaseOwner, if_neg other]
  | wait => exact ⟨h.graph, h.table, h.held⟩

theorem tryAcquire_covers (r : c.table.Reachable) {request : Request}
    (target : request.target = ⟨[root], true⟩) (made : tryAcquire .write request c = .ok true d) :
    d.Covered d.graph request.owner root ∧ ObjectGraph.contains d.graph root := by
  have table := reachable_tryAcquire r .write request
  obtain ⟨claims, resolved, _, passed, e⟩ | ⟨_, e⟩ | ⟨_, e⟩ := c.tryAcquire_cases .write request
  all_goals rw [e] at made table
  all_goals cases made
  have named : root ∈ request.target.ids := by simp [target]
  refine ⟨⟨rfl, table, fun x inside => ?_⟩, Claims.contains_of_ofTarget resolved named⟩
  have laid : Claim.tree root ∈ claims.getD x ∅ :=
    (Claims.mem_ofTarget resolved).2 ⟨inside, by simp [Claim.origin, target], named⟩
  rw [r.sound.count_granted passed, if_pos ⟨rfl, rfl, laid⟩]
  exact Nat.succ_pos _

/-- Who acquires a write lock of a subtree has all of it locked. -/
theorem Obtained.covered {request : Request} (taken : c.Obtained .write request)
    (target : request.target = ⟨[root], true⟩) :
    c.Covered c.graph request.owner root ∧ ObjectGraph.contains c.graph root := by
  cases taken with
  | attempt h made => exact tryAcquire_covers h.table target made
  | waiting h meanwhile others ended =>
    obtain ⟨e, t, n, kept, made, granted⟩ | ⟨_, _, _, failed⟩ :=
      acquireAmid_cases (P := fun d => d.table.Reachable) h.table others (fun _ _ kept => kept)
        .write request
    · rw [granted] at ended
      cases ended
      obtain ⟨⟨_, table, held⟩, known⟩ := tryAcquire_covers kept target made
      exact ⟨⟨rfl, table, held⟩, known⟩
    · rw [failed] at ended
      cases ended

end

variable {c d : Coordinator Scene} {root : Id} {request other : Request}

/-- While a subtree of a forest is write locked, every other owner is refused whatever has an object
in common with it: the objects that have the root among their ancestors, and the trees whose root is
below or above it. If that lock is all there is, nothing else is refused, and all else granted. -/
theorem Obtained.hierarchical (taken : c.Obtained .write request)
    (target : request.target = ⟨[root], true⟩) (built : c.graph.Edited)
    (run : Sparing request.owner root c d) (mode : Mode) (foreign : other.owner ≠ request.owner)
    (named : other.target.ids ≠ []) (known : ∀ id ∈ other.target.ids, c.graph.contains id) :
    (c.graph.Crosses root other.target → d.Refuses mode other) ∧
    ((∀ x o hold, 0 < d.table.count x o hold →
        o = request.owner ∧ hold = ⟨.write, .tree root⟩ ∧ x ∈ ObjectGraph.subtree c.graph root) →
      (d.Refuses mode other ↔ c.graph.Crosses root other.target) ∧
      (d.Accepts mode other ↔ ¬c.graph.Crosses root other.target)) := by
  obtain ⟨covers, exists_root⟩ := taken.covered target
  have covered := run.covered covers
  have s := covered.table.sound
  obtain ⟨claims, resolved⟩ : ∃ claims, Claims.ofTarget c.graph other.target = .ok claims := by
    obtain ⟨none, _⟩ | ⟨_, id, _, split, _, unknown, _⟩ | ⟨_, _, all⟩ :=
      Claims.ofTarget_cases c.graph other.target
    · exact absurd none named
    · have contained := known id (by simp [split])
      cases unknown.symm.trans contained
    · exact all
  have crosses_iff := built.linked.crosses_iff exists_root resolved
  rw [← covered.graph] at resolved
  have refused (crosses : c.graph.Crosses root other.target) : d.Refuses mode other := by
    obtain ⟨x, listed, inside⟩ := crosses_iff.2 crosses
    have obstructed : d.table.Obstructed claims other.owner mode :=
      s.obstructed_of_write listed foreign.symm (covered.held x inside)
    refine Contends.refuses ?_ covered.table
    obtain ⟨id, _, e⟩ | ⟨clear, _⟩ | ⟨clear, _⟩ :=
      d.table.tryAcquire_cases claims other.owner mode d.now
    · exact ⟨claims, id, resolved, e⟩
    · exact absurd obstructed (s.conflict?_eq_none_iff.1 clear)
    · exact absurd obstructed (s.conflict?_eq_none_iff.1 clear)
  refine ⟨refused, fun only => ?_⟩
  have accepted (apart : ¬c.graph.Crosses root other.target) : d.Accepts mode other := by
    have unheld : ∀ x ∈ claims, ∀ o hold, d.table.count x o hold = 0 := by
      intro x listed o hold
      refine Nat.eq_zero_of_not_pos fun held => apart (crosses_iff.1 ⟨x, listed, ?_⟩)
      exact (only x o hold held).2.2
    obtain ⟨t, e⟩ := s.tryAcquire_unheld (Claims.filled_ofTarget resolved) unheld
    exact Grants.accepts ⟨claims, resolved, e⟩ covered.table
  refine ⟨⟨fun refuses => ?_, refused⟩, fun accepts crosses => ?_, accepted⟩
  · by_contra apart
    exact (accepted apart).not_refuses refuses
  · exact accepts.not_refuses (refused crosses)

/-- Right after the first acquisition there is nothing else. -/
theorem only_of_first (empty : c.table = Table.empty) (target : request.target = ⟨[root], true⟩)
    (made : tryAcquire .write request c = .ok true d) (x : Id) (o : Owner) (hold : Hold)
    (held : 0 < d.table.count x o hold) :
    o = request.owner ∧ hold = ⟨.write, .tree root⟩ ∧ x ∈ ObjectGraph.subtree c.graph root := by
  obtain ⟨claims, resolved, _, passed, e⟩ | ⟨_, e⟩ | ⟨_, e⟩ := c.tryAcquire_cases .write request
  all_goals rw [e] at made
  all_goals cases made
  have none : c.table.count x o hold = 0 := by rw [empty]; rfl
  rw [(empty ▸ Table.sound_empty : c.table.Sound).count_granted passed, none] at held
  split at held
  · next new =>
    obtain ⟨own, writes, laid⟩ := new
    obtain ⟨reaches, shape, named⟩ := (Claims.mem_ofTarget resolved).1 laid
    obtain ⟨mode, claim⟩ := hold
    cases claim with
    | direct => simp [Claim.origin, target] at shape
    | tree id =>
      obtain rfl : id = root := by simpa [Claim.origin, target] using named
      obtain rfl : mode = .write := writes
      exact ⟨own.symm, rfl, reaches⟩
  · cases held

/-- An object `r` with `a` below it, itself below `p`, and `x` apart from them. -/
def grove : Scene :=
  match Scene.ofEntries [⟨"p", none⟩, ⟨"r", some "p"⟩, ⟨"a", some "r"⟩, ⟨"x", none⟩] with
  | .ok s => s
  | .error _ => .empty

/-- Alice has write locked `r` and what is below it. -/
def inGrove : EStateM.Result LockError (Coordinator Scene) Bool :=
  tryAcquire .write { owner := "alice", target := ⟨["r"], true⟩ } { graph := grove }

theorem grove_hierarchical :
    let carol (target : Target) : Request := { owner := "carol", target }
    let bob : Request := { owner := "bob", target := ⟨["x"], false⟩ }
    inGrove = .ok true (leaves inGrove) ∧
      (leaves (tryAcquire .read bob (leaves inGrove))).Refuses .read (carol ⟨["p"], true⟩) ∧
      (leaves inGrove).Refuses .read (carol ⟨["a"], false⟩) ∧
      (leaves inGrove).Accepts .write (carol ⟨["p", "x"], false⟩) := by
  intro carol bob
  have made : inGrove = .ok true (leaves inGrove) := by cbv
  have taken : (leaves inGrove).Obtained .write { owner := "alice", target := ⟨["r"], true⟩ } :=
    .attempt (.start grove default 0) made
  have same : (leaves inGrove).graph = grove := by cbv
  have built : (leaves inGrove).graph.Edited := by
    rw [same, grove]
    split
    · next made => exact Scene.edited_ofEntries made
    · exact .empty
  have known (ids : List Id) (listed : ids ⊆ ["p", "a", "x"]) (id : Id) (mem : id ∈ ids) :
      (leaves inGrove).graph.contains id := by
    have either : id = "p" ∨ id = "a" ∨ id = "x" := by simpa using listed mem
    rw [same]
    obtain rfl | rfl | rfl := either <;> cbv
  have across : (leaves inGrove).graph.Crosses "r" ⟨["p"], true⟩ :=
    ⟨"p", by simp, .inr ⟨rfl, same ▸ .single (by cbv)⟩⟩
  have inside : (leaves inGrove).graph.Crosses "r" ⟨["a"], false⟩ :=
    ⟨"a", by simp, .inl (same ▸ .single (by cbv))⟩
  have apart : ¬(leaves inGrove).graph.Crosses "r" ⟨["p", "x"], false⟩ := by
    have top (id : Id) (other : id ≠ "r") (root : grove.parentOf id = none) :
        ¬grove.Below id "r" := by
      intro below
      obtain e | ⟨parent, up, _⟩ := Relation.ReflTransGen.cases_head below
      · exact other e
      · cases root.symm.trans up
    rw [same]
    rintro ⟨id, named, below | ⟨tree, _⟩⟩
    · have either : id = "p" ∨ id = "x" := by simpa using named
      obtain rfl | rfl := either
      · exact top "p" (by decide) (by cbv) below
      · exact top "x" (by decide) (by cbv) below
    · cases tree
  have fresh := only_of_first rfl rfl made
  refine ⟨made, ?_, ?_, ?_⟩
  · exact (taken.hierarchical rfl built (.tryAcquire _ _ bob) .read (by decide) (by decide)
      (known ["p"] (by decide))).1 across
  · exact (taken.hierarchical rfl built (.refl _) .read (by decide) (by decide)
      (known ["a"] (by decide))).1 inside
  · exact ((taken.hierarchical rfl built (.refl _) .write (by decide) (by decide)
      (known ["p", "x"] (by decide))).2 (same ▸ fresh)).2.2 apart

end Coordinator

end SceneLock
