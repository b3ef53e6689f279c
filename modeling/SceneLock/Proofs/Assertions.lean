import Mathlib
import SceneLock.Proofs.Isolation
import SceneLock.Proofs.Reaping

/-!
What the answer to an assertion says about the past. While the graph stays as it is, and only what
is open is given back, an owner is found to hold a lock exactly if one of its open acquisitions is
such a lock.
-/

namespace SceneLock

open Std

variable {G : Type} [ObjectGraph G]

namespace Guard

/-- The object is named, or, with `tree`, it is below an object that is named and stands for all
below it. -/
def Locks (guard : Guard) (g : G) (x : Id) (tree : Bool) : Prop :=
  x ∈ guard.target.ids ∨
    tree ∧ guard.target.tree ∧ ∃ root ∈ guard.target.ids, ObjectGraph.Leads g root x

/-- The two are for one owner, in one mode and shape, and name the same objects. -/
structure Matches (a b : Guard) : Prop where
  owner : a.owner = b.owner
  mode : a.mode = b.mode
  shape : a.target.tree = b.target.tree
  named : ∀ id, id ∈ a.target.ids ↔ id ∈ b.target.ids

theorem Matches.strike_eq {a b : Guard} (same : a.Matches b) (l : Ledger) :
    l.strike a.mode a.request = l.strike b.mode b.request := by
  funext o m tree id
  have names : Ledger.Names a.mode a.request o m tree id ↔
      Ledger.Names b.mode b.request o m tree id := by
    simp only [Ledger.Names, request, same.owner, same.mode, same.shape, same.named]
  simp only [Ledger.strike, names]

/-- Which claims are laid on an object through a guard, as far as they count for an assertion. -/
theorem locks_iff {guard : Guard} {g : G} {claims : Claims} {x : Id} {tree : Bool}
    (resolved : Claims.ofTarget g guard.target = .ok claims) :
    guard.Locks g x tree ↔ ∃ claim : Claim,
      (claim.Reaches g x ∧ (claim.origin x).1 = guard.target.tree ∧
        (claim.origin x).2 ∈ guard.target.ids) ∧
      (claim = .direct ∨ ∃ root, claim = .tree root ∧ (tree ∨ root = x)) := by
  constructor
  · rintro (named | ⟨wide, shape, root, named, leads⟩)
    · have reaches := Claims.reaches_of_ofTarget resolved x named
      refine ⟨.via guard.target.tree x, ⟨reaches, by simp, by simpa using named⟩, ?_⟩
      unfold Claim.via
      split
      · exact .inr ⟨x, rfl, .inr rfl⟩
      · exact .inl rfl
    · have contained := Claims.contains_of_ofTarget resolved named
      have inside : x ∈ ObjectGraph.subtree g root :=
        ObjectGraph.mem_subtree_iff.2 ⟨contained, leads⟩
      exact ⟨.tree root, ⟨inside, shape.symm, named⟩, .inr ⟨root, rfl, .inl wide⟩⟩
  · rintro ⟨_, ⟨reaches, shape, named⟩, rfl | ⟨root, rfl, wide | rfl⟩⟩
    · exact .inl named
    · have leads := (ObjectGraph.mem_subtree_iff.1 reaches).2
      exact .inr ⟨wide, shape.symm, root, named, leads⟩
    · exact .inl named

end Guard

namespace Ledger.Accounted

variable {g : G} {t : Table} {opens : List Guard}

theorem held_iff (a : (ofGuards opens).Accounted g t opens) {x : Id} {o : Owner} {mode : Mode}
    {claim : Claim} :
    (t.tally? x o ⟨mode, claim⟩).isSome ↔ ∃ guard ∈ opens, guard.owner = o ∧ guard.mode = mode ∧
      claim.Reaches g x ∧ (claim.origin x).1 = guard.target.tree ∧
        (claim.origin x).2 ∈ guard.target.ids := by
  rw [← a.sound.count_pos_iff]
  by_cases reaches : claim.Reaches g x
  · rw [a.describes.reached x o mode claim reaches, ofGuards_pos_iff]
    refine exists_congr fun guard => and_congr_right fun _ => ?_
    simp only [Names, Guard.request, reaches, true_and, eq_comm (a := mode)]
  · simp [a.describes.beyond x o mode claim reaches, reaches]

/-- Whoever asks finds the open acquisitions. An open write lock hides those for reading. -/
theorem isLocked_iff (a : (ofGuards opens).Accounted g t opens) {x : Id} {o : Owner} {mode : Mode}
    {tree : Bool} :
    t.isLocked x o mode tree ↔
      (∃ guard ∈ opens, guard.owner = o ∧ guard.mode = mode ∧ guard.Locks g x tree) ∧
      (mode = .read →
        ¬∃ guard ∈ opens, guard.owner = o ∧ guard.mode = .write ∧ guard.Locks g x true) := by
  have locked (m : Mode) (tree : Bool) :
      (∃ claim, (t.tally? x o ⟨m, claim⟩).isSome ∧
        (claim = .direct ∨ ∃ root, claim = .tree root ∧ (tree ∨ root = x))) ↔
      ∃ guard ∈ opens, guard.owner = o ∧ guard.mode = m ∧ guard.Locks g x tree := by
    simp only [a.held_iff]
    constructor
    · rintro ⟨claim, ⟨guard, mem, own, mode, laid⟩, counts⟩
      obtain ⟨claims, resolved⟩ := a.resolved guard mem
      exact ⟨guard, mem, own, mode, (Guard.locks_iff resolved).2 ⟨claim, laid, counts⟩⟩
    · rintro ⟨guard, mem, own, mode, locks⟩
      obtain ⟨claims, resolved⟩ := a.resolved guard mem
      obtain ⟨claim, laid, counts⟩ := (Guard.locks_iff resolved).1 locks
      exact ⟨claim, ⟨guard, mem, own, mode, laid⟩, counts⟩
  -- With `tree` every claim counts, so that no write lock is left means that no write claim is.
  have hidden : (∀ claim, t.tally? x o ⟨.write, claim⟩ = none) ↔
      ¬∃ guard ∈ opens, guard.owner = o ∧ guard.mode = .write ∧ guard.Locks g x true := by
    rw [← locked .write true]
    constructor
    · rintro none ⟨claim, has, _⟩
      simp [none claim] at has
    · intro no claim
      refine Option.not_isSome_iff_eq_none.1 fun has => no ⟨claim, has, ?_⟩
      cases claim with
      | direct => exact .inl rfl
      | tree root => exact .inr ⟨root, rfl, .inl rfl⟩
  rw [a.sound.isLocked_iff, locked, hidden]

end Ledger.Accounted

namespace Coordinator

/-- A coordinator that was used over one graph, and which acquisitions are open, the latest first.
An acquisition is closed by a release that matches it, or when all its owner has is dropped. -/
inductive Holding : Coordinator G → List Guard → Prop
  | start (graph : G) (policy : RetryPolicy) (now : Instant) : Holding { graph, policy, now } []
  | granted {c d : Coordinator G} {opens : List Guard} {mode : Mode} {request : Request} :
      Holding c opens → tryAcquire mode request c = .ok true d →
      Holding d (⟨request.target, request.owner, mode⟩ :: opens)
  | conflict {c d : Coordinator G} {opens : List Guard} {mode : Mode} {request : Request} :
      Holding c opens → tryAcquire mode request c = .ok false d → Holding d opens
  | failed {c d : Coordinator G} {opens : List Guard} {mode : Mode} {request : Request}
      {e : LockError} : Holding c opens → tryAcquire mode request c = .error e d → Holding d opens
  | release {c : Coordinator G} {opens : List Guard} {mode : Mode} {request : Request}
      {guard : Guard} (place : Nat) :
      Holding c opens → opens[place]? = some guard →
      Guard.Matches ⟨request.target, request.owner, mode⟩ guard →
      Holding (c.release mode request) (opens.eraseIdx place)
  | releaseGuard {c : Coordinator G} {opens : List Guard} {guard : Guard} (place : Nat) :
      Holding c opens → opens[place]? = some guard →
      Holding (guard.release c) (opens.eraseIdx place)
  | releaseOwner {c : Coordinator G} {opens : List Guard} (owner : Owner) :
      Holding c opens → Holding (c.releaseOwner owner).2 (opens.filter (·.owner ≠ owner))
  | wait {c : Coordinator G} {opens : List Guard} (now : Instant) :
      Holding c opens → Holding { c with now } opens
  | note {c : Coordinator G} {opens : List Guard} (entry : LogEntry) :
      Holding c opens → Holding (c.note entry) opens

variable {c d : Coordinator G} {opens : List Guard}

/-- Who waits for a lock makes attempts in between what the others do. -/
theorem Holding.acquireAmid (kept : List Guard → Prop) (h : Holding c opens) (start : kept opens)
    {meanwhile : Nat → Coordinator G → Coordinator G}
    (others : ∀ n d opens, kept opens → Holding d opens →
      ∃ opens, kept opens ∧ Holding (meanwhile n d) opens) (mode : Mode) (request : Request) :
    ∃ opens, kept opens ∧
      match acquireAmid meanwhile mode request c with
      | .ok guard d => Holding d (guard :: opens)
      | .error _ d => Holding d opens := by
  obtain ⟨d, t, n, ⟨opens, same, held⟩, made, e⟩ | ⟨_, d, ⟨opens, same, held⟩, e⟩ :=
    acquireAmid_cases (P := fun d => ∃ opens, kept opens ∧ Holding d opens) ⟨opens, start, h⟩
      (fun n d ⟨opens, same, held⟩ => others n d opens same held)
      (fun _ _ ⟨opens, same, held⟩ => ⟨opens, same, held.note _⟩) mode request
  · exact ⟨opens, same, e ▸ (held.granted made).note _⟩
  · exact ⟨opens, same, e ▸ held⟩

theorem Holding.acquire (h : Holding c opens) (mode : Mode) (request : Request) :
    match acquire mode request c with
    | .ok guard d => Holding d (guard :: opens)
    | .error _ d => Holding d opens := by
  obtain ⟨_, rfl, held⟩ := h.acquireAmid (· = opens) rfl
    (fun _ _ opens same held => ⟨opens, same, held⟩) mode request
  exact held

/-- The table has exactly the entries that the open acquisitions account for. -/
theorem Holding.accounted (h : Holding c opens) :
    (Ledger.ofGuards opens).Accounted c.graph c.table opens := by
  induction h with
  | start graph =>
    exact ⟨Table.sound_empty, fun _ mem => absurd mem List.not_mem_nil, .blank,
      fun _ _ _ _ => Nat.le_refl 0⟩
  | @granted c d opens mode request _ made a =>
    obtain ⟨claims, resolved, _, passed, e⟩ | ⟨_, e⟩ | ⟨_, e⟩ := c.tryAcquire_cases mode request
    all_goals rw [e] at made
    all_goals cases made
    rw [Ledger.ofGuards_cons]
    exact a.granted resolved passed
  | @conflict c d opens mode request _ made a =>
    obtain ⟨_, _, _, _, e⟩ | ⟨_, e⟩ | ⟨_, e⟩ := c.tryAcquire_cases mode request
    all_goals rw [e] at made
    all_goals cases made
    exact a
  | failed _ made a =>
    rw [eq_of_tryAcquire_error made]
    exact a
  | @release c opens mode request guard place _ found same a =>
    have struck := same.strike_eq (Ledger.ofGuards opens)
    rw [← Ledger.ofGuards_eraseIdx found] at struck
    rw [← struck]
    refine a.released ⟨request.target, request.owner, mode⟩ (fun _ => List.mem_of_mem_eraseIdx)
      fun o m tree id => ?_
    rw [struck]
  | @releaseGuard c opens guard place _ found a =>
    rw [Ledger.ofGuards_eraseIdx found]
    refine a.released guard (fun _ => List.mem_of_mem_eraseIdx) fun o m tree id => ?_
    rw [Ledger.ofGuards_eraseIdx found]
  | releaseOwner owner _ a =>
    rw [Ledger.ofGuards_filter, graph_releaseOwner, table_releaseOwner]
    exact a.releasedOwner owner
  | wait _ _ a => exact a
  | note _ _ a => exact a

/-- An assertion that an owner has an object write locked succeeds exactly if one of its open
acquisitions for writing names the object or, with `tree`, stands for all below an object that leads
to it. The same holds for reading, as long as no open acquisition of that owner for writing names
the object or stands for it. -/
theorem Holding.assertLocked_iff (h : Holding c opens) (x : Id) (o : Owner) (tree : Bool) :
    (c.assertLocked .write x o tree = .ok () ↔
      ∃ guard ∈ opens, guard.owner = o ∧ guard.mode = .write ∧ guard.Locks c.graph x tree) ∧
    (c.assertLocked .read x o tree = .ok () ↔
      (∃ guard ∈ opens, guard.owner = o ∧ guard.mode = .read ∧ guard.Locks c.graph x tree) ∧
      ¬∃ guard ∈ opens, guard.owner = o ∧ guard.mode = .write ∧ guard.Locks c.graph x true) := by
  have succeeds (mode : Mode) : c.assertLocked mode x o tree = .ok () ↔
      c.table.isLocked x o mode tree := by
    unfold assertLocked isLocked
    split <;> simp [*]
  rw [succeeds, succeeds, h.accounted.isLocked_iff, h.accounted.isLocked_iff]
  simp

/-- Below `r` there is `a`, and below `a` there are `r` itself again and `b`, which does not
exist. -/
def looped : Adjacency := ⟨.ofList [("r", ["a"]), ("a", ["r", "b"])]⟩

/-- Alice reads all that is below `r`. -/
def reading : EStateM.Result LockError (Coordinator Adjacency) Bool :=
  tryAcquire .read { owner := "alice", target := ⟨["r"], true⟩ } { graph := looped }

/-- Then she writes `a` as well. -/
def upgraded : EStateM.Result LockError (Coordinator Adjacency) Bool :=
  tryAcquire .write { owner := "alice", target := ⟨["a"], false⟩ } (leaves reading)

/-- In the end she gives that back. -/
def downgraded : Coordinator Adjacency :=
  (leaves upgraded).release .write { owner := "alice", target := ⟨["a", "a"], false⟩ }

theorem upgraded_assertions :
    (leaves upgraded).assertLocked .write "a" "alice" false = .ok () ∧
      (leaves upgraded).assertLocked .read "a" "alice" true ≠ .ok () ∧
      (leaves upgraded).assertLocked .read "b" "alice" true = .ok () ∧
      (leaves upgraded).assertLocked .read "b" "alice" false ≠ .ok () ∧
      downgraded.assertLocked .read "a" "alice" true = .ok () := by
  let wide : Guard := ⟨⟨["r"], true⟩, "alice", .read⟩
  let narrow : Guard := ⟨⟨["a"], false⟩, "alice", .write⟩
  have first : reading = .ok true (leaves reading) := by cbv
  have second : upgraded = .ok true (leaves upgraded) := by cbv
  have held : (leaves upgraded).Holding [narrow, wide] :=
    ((Holding.start _ default 0).granted first).granted second
  have left : downgraded.Holding [wide] :=
    .release 0 held rfl ⟨rfl, rfl, rfl, by simp [narrow]⟩
  have before : (leaves upgraded).graph = looped := by cbv
  have after : downgraded.graph = looped := by cbv
  have leads_a : ObjectGraph.Leads looped "r" "a" := .single (List.contains_iff_mem.1 (by cbv))
  have leads_b : ObjectGraph.Leads looped "r" "b" :=
    leads_a.tail (List.contains_iff_mem.1 (by cbv))
  have asked (x : Id) (tree : Bool) := held.assertLocked_iff x "alice" tree
  rw [before] at asked
  refine ⟨(asked "a" false).1.2 ?_, fun succeeds => ?_, (asked "b" true).2.2 ⟨?_, ?_⟩,
    fun succeeds => ?_, ?_⟩
  · exact ⟨narrow, by simp, rfl, rfl, .inl (by decide)⟩
  · exact ((asked "a" true).2.1 succeeds).2 ⟨narrow, by simp, rfl, rfl, .inl (by decide)⟩
  · exact ⟨wide, by simp, rfl, rfl, .inr ⟨rfl, rfl, "r", by decide, leads_b⟩⟩
  · simp [Guard.Locks, narrow, wide]
  · obtain ⟨⟨guard, mem, _, _, locks⟩, _⟩ := (asked "b" false).2.1 succeeds
    have either : guard = narrow ∨ guard = wide := by simpa using mem
    obtain rfl | rfl := either <;> simp [Guard.Locks, narrow, wide] at locks
  · refine (left.assertLocked_iff "a" "alice" true).2.2 ⟨?_, by simp [wide]⟩
    exact ⟨wide, by simp, rfl, rfl, .inr ⟨rfl, rfl, "r", by decide, after ▸ leads_a⟩⟩

end Coordinator

end SceneLock
