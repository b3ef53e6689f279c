import Mathlib
import SceneLock.Proofs.Extensionality
import SceneLock.Proofs.Guards

/-!
Programs of scopes. A scope adds what its request comes to, runs its body, and takes the same away
again, or leaves it. Over a graph that stays as it is, nothing else is left of a program than what
its scopes were told to leave.
-/

namespace SceneLock

open Std

/-- A program that deals with the coordinator in scopes only, one in the other and one after the
other. -/
inductive Work (σ ε : Type) : Type → Type 1
  /-- What it does on its own. It may return, fail or crash. -/
  | own {α : Type} (act : EStateM (Abort ε) σ α) : Work σ ε α
  | wait (now : Instant) : Work σ ε Unit
  | andThen {α β : Type} (first : Work σ ε β) (next : β → Work σ ε α) : Work σ ε α
  /-- Goes on after a failure or a crash of the body. -/
  | rescue {α : Type} (body : Work σ ε α) (handler : Abort ε → Work σ ε α) : Work σ ε α
  | scope {α : Type} (mode : Mode) (request : Request) (body : Work σ ε α) : Work σ ε α

variable {G : Type} [ObjectGraph G] {σ ε α : Type}

namespace Work

def run (refuse : LockError → ε) {α : Type} :
    Work σ ε α → Coordinator G × σ → EStateM.Result (Abort ε) (Coordinator G × σ) α
  | own act, (c, s) =>
    match act s with
    | .ok a s => .ok a (c, s)
    | .error e s => .error e (c, s)
  | wait now, (c, s) => .ok () ({ c with now }, s)
  | andThen first next, start =>
    match first.run refuse start with
    | .ok b state => (next b).run refuse state
    | .error e state => .error e state
  | rescue body handler, start =>
    match body.run refuse start with
    | .ok a state => .ok a state
    | .error e state => (handler e).run refuse state
  | scope mode request body, start =>
    Program.withLock refuse mode request (body.run refuse) start

/-- The guards of those scopes of a run that were entered, did not crash, and were told not to
release after an outcome such as theirs. -/
def kept (refuse : LockError → ε) {α : Type} : Work σ ε α → Coordinator G × σ → List Guard
  | own _, _ => []
  | wait _, _ => []
  | andThen first next, start =>
    first.kept refuse start ++
      match first.run refuse start with
      | .ok b state => (next b).kept refuse state
      | .error _ _ => []
  | rescue body handler, start =>
    body.kept refuse start ++
      match body.run refuse start with
      | .ok _ _ => []
      | .error e state => (handler e).kept refuse state
  | scope mode request body, (c, s) =>
    match Coordinator.acquire mode request c with
    | .error _ _ => []
    | .ok guard c =>
      let inner := body.kept refuse (c, s)
      match body.run refuse (c, s) with
      | .ok _ _ => if request.releasesAfter true then inner else guard :: inner
      | .error (.failed _) _ => if request.releasesAfter false then inner else guard :: inner
      | .error (.crashed _) _ => inner

end Work

namespace Ledger

/-- The ledger with one more entry for every id that a guard names. -/
def plus (l : Ledger) (guards : List Guard) : Ledger := fun o m tree id =>
  l o m tree id + ofGuards guards o m tree id

theorem plus_nil (l : Ledger) : l.plus [] = l := rfl

theorem plus_append (l : Ledger) (first rest : List Guard) :
    l.plus (first ++ rest) = (l.plus first).plus rest := by
  funext o m tree id
  simp only [plus, ofGuards_append, Nat.add_assoc]

theorem plus_singleton (l : Ledger) (guard : Guard) :
    l.plus [guard] = l.enter guard.mode guard.request := by
  funext o m tree id
  simp only [plus, enter, ofGuards_cons, ofGuards_nil, blank, Nat.zero_add]

theorem strike_plus_cons (l : Ledger) (guard : Guard) (guards : List Guard) :
    (l.plus (guard :: guards)).strike guard.mode guard.request = l.plus guards := by
  funext o m tree id
  simp only [plus, strike, ofGuards_cons, enter, ← Nat.add_assoc, Nat.add_sub_cancel]

theorem Describes.count_mono {l more : Ledger} {g : G} {t u : Table} (before : l.Describes g t)
    (after : more.Describes g u) (le : ∀ o m tree id, l o m tree id ≤ more o m tree id) (x : Id)
    (o : Owner) (hold : Hold) : t.count x o hold ≤ u.count x o hold := by
  by_cases reaches : hold.claim.Reaches g x
  · rw [before.reached x o hold.mode hold.claim reaches,
      after.reached x o hold.mode hold.claim reaches]
    exact le _ _ _ _
  · rw [before.beyond x o hold.mode hold.claim reaches]
    exact Nat.zero_le _

end Ledger

/-- The second coordinator is the first, with what the guards were granted on top. -/
structure Gains (l : Ledger) (c d : Coordinator G) (guards : List Guard) : Prop where
  graph : d.graph = c.graph
  sound : d.table.Sound
  describes : (l.plus guards).Describes c.graph d.table
  resolved : ∀ guard ∈ guards, ∃ claims, Claims.ofTarget c.graph guard.target = .ok claims
  since : ∀ x ∈ c.table.records, d.table.since? x = c.table.since? x

namespace Gains

variable {l : Ledger} {c d e : Coordinator G} {guard : Guard} {guards more : List Guard}

theorem nothing (s : c.table.Sound) (desc : l.Describes c.graph c.table)
    (graph : d.graph = c.graph) (table : d.table = c.table) : Gains l c d [] where
  graph := graph
  sound := table ▸ s
  describes := by
    rw [Ledger.plus_nil, table]
    exact desc
  resolved _ mem := absurd mem List.not_mem_nil
  since x _ := by rw [table]

theorem trans (first : Gains l c d guards) (second : Gains (l.plus guards) d e more) :
    Gains l c e (guards ++ more) where
  graph := second.graph.trans first.graph
  sound := second.sound
  describes := by
    rw [Ledger.plus_append, ← first.graph]
    exact second.describes
  resolved := by
    refine List.forall_mem_append.2 ⟨first.resolved, ?_⟩
    rw [← first.graph]
    exact second.resolved
  since x mem := by
    have between := first.since x mem
    rw [second.since x (Table.mem_records_of_since?_eq mem between), between]

theorem acquired (s : c.table.Sound) (desc : l.Describes c.graph c.table) {mode : Mode}
    {request : Request} (made : Coordinator.acquire mode request c = .ok guard d) :
    Gains l c d [guard] := by
  obtain ⟨rfl, claims, resolved, passed, alike⟩ := Coordinator.acquired made
  refine ⟨alike.graph, ?_, ?_, ?_, fun x mem => ?_⟩
  · rw [alike.table]
    exact s.granted passed
  · rw [alike.table, Ledger.plus_singleton]
    exact desc.granted s resolved passed
  · exact List.forall_mem_singleton.2 ⟨claims, resolved⟩
  · rw [alike.table]
    exact Table.since?_granted mem

/-- Giving a guard back takes away what it added, whatever was added since then. -/
theorem released (s : c.table.Sound) (desc : l.Describes c.graph c.table)
    (g : Gains l c d (guard :: guards)) : Gains l c (guard.release d) guards := by
  have describes : (l.plus guards).Describes c.graph (guard.release d).table := by
    rw [← Ledger.strike_plus_cons l guard guards]
    exact g.describes.released g.sound guard.mode guard.request
  have sound : (guard.release d).table.Sound := g.sound.release _ _ _ _
  refine ⟨g.graph, sound, describes, fun other mem => ?_, fun x mem => ?_⟩
  · exact g.resolved other (List.mem_cons_of_mem _ mem)
  · obtain ⟨o, hold, held⟩ := s.mem_records_iff.1 mem
    have more := desc.count_mono describes (fun _ _ _ _ => Nat.le_add_right _ _) x o hold
    have left : x ∈ (guard.release d).table.records :=
      sound.mem_records_iff.2 ⟨o, hold, Nat.lt_of_lt_of_le held more⟩
    exact (Table.since?_release left).trans (g.since x mem)

theorem settled (s : c.table.Sound) (desc : l.Describes c.graph c.table)
    (g : Gains l c d (guard :: guards)) (releases : Bool) :
    Gains l c (guard.settle releases d) (if releases then guards else guard :: guards) := by
  cases releases with
  | true => exact g.released s desc
  | false => exact ⟨g.graph, g.sound, g.describes, g.resolved, g.since⟩

/-- What the guards account for is what has been added to each count. -/
theorem count (desc : l.Describes c.graph c.table) (g : Gains l c d guards) (x : Id) (o : Owner)
    (hold : Hold) : d.table.count x o hold = c.table.count x o hold +
      guards.countP fun guard => (guard.lease c.graph).backs x o hold := by
  obtain ⟨mode, claim⟩ := hold
  by_cases reaches : claim.Reaches c.graph x
  · rw [desc.reached x o mode claim reaches, g.describes.reached x o mode claim reaches]
    refine congrArg _ (List.countP_congr fun guard mem => ?_)
    obtain ⟨claims, resolved⟩ := g.resolved guard mem
    rw [Lease.backs_iff, decide_eq_true_eq, Guard.covers_lease_iff resolved]
    simp only [Ledger.Names, Guard.request, Guard.lease, reaches, true_and, eq_comm]
  · rw [desc.beyond x o mode claim reaches, g.describes.beyond x o mode claim reaches,
      List.countP_eq_zero.2]
    intro guard _ backs
    exact reaches (Guard.mem_claims (Lease.backs_iff.1 backs).2.2).1

end Gains

namespace Coordinator

/-- Where clients can get with requests over one graph, whoever makes them and in whatever order.
What is noted in the log is left open. -/
inductive Steady (graph : G) : Coordinator G → Prop
  | start (policy : RetryPolicy) (now : Instant) : Steady graph { graph, policy, now }
  | tryAcquire {c : Coordinator G} (h : Steady graph c) (mode : Mode) (request : Request) :
      Steady graph (leaves (tryAcquire mode request c))
  | release {c : Coordinator G} (h : Steady graph c) (mode : Mode) (request : Request) :
      Steady graph (c.release mode request)
  | releaseGuard {c : Coordinator G} (h : Steady graph c) (guard : Guard) :
      Steady graph (guard.release c)
  | releaseOwner {c : Coordinator G} (h : Steady graph c) (owner : Owner) :
      Steady graph (c.releaseOwner owner).2
  | wait {c : Coordinator G} (h : Steady graph c) (now : Instant) : Steady graph { c with now }
  | note {c : Coordinator G} (h : Steady graph c) (entry : LogEntry) : Steady graph (c.note entry)

namespace Steady

variable {graph : G} {c : Coordinator G}

/-- Acquisitions get nowhere else, not even while others do what they may between the attempts. -/
theorem acquireAmid (h : c.Steady graph) {meanwhile : Nat → Coordinator G → Coordinator G}
    (others : ∀ n d, d.Steady graph → (meanwhile n d).Steady graph) (mode : Mode)
    (request : Request) : (leaves (acquireAmid meanwhile mode request c)).Steady graph := by
  obtain ⟨d, t, n, kept, made, ended⟩ | ⟨e, d, kept, ended⟩ :=
    acquireAmid_cases h others (fun _ entry kept => kept.note entry) mode request
  · have attempt := kept.tryAcquire mode request
    rw [made] at attempt
    rw [ended]
    exact attempt.note _
  · rw [ended]
    exact kept

theorem settle (h : c.Steady graph) (guard : Guard) (releases : Bool) :
    (guard.settle releases c).Steady graph := by
  cases releases with
  | true => exact h.releaseGuard guard
  | false => exact h.note .kept

/-- In all of these places the table is as some ledger says. -/
theorem describes (h : c.Steady graph) : c.graph = graph ∧ c.table.Reachable ∧
    ∃ l : Ledger, l.Describes graph c.table := by
  induction h with
  | start => exact ⟨rfl, .empty, _, .blank⟩
  | @tryAcquire c _ mode request ih =>
    obtain ⟨rfl, r, l, desc⟩ := ih
    exact ⟨Call.graph_act c (.tryAcquire mode request), reachable_tryAcquire r mode request, _,
      desc.call r.sound (.tryAcquire mode request)⟩
  | release _ mode request ih =>
    obtain ⟨same, r, l, desc⟩ := ih
    exact ⟨same, r.next (.release _ mode _), _, desc.released r.sound mode request⟩
  | releaseGuard _ guard ih =>
    obtain ⟨same, r, l, desc⟩ := ih
    exact ⟨same, r.next (.release _ guard.mode _), _,
      desc.released r.sound guard.mode guard.request⟩
  | releaseOwner _ owner ih =>
    obtain ⟨same, r, l, desc⟩ := ih
    rw [graph_releaseOwner, table_releaseOwner]
    exact ⟨same, r.next .releaseOwner, _, desc.releasedOwner owner⟩
  | wait _ _ ih => exact ih
  | note _ _ ih => exact ih

end Steady

end Coordinator

namespace Work

/-- Programs of scopes lead nowhere else either. -/
theorem steady_run {graph : G} (refuse : LockError → ε) {α : Type} (w : Work σ ε α)
    {c : Coordinator G} (s : σ) (h : c.Steady graph) :
    (leaves (w.run refuse (c, s))).1.Steady graph := by
  induction w generalizing c s with
  | own act =>
    simp only [run]
    cases act s <;> exact h
  | wait now => exact h.wait now
  | andThen first next ihFirst ihNext =>
    simp only [run]
    have before := ihFirst s h
    cases ended : first.run refuse (c, s) with
    | ok b state =>
      rw [ended] at before
      exact ihNext b state.2 before
    | error e state =>
      rw [ended] at before
      exact before
  | rescue body handler ihBody ihHandler =>
    simp only [run]
    have before := ihBody s h
    cases ended : body.run refuse (c, s) with
    | ok a state =>
      rw [ended] at before
      exact before
    | error e state =>
      rw [ended] at before
      exact ihHandler e state.2 before
  | scope mode request body ih =>
    simp only [run, Program.withLock, Program.act]
    have entered := h.acquireAmid (fun _ _ kept => kept) mode request
    rw [← Coordinator.acquire] at entered
    cases made : Coordinator.acquire mode request c with
    | error e d =>
      rw [made] at entered
      exact entered
    | ok guard d =>
      rw [made] at entered
      have inside : (leaves (body.run refuse (d, s))).1.Steady graph := ih s entered
      simp only
      cases ended : body.run refuse (d, s) with
      | ok a state =>
        rw [ended] at inside
        exact Coordinator.Steady.settle inside guard _
      | error abort state =>
        rw [ended] at inside
        cases abort with
        | failed e => exact Coordinator.Steady.settle inside guard _
        | crashed text => exact Coordinator.Steady.releaseGuard inside guard

/-- By recursion on the program: whatever a run does, it leaves what its scopes keep and no more. -/
theorem gains (refuse : LockError → ε) {α : Type} (w : Work σ ε α) {c : Coordinator G} (s : σ)
    {l : Ledger} (sound : c.table.Sound) (desc : l.Describes c.graph c.table) :
    Gains l c (leaves (w.run refuse (c, s))).1 (w.kept refuse (c, s)) := by
  induction w generalizing c s l with
  | own act =>
    simp only [run, kept]
    cases act s <;> exact .nothing sound desc rfl rfl
  | wait now => exact .nothing sound desc rfl rfl
  | andThen first next ihFirst ihNext =>
    simp only [run, kept]
    have before := ihFirst s sound desc
    cases ended : first.run refuse (c, s) with
    | ok b state =>
      obtain ⟨d, t⟩ := state
      rw [ended] at before
      exact before.trans (ihNext b t before.sound (before.graph ▸ before.describes))
    | error e state =>
      rw [ended] at before
      rw [List.append_nil]
      exact before
  | rescue body handler ihBody ihHandler =>
    simp only [run, kept]
    have before := ihBody s sound desc
    cases ended : body.run refuse (c, s) with
    | ok a state =>
      rw [ended] at before
      rw [List.append_nil]
      exact before
    | error e state =>
      obtain ⟨d, t⟩ := state
      rw [ended] at before
      exact before.trans (ihHandler e t before.sound (before.graph ▸ before.describes))
  | scope mode request body ih =>
    simp only [run, kept, Program.withLock, Program.act]
    cases made : Coordinator.acquire mode request c with
    | error e d =>
      have alike := Coordinator.alike_of_refused made
      exact .nothing sound desc alike.graph alike.table
    | ok guard d =>
      have entered := Gains.acquired sound desc made
      have inside := ih s entered.sound (entered.graph ▸ entered.describes)
      have both := entered.trans inside
      simp only
      cases ended : body.run refuse (d, s) with
      | ok a state =>
        rw [ended] at both
        exact both.settled sound desc _
      | error abort state =>
        rw [ended] at both
        cases abort with
        | failed e => exact both.settled sound desc _
        | crashed text => exact both.released sound desc

/-- How a program has ended, with the state of its own that it left. -/
def ending {α : Type} : EStateM.Result (Abort ε) (Coordinator G × σ) α → Except (Abort ε) α × σ
  | .ok a (_, s) => (.ok a, s)
  | .error e (_, s) => (.error e, s)

theorem ending_scope (refuse : LockError → ε) {mode : Mode} {request : Request}
    (body : Work σ ε α) {c d : Coordinator G} {guard : Guard} (s : σ)
    (entered : Coordinator.acquire mode request c = .ok guard d) :
    ending ((scope mode request body).run refuse (c, s)) =
      ending (body.run refuse (d, s)) := by
  simp only [run, Program.withLock, Program.act, entered]
  cases body.run refuse (d, s) with
  | ok a state => rfl
  | error abort state => cases abort <;> rfl

/-- A program started anywhere that requests lead to leaves the table as it was, with one count
more of each hold for every scope that was told to keep its lock, and still locked since the same
times. If no scope keeps its lock, the table is the same as before. A scope that is refused its lock
ends with the refusal, and neither its own state nor the table is touched; one that is granted its
lock ends as its body does. -/
theorem leaves_kept {graph : G} {c : Coordinator G} (h : c.Steady graph) (refuse : LockError → ε)
    (w : Work σ ε α) (s : σ) :
    (∀ x o hold, (leaves (w.run refuse (c, s))).1.table.count x o hold =
      c.table.count x o hold +
        (w.kept refuse (c, s)).countP fun guard => (guard.lease graph).backs x o hold) ∧
    (∀ x ∈ c.table.records,
      (leaves (w.run refuse (c, s))).1.table.since? x = c.table.since? x) ∧
    (w.kept refuse (c, s) = [] → (leaves (w.run refuse (c, s))).1.table = c.table) ∧
    (∀ mode request (body : Work σ ε α) (d e : Coordinator G) (t : σ),
      (∀ fault, Coordinator.acquire mode request d = .error fault e →
        (scope mode request body).run refuse (d, t) = .error (.failed (refuse fault)) (e, t) ∧
          e.table = d.table) ∧
      (∀ guard, Coordinator.acquire mode request d = .ok guard e →
        ending ((scope mode request body).run refuse (d, t)) =
          ending (body.run refuse (e, t)))) := by
  obtain ⟨rfl, reachable, l, desc⟩ := h.describes
  have gained := w.gains refuse s reachable.sound desc
  have counts := gained.count desc
  refine ⟨counts, gained.since, fun nothing => ?_, fun mode request body d e t =>
    ⟨fun fault refused => ⟨?_, ?_⟩, fun guard entered => ?_⟩⟩
  · refine (reachable.sound.ext gained.sound (fun x o hold => ?_) fun x mem => ?_).symm
    · rw [counts, nothing, List.countP_nil, Nat.add_zero]
    · exact (gained.since x mem).symm
  · simp only [run, Program.withLock, Program.act, refused]
  · exact (Coordinator.alike_of_refused refused).table
  · exact ending_scope refuse body t entered

/-- Alice reads the tree of `a` while she writes `b` below it. Her first attempt to write crashes,
which she survives, and the lock of the second attempt she keeps. -/
def overhaul : Work Unit String Unit :=
  let write (body : Work Unit String Unit) : Work Unit String Unit :=
    .scope .write { owner := "alice", target := ⟨["b"], false⟩, autoUnlock := false } body
  .scope .read { owner := "alice", target := ⟨["a"], true⟩ }
    (.rescue (write (.own fun s => .error (.crashed "torn") s)) fun _ =>
      write (.own fun s => .ok () s))

/-- An object `a` above an object `b`. -/
def aOverB : Adjacency := ⟨.ofList [("a", ["b"]), ("b", [])]⟩

/-- Bob is reading `a`. -/
def bobReads : Coordinator Adjacency :=
  leaves (Coordinator.tryAcquire .read { owner := "bob", target := ⟨["a"], false⟩ }
    { graph := aOverB })

theorem overhaul_leaves_kept :
    bobReads.Steady aOverB ∧
      overhaul.kept LockError.message (bobReads, ()) = [⟨⟨["b"], false⟩, "alice", .write⟩] ∧
      (let after := (leaves (overhaul.run LockError.message (bobReads, ()))).1.table
      after.count "b" "alice" ⟨.write, .direct⟩ = 1 ∧
        after.count "b" "alice" ⟨.read, .tree "a"⟩ = 0 ∧
        after.count "a" "bob" ⟨.read, .direct⟩ = 1) := by
  have steady : bobReads.Steady aOverB := .tryAcquire (.start default 0) _ _
  have kept : overhaul.kept LockError.message (bobReads, ()) =
      [⟨⟨["b"], false⟩, "alice", .write⟩] := by cbv
  have counts := (leaves_kept steady LockError.message overhaul ()).1
  simp only [kept, List.countP_singleton] at counts
  refine ⟨steady, kept, ?_, ?_, ?_⟩
  · rw [counts]; cbv
  · rw [counts]; cbv
  · rw [counts]; cbv

end Work

end SceneLock
