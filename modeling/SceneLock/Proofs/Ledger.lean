import SceneLock.Proofs.Runs
import SceneLock.Proofs.Targets

/-!
The lock table as a ledger. While the graph stays as it is, all that a run leaves in the table
follows from which requests were granted and which were given back.
-/

namespace SceneLock

open Std

/-- How often an owner was granted an id, as an object or as the root of a subtree, and has not
given it back since. -/
abbrev Ledger := Owner → Mode → (tree : Bool) → Id → Nat

namespace Ledger

def blank : Ledger := fun _ _ _ _ => 0

/-- Whether a request of this mode is about an entry. -/
def Names (mode : Mode) (request : Request) (o : Owner) (m : Mode) (tree : Bool) (id : Id) : Prop :=
  request.owner = o ∧ m = mode ∧ tree = request.target.tree ∧ id ∈ request.target.ids

instance {mode : Mode} {request : Request} {o : Owner} {m : Mode} {tree : Bool} {id : Id} :
    Decidable (Names mode request o m tree id) :=
  inferInstanceAs (Decidable (_ ∧ _))

def enter (l : Ledger) (mode : Mode) (request : Request) : Ledger := fun o m tree id =>
  l o m tree id + if Names mode request o m tree id then 1 else 0

def strike (l : Ledger) (mode : Mode) (request : Request) : Ledger := fun o m tree id =>
  l o m tree id - if Names mode request o m tree id then 1 else 0

def clear (l : Ledger) (owner : Owner) : Ledger := fun o m tree id =>
  if owner = o then 0 else l o m tree id

end Ledger

/-- What clients ask of the coordinator, and the time that passes in between. -/
inductive Call
  | tryAcquire (mode : Mode) (request : Request)
  | release (mode : Mode) (request : Request)
  | releaseOwner (owner : Owner)
  | wait (now : Instant)

variable {G : Type} [ObjectGraph G]

namespace Call

def act (c : Coordinator G) : Call → Coordinator G
  | tryAcquire mode request => leaves (Coordinator.tryAcquire mode request c)
  | release mode request => c.release mode request
  | releaseOwner owner => (c.releaseOwner owner).2
  | wait now => { c with now }

/-- An acquisition is entered only if the answer to it is yes. -/
def book (c : Coordinator G) (l : Ledger) : Call → Ledger
  | tryAcquire mode request =>
    match Coordinator.tryAcquire mode request c with
    | .ok true _ => l.enter mode request
    | _ => l
  | release mode request => l.strike mode request
  | releaseOwner owner => l.clear owner
  | wait _ => l

/-- Makes the calls one after the other, and keeps the ledger. -/
def makeAll (calls : List Call) (c : Coordinator G) (l : Ledger) : Coordinator G × Ledger :=
  calls.foldl (fun (c, l) call => (call.act c, call.book c l)) (c, l)

end Call

/-- The table holds what the ledger says: a claim is counted on the objects it reaches as often as
the id that it was made through. -/
structure Ledger.Describes (l : Ledger) (g : G) (t : Table) : Prop where
  reached : ∀ x o m claim, Claim.Reaches claim g x →
    t.count x o ⟨m, claim⟩ = l o m (claim.origin x).1 (claim.origin x).2
  beyond : ∀ x o m claim, ¬Claim.Reaches claim g x → t.count x o ⟨m, claim⟩ = 0

namespace Ledger.Describes

variable {l : Ledger} {g : G} {t : Table}

theorem blank : Ledger.blank.Describes g Table.empty where
  reached _ _ _ _ _ := rfl
  beyond _ _ _ _ _ := rfl

theorem granted (d : l.Describes g t) (s : t.Sound) {mode : Mode} {request : Request}
    {now : Instant} {claims : Claims} (made : Claims.ofTarget g request.target = .ok claims)
    (passed : t.stagedFault? claims request.owner mode now = none) :
    (l.enter mode request).Describes g (t.granted claims request.owner mode now) where
  reached x o m claim reaches := by
    rw [s.count_granted passed, d.reached x o m claim reaches]
    simp only [Claims.mem_ofTarget made, reaches, true_and]
    rfl
  beyond x o m claim outside := by
    rw [s.count_granted passed, d.beyond x o m claim outside]
    simp [Claims.mem_ofTarget made, outside]

theorem released (d : l.Describes g t) (s : t.Sound) (mode : Mode) (request : Request) :
    (l.strike mode request).Describes g
      (t.release request.target.ids request.owner mode request.target.tree).2 where
  reached x o m claim reaches := by
    rw [s.count_release, d.reached x o m claim reaches]
    rfl
  beyond x o m claim outside := by
    rw [s.count_release, d.beyond x o m claim outside, Nat.zero_sub]

theorem releasedOwner (d : l.Describes g t) (owner : Owner) :
    (l.clear owner).Describes g (t.releaseOwner owner).2 where
  reached x o m claim reaches := by
    rw [Table.count_releaseOwner, d.reached x o m claim reaches]
    rfl
  beyond x o m claim outside := by
    rw [Table.count_releaseOwner, d.beyond x o m claim outside, ite_self]

/-- No call comes between the table and the ledger. -/
theorem call {c : Coordinator G} (d : l.Describes c.graph c.table) (s : c.table.Sound)
    (call : Call) : (call.book c l).Describes c.graph (call.act c).table := by
  cases call with
  | tryAcquire mode request =>
    simp only [Call.act, Call.book]
    obtain ⟨claims, made, _, passed, e⟩ | ⟨_, e⟩ | ⟨_, e⟩ := c.tryAcquire_cases mode request
    · rw [e]; exact d.granted s made passed
    · rw [e]; exact d
    · rw [e]; exact d
  | release mode request => exact d.released s mode request
  | releaseOwner owner =>
    simp only [Call.act, Call.book, Coordinator.table_releaseOwner]
    exact d.releasedOwner owner
  | wait now => exact d

end Ledger.Describes

namespace Call

theorem step (call : Call) (c : Coordinator G) : Coordinator.Step c (call.act c) := by
  cases call with
  | tryAcquire mode request => exact .tryAcquire c mode request
  | release mode request => exact .release c mode request
  | releaseOwner owner => exact .releaseOwner c owner
  | wait now => exact .wait c now

theorem graph_act (c : Coordinator G) (call : Call) : (call.act c).graph = c.graph := by
  cases call with
  | tryAcquire mode request =>
    simp only [act]
    obtain ⟨_, _, _, _, e⟩ | ⟨_, e⟩ | ⟨_, e⟩ := c.tryAcquire_cases mode request
    all_goals rw [e]; rfl
  | release mode request => rfl
  | releaseOwner owner => exact c.graph_releaseOwner owner
  | wait now => rfl

theorem makeAll_describes (calls : List Call) {c : Coordinator G} {l : Ledger} {g : G}
    (graph : c.graph = g) (r : c.table.Reachable) (d : l.Describes g c.table) :
    (makeAll calls c l).1.table.Reachable ∧
      (makeAll calls c l).2.Describes g (makeAll calls c l).1.table := by
  induction calls generalizing c l with
  | nil => exact ⟨r, d⟩
  | cons call rest ih =>
    subst graph
    exact ih (graph_act c call) ((call.step c).table r) (d.call r.sound call)

end Call

/-- After any calls over a graph, every count in the table is the entry of the ledger that it
belongs to, on all objects below a locked root alike, and exactly the objects with a count have a
record, which lists exactly the owners with a count. -/
theorem Ledger.refines (graph : G) (policy : RetryPolicy) (now : Instant) (calls : List Call) :
    let reached := Call.makeAll calls { graph, policy, now } Ledger.blank
    let t := reached.1.table
    let l := reached.2
    (∀ x o m, t.count x o ⟨m, .direct⟩ = l o m false x) ∧
    (∀ x o m r, t.count x o ⟨m, .tree r⟩ =
      if x ∈ ObjectGraph.subtree graph r then l o m true r else 0) ∧
    (∀ x, x ∈ t.records ↔ ∃ o hold, 0 < t.count x o hold) ∧
    (∀ x o, (∃ record, t.records[x]? = some record ∧ o ∈ record.holders) ↔
      ∃ hold, 0 < t.count x o hold) ∧
    (∀ o m r, (∀ x ∈ ObjectGraph.subtree graph r, 0 < t.count x o ⟨m, .tree r⟩) ∨
      ∀ x, t.count x o ⟨m, .tree r⟩ = 0) := by
  intro reached t l
  obtain ⟨reachable, describes⟩ : t.Reachable ∧ l.Describes graph t :=
    Call.makeAll_describes calls rfl .empty .blank
  have direct (x : Id) (o : Owner) (m : Mode) : t.count x o ⟨m, .direct⟩ = l o m false x :=
    describes.reached x o m .direct trivial
  have tree (x : Id) (o : Owner) (m : Mode) (r : Id) : t.count x o ⟨m, .tree r⟩ =
      if x ∈ ObjectGraph.subtree graph r then l o m true r else 0 := by
    split
    · next inside => exact describes.reached x o m (.tree r) inside
    · next outside => exact describes.beyond x o m (.tree r) outside
  refine ⟨direct, tree, fun x => reachable.sound.mem_records_iff,
    fun x o => reachable.sound.holder_iff, fun o m r => ?_⟩
  simp only [tree]
  by_cases entered : l o m true r = 0
  · exact .inr fun x => by rw [entered, ite_self]
  · refine .inl fun x inside => ?_
    rw [if_pos inside]
    omega

end SceneLock
