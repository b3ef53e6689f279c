import SceneLock.Proofs.Attempts
import SceneLock.Proofs.Soundness
import SceneLock.Scope

/-!
Runs: what clients can do to a table and to a coordinator, one step at a time and in any order.
-/

namespace SceneLock

open Std

namespace Table

/-- One operation on the table, on behalf of an owner. -/
inductive Step : Owner → Table → Table → Prop
  | acquire {t : Table} {owner : Owner} (claims : Claims) (mode : Mode) (now : Instant) :
      Step owner t (leaves (t.tryAcquire claims owner mode now))
  | release {t : Table} {owner : Owner} (ids : List Id) (mode : Mode) (tree : Bool) :
      Step owner t (t.release ids owner mode tree).2
  | releaseOwner {t : Table} {owner : Owner} : Step owner t (t.releaseOwner owner).2

inductive Reachable : Table → Prop
  | empty : Reachable empty
  | next {t u : Table} {owner : Owner} : Reachable t → Step owner t u → Reachable u

theorem Step.sound {t u : Table} {owner : Owner} (h : Step owner t u) (s : t.Sound) : u.Sound := by
  cases h with
  | acquire claims mode now =>
    obtain ⟨_, _, e⟩ | ⟨_, _, _, e⟩ | ⟨_, passed, e⟩ := t.tryAcquire_cases claims owner mode now
    · rw [e]; exact s
    · rw [e]; exact s
    · rw [e]; exact s.granted passed
  | release ids mode tree => exact s.release ids owner mode tree
  | releaseOwner => exact s.releaseOwner owner

theorem Reachable.sound {t : Table} (h : Reachable t) : t.Sound := by
  induction h with
  | empty => exact sound_empty
  | next _ step ih => exact step.sound ih

end Table

namespace Coordinator

variable {G : Type}

theorem table_takeClaims (c : Coordinator G) (claims : Claims) (owner : Owner) (mode : Mode) :
    (leaves (Coordinator.takeClaims claims owner mode c)).table =
      leaves (c.table.tryAcquire claims owner mode c.now) := by
  unfold Coordinator.takeClaims
  obtain ⟨_, _, e⟩ | ⟨_, _, _, e⟩ | ⟨_, _, e⟩ := c.table.tryAcquire_cases claims owner mode c.now
  all_goals rw [e]; rfl

theorem table_releaseOwner (c : Coordinator G) (owner : Owner) :
    (c.releaseOwner owner).2.table = (c.table.releaseOwner owner).2 := by
  simp only [Coordinator.releaseOwner]
  split <;> rfl

theorem graph_releaseOwner (c : Coordinator G) (owner : Owner) :
    (c.releaseOwner owner).2.graph = c.graph := by
  simp only [Coordinator.releaseOwner]
  split <;> rfl

theorem reachable_takeClaims {c : Coordinator G} (h : c.table.Reachable) (claims : Claims)
    (owner : Owner) (mode : Mode) :
    (leaves (Coordinator.takeClaims claims owner mode c)).table.Reachable := by
  rw [table_takeClaims]
  exact h.next (.acquire claims mode c.now)

variable [ObjectGraph G]

/-- One thing that a client does to the coordinator, straight to its table, or to its graph. -/
inductive Step : Coordinator G → Coordinator G → Prop
  | takeClaims (c : Coordinator G) (claims : Claims) (owner : Owner) (mode : Mode) :
      Step c (leaves (takeClaims claims owner mode c))
  | releaseClaims (c : Coordinator G) (ids : List Id) (owner : Owner) (mode : Mode) (tree : Bool) :
      Step c { c with table := (c.table.release ids owner mode tree).2 }
  | tryAcquire (c : Coordinator G) (mode : Mode) (request : Request) :
      Step c (leaves (tryAcquire mode request c))
  /-- While it waits, others do to the coordinator what they may. -/
  | acquire (c : Coordinator G) (meanwhile : Nat → Coordinator G → Coordinator G)
      (others : ∀ n d, d.table.Reachable → (meanwhile n d).table.Reachable) (mode : Mode)
      (request : Request) : Step c (leaves (acquireAmid meanwhile mode request c))
  | release (c : Coordinator G) (mode : Mode) (request : Request) : Step c (c.release mode request)
  | releaseGuard (c : Coordinator G) (guard : Guard) : Step c (guard.release c)
  | keepGuard (c : Coordinator G) (guard : Guard) : Step c (guard.keep c)
  | releaseOwner (c : Coordinator G) (owner : Owner) : Step c (c.releaseOwner owner).2
  | changeGraph (c : Coordinator G) (graph : G) : Step c { c with graph }
  | wait (c : Coordinator G) (now : Instant) : Step c { c with now }

inductive Reachable : Coordinator G → Prop
  | start (graph : G) (policy : RetryPolicy) (now : Instant) : Reachable { graph, policy, now }
  | next {c d : Coordinator G} : Reachable c → Step c d → Reachable d

theorem reachable_tryAcquire {c : Coordinator G} (h : c.table.Reachable) (mode : Mode)
    (request : Request) : (leaves (Coordinator.tryAcquire mode request c)).table.Reachable := by
  unfold Coordinator.tryAcquire
  split
  · exact h
  · exact reachable_takeClaims h _ _ _

theorem reachable_acquireAmid {c : Coordinator G} (h : c.table.Reachable)
    {meanwhile : Nat → Coordinator G → Coordinator G}
    (others : ∀ n d, d.table.Reachable → (meanwhile n d).table.Reachable) (mode : Mode)
    (request : Request) :
    (leaves (Coordinator.acquireAmid meanwhile mode request c)).table.Reachable := by
  obtain ⟨d, t, n, kept, made, e⟩ | ⟨e, d, kept, ended⟩ :=
    acquireAmid_cases (P := fun d => d.table.Reachable) h others (fun _ _ kept => kept) mode request
  · have granted := reachable_tryAcquire kept mode request
    rw [made] at granted
    rw [e]
    exact granted
  · rw [ended]
    exact kept

theorem Step.table {c d : Coordinator G} (h : Step c d) (r : c.table.Reachable) :
    d.table.Reachable := by
  cases h with
  | takeClaims claims owner mode => exact reachable_takeClaims r claims owner mode
  | releaseClaims ids owner mode tree => exact r.next (.release ids mode tree)
  | tryAcquire mode request => exact reachable_tryAcquire r mode request
  | acquire meanwhile others mode request => exact reachable_acquireAmid r others mode request
  | release mode request => exact r.next (.release _ mode _)
  | releaseGuard guard => exact r.next (.release _ guard.mode _)
  | keepGuard => exact r
  | releaseOwner owner =>
    rw [table_releaseOwner]
    exact r.next .releaseOwner
  | changeGraph => exact r
  | wait => exact r

theorem Reachable.table {c : Coordinator G} (h : Reachable c) : c.table.Reachable := by
  induction h with
  | start => exact .empty
  | next _ step ih => exact step.table ih

theorem Reachable.settle {c : Coordinator G} (h : Reachable c) (guard : Guard) (releases : Bool) :
    Reachable (guard.settle releases c) := by
  unfold Guard.settle
  split
  · exact h.next (.releaseGuard c guard)
  · exact h.next (.keepGuard c guard)

/-- A scope is a run too: its acquisition, what its body does, and the end of its guard. -/
theorem Reachable.withLock {σ ε α : Type} {refuse : LockError → ε} {mode : Mode}
    {request : Request} {body : Program G σ ε α}
    (steps : ∀ p, Reachable p.1 → Reachable (leaves (body p)).1) (start : Coordinator G × σ)
    (h : Reachable start.1) :
    Reachable (leaves (Program.withLock refuse mode request body start)).1 := by
  obtain ⟨c, s⟩ := start
  have acquired := h.next (.acquire c (fun _ d => d) (fun _ _ r => r) mode request)
  cases taken : Coordinator.acquire mode request c with
  | error e d =>
    rw [← Coordinator.acquire, taken] at acquired
    simp only [Program.withLock, Program.act, taken]
    exact acquired
  | ok guard d =>
    rw [← Coordinator.acquire, taken] at acquired
    have ran := steps (d, s) acquired
    simp only [Program.withLock, Program.act, taken]
    cases ended : body (d, s) with
    | ok a p =>
      rw [ended] at ran
      exact Reachable.settle ran guard _
    | error abort p =>
      rw [ended] at ran
      cases abort with
      | failed e => exact Reachable.settle ran guard _
      | crashed text => exact Reachable.next ran (.releaseGuard _ guard)

end Coordinator

end SceneLock
