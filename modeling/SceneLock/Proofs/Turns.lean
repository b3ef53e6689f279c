import SceneLock.Proofs.Ledger

/-!
Turns: clients ask the coordinator for something, or the graph changes, in any order. What the
coordinator has noted in its log makes no difference to them.
-/

namespace SceneLock

variable {G : Type} [ObjectGraph G]

/-- What clients ask for, and what becomes of the graph in between. -/
inductive Turn (G : Type)
  | call (call : Call)
  | reshape (graph : G)

namespace Coordinator

variable {c d : Coordinator G}

omit [ObjectGraph G] in
theorem Alike.note (alike : Alike c d) (entry : LogEntry) : Alike c (d.note entry) :=
  ⟨alike.graph, alike.table, alike.now⟩

theorem Alike.tryAcquire (alike : Alike c d) (mode : Mode) (request : Request) :
    Alike (leaves (Coordinator.tryAcquire mode request c))
      (leaves (Coordinator.tryAcquire mode request d)) := by
  obtain ⟨graph, table, now⟩ := alike
  unfold Coordinator.tryAcquire
  rw [graph]
  split
  · exact ⟨graph, table, now⟩
  · unfold Coordinator.takeClaims
    rw [table, now]
    split <;> exact ⟨graph, rfl, rfl⟩

theorem Alike.call (alike : Alike c d) (call : Call) : Alike (call.act c) (call.act d) := by
  cases call with
  | tryAcquire mode request => exact alike.tryAcquire mode request
  | release mode request =>
    obtain ⟨graph, table, now⟩ := alike
    refine ⟨graph, ?_, now⟩
    simp only [Call.act, Coordinator.release, table]
    rfl
  | releaseOwner owner =>
    obtain ⟨graph, table, now⟩ := alike
    simp only [Call.act, Coordinator.releaseOwner, table]
    split <;> exact ⟨graph, rfl, now⟩
  | wait now => exact ⟨alike.graph, alike.table, rfl⟩

end Coordinator

namespace Turn

def act (c : Coordinator G) : Turn G → Coordinator G
  | call k => k.act c
  | reshape graph => { c with graph }

def takeAll (turns : List (Turn G)) (c : Coordinator G) : Coordinator G := turns.foldl act c

theorem reachable_act {c : Coordinator G} (r : c.table.Reachable) (turn : Turn G) :
    (turn.act c).table.Reachable := by
  cases turn with
  | call k => exact (k.step c).table r
  | reshape graph => exact r

theorem reachable_takeAll {c : Coordinator G} (r : c.table.Reachable) (turns : List (Turn G)) :
    (takeAll turns c).table.Reachable := by
  induction turns generalizing c with
  | nil => exact r
  | cons turn rest ih => exact ih (reachable_act r turn)

theorem alike_takeAll {c d : Coordinator G} (alike : Coordinator.Alike c d)
    (turns : List (Turn G)) : Coordinator.Alike (takeAll turns c) (takeAll turns d) := by
  induction turns generalizing c d with
  | nil => exact alike
  | cons turn rest ih =>
    refine ih ?_
    cases turn with
    | call k => exact alike.call k
    | reshape graph => exact ⟨rfl, alike.table, alike.now⟩

end Turn

end SceneLock
