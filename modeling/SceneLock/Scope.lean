import SceneLock.Coordinator

/-!
Work under a lock. A program runs against a coordinator and some state of its own; it may fail, or
it may crash, and a crash passes through every scope up to whoever catches it. A scope locks before
its body runs and, however the body ends, decides about the lock afterwards.
-/

namespace SceneLock

/-- How a program can end other than with a value. -/
inductive Abort (ε : Type)
  | failed (error : ε)
  | crashed (text : String)

abbrev Program (G σ ε α : Type) := EStateM (Abort ε) (Coordinator G × σ) α

namespace Program

variable {G σ ε α : Type}

/-- An operation of the coordinator, as a program. -/
def act (refuse : LockError → ε) (action : Action G α) : Program G σ ε α := fun (c, s) =>
  match action c with
  | .ok a c => .ok a (c, s)
  | .error e c => .error (.failed (refuse e)) (c, s)

/-- Runs the body under a lock. A crash gives the lock back, whatever the request says. -/
def withLock [ObjectGraph G] (refuse : LockError → ε) (mode : Mode) (request : Request)
    (body : Program G σ ε α) : Program G σ ε α := fun start =>
  match act refuse (Coordinator.acquire mode request) start with
  | .error e state => .error e state
  | .ok guard state =>
    match body state with
    | .ok a (c, s) => .ok a (guard.settle (request.releasesAfter true) c, s)
    | .error (.failed e) (c, s) =>
      .error (.failed e) (guard.settle (request.releasesAfter false) c, s)
    | .error (.crashed text) (c, s) => .error (.crashed text) (guard.release c, s)

end Program

end SceneLock
