import SceneLock.Event
import SceneLock.Script

/-!
Replays: a script is run step by step against one coordinator. A step that fails is told like any
other, and the next one follows, unless the replay is to end with the first failure.
-/

namespace SceneLock

namespace Script

/-- What a step was good for. -/
inductive Outcome
  | locked
  | released
  | holds (mode : Mode)
  | free (ids : List Id)
  | evicted (locks : Nat)
  deriving DecidableEq, Repr

def Outcome.text : Outcome → String
  | locked => "locked"
  | released => "released"
  | holds mode => mode.text ++ " locked"
  | free ids => "free: " ++ ", ".intercalate ids
  | evicted locks => s!"released {locks} locks"

namespace Step

variable {G : Type} [ObjectGraph G]

def request (s : Step) (owner : Owner) : Request := { owner, target := ⟨s.ids, s.tree⟩ }

/-- The first object that the owner does not hold is reported. -/
def checkAll (c : Coordinator G) (mode : Mode) (owner : Owner) (tree : Bool) :
    List Id → Except LockError Unit
  | [] => .ok ()
  | id :: ids =>
    match c.assertLocked mode id owner tree with
    | .error e => .error e
    | .ok () => checkAll c mode owner tree ids

/-- Performs a step for an owner. Locks that it takes are kept until they are given back by another
step. -/
def perform (s : Step) (owner : Owner) (c : Coordinator G) :
    Except LockError Outcome × Coordinator G :=
  if s.ids.isEmpty ∧ s.action ≠ .releaseOwner then (.error .emptyRequest, c)
  else
    match s.action with
    | .lock mode =>
      match Coordinator.acquire mode (s.request owner) c with
      | .ok guard c => (.ok .locked, guard.keep c)
      | .error e c => (.error e, c)
    | .unlock mode => (.ok .released, c.release mode (s.request owner))
    | .check mode => ((checkAll c mode owner s.tree s.ids).map fun _ => .holds mode, c)
    | .unlocked => (.ok (.free (c.notWriteLocked s.ids owner)), c)
    | .releaseOwner =>
      let (locks, c) := c.releaseOwner owner
      (.ok (.evicted locks), c)

end Step

end Script

namespace Replay

/-- What became of a step. -/
structure Entry where
  step : Script.Step
  owner : Owner
  result : Except LockError Script.Outcome
  /-- What the coordinator noted meanwhile. -/
  log : List LogEntry

namespace Entry

def eventAction (e : Entry) : Event.Action :=
  match e.step.action, e.result with
  | .lock _, .ok _ => .acquire
  | .lock _, .error _ => .acquireFailed
  | .unlock _, _ => .release
  | .check _, _ => .assert
  | .unlocked, _ => .query
  | .releaseOwner, _ => .releaseOwner

def details (e : Entry) : Json :=
  match e.result with
  | .ok outcome => .ofFields [("ok", .bool true), ("outcome", .text outcome.text)]
  | .error e =>
    .ofFields [("ok", .bool false), ("error", .text e.message), ("exit_code", .int e.exitCode)]

def event (e : Entry) (time : Timestamp) : Event where
  time := time
  action := e.eventAction
  owner := e.owner
  ids := e.step.ids
  mode := e.step.action.mode?
  tree := e.step.tree
  details := e.details

/-- A number with blanks in front up to a width of three. -/
def numberText (n : Nat) : String :=
  let digits := toString n
  String.ofList (List.replicate (3 - digits.length) ' ') ++ digits

def resultText (e : Entry) : String :=
  match e.result with
  | .ok outcome => outcome.text
  | .error e => "FAILED: " ++ e.message

def line (n : Nat) (e : Entry) : String :=
  let ids := ", ".intercalate e.step.ids
  let target := if e.step.tree then s!"tree [{ids}]" else s!"[{ids}]"
  s!"{numberText n}. {e.owner} {e.step.action.text} {target}: {e.resultText}\n"

def succeeded (e : Entry) : Bool := e.result.isOk

/-- How often the step paused before it tried again. -/
def pauses (e : Entry) : Nat :=
  e.log.countP fun
    | .retrying _ => true
    | _ => false

end Entry

section

variable {G : Type} [ObjectGraph G]

/-- Performs a step, with a log of its own. -/
def play (defaultOwner : Owner) (step : Script.Step) (c : Coordinator G) : Entry × Coordinator G :=
  let owner := step.owner.getD defaultOwner
  let (result, c) := step.perform owner { c with log := [] }
  (⟨step, owner, result, c.log.reverse⟩, c)

/-- What a replay needs from outside. -/
structure Recorder (m : Type → Type) where
  /-- The time at which a step begins. -/
  now : m Instant
  /-- Keeps what became of a step. If that is not possible, the replay ends. -/
  record : Entry → m (Except LockError Unit)

structure Run (G : Type) where
  /-- What became of the steps, in order, except for one that could not be recorded. -/
  entries : List Entry
  coordinator : Coordinator G
  /-- Why the replay ended before the script did, or with a failure of its last step. -/
  stop : Option LockError

/-- Runs the steps of a script in order. -/
def run {m : Type → Type} [Monad m] (recorder : Recorder m) (failFast : Bool)
    (defaultOwner : Owner) : List Script.Step → Coordinator G → m (Run G)
  | [], c => return ⟨[], c, none⟩
  | step :: steps, c => do
    let now ← recorder.now
    let (entry, c) := play defaultOwner step { c with now }
    match ← recorder.record entry with
    | .error e => return ⟨[], c, some e⟩
    | .ok () =>
      match entry.result, failFast with
      | .error e, true => return ⟨[entry], c, some e⟩
      | _, _ =>
        let rest ← run recorder failFast defaultOwner steps c
        return { rest with entries := entry :: rest.entries }

end

/-- One line for each step, numbered from one. -/
def stepLines (entries : List Entry) : String :=
  String.join ((entries.zipIdx 1).map fun (e, n) => e.line n)

def lockLine (now : Instant) (staleMinutes : Nat) (l : LockInfo) : String :=
  let mark := if l.isStale now staleMinutes then ", STALE" else ""
  s!"  {l.text now}{mark}\n"

/-- How many steps succeeded, and which locks are left. -/
def summary (entries : List Entry) (locks : List LockInfo) (now : Instant) (staleMinutes : Nat) :
    String :=
  let succeeded := entries.countP Entry.succeeded
  s!"\n{succeeded} steps succeeded, {entries.length - succeeded} failed.\n" ++
    if locks.isEmpty then "No active locks.\n"
    else s!"Active locks ({locks.length}):\n" ++ String.join (locks.map (lockLine now staleMinutes))

end Replay

end SceneLock
