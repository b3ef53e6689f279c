import SceneLock.Config
import SceneLock.Event.Log
import SceneLock.Replay
import SceneLock.Scene.File
import SceneLock.Scene.Outline

/-!
Commands: what can be asked for on the command line, and what it does to files and output.
-/

namespace SceneLock

inductive Command
  /-- Shows which objects a lock on the subtree of `root` covers. -/
  | showTree (graph : String) (root : Id)
  | replay (graph script : String) (config events : Option String) (failFast : Bool)
  /-- Shows the settings in effect. -/
  | showConfig (path : Option String)
  deriving DecidableEq, Repr

namespace Command

/-- What a command leaves behind. It may print something before it fails. -/
structure Report where
  output : String := ""
  log : List LogEntry := []
  failure : Option LockError := none

namespace Report

def ofExcept (r : Except LockError String) : Report :=
  match r with
  | .ok output => { output }
  | .error e => { failure := e }

def exitCode (r : Report) : Nat := r.failure.elim 0 LockError.exitCode

/-- What is told besides the output: the log, as far as it is wanted, and the failure. -/
def complaints (r : Report) (verbosity : Nat) : List String :=
  (r.log.filter (·.level.verbosity ≤ verbosity)).map (fun e => s!"{e.level.text} {e.message}")
    ++ (r.failure.map (fun e => "Error: " ++ e.message)).toList

end Report

/-- Who runs a command: the first name that is set, at a host. -/
def localOwner (user userName : Option String) (host : String) : Owner :=
  (user.or userName).getD "unknown" ++ "@" ++ host

variable {m : Type → Type} [Monad m] [Host m]

def load {α : Type} (role : FileRole) (read : String → Except LockError α) (path : String) :
    m (Except LockError α) := do
  match ← Host.readText? path with
  | some text => return read text
  | none => return .error (.unreadable role path)

/-- The settings of a file, or the default ones. -/
def loadConfig : Option String → m (Except LockError Config)
  | some path => load .config Config.ofYaml path
  | none => return .ok {}

def printTree (graph : String) (root : Id) : m Report := do
  match ← load .graph Scene.ofYaml graph with
  | .error e => return { failure := e }
  | .ok scene => return .ofExcept (scene.outlineText root)

def printConfig (path : Option String) : m Report := do
  return .ofExcept ((← loadConfig path).map Config.toYaml)

/-- Waits as long as the step has paused in between, and then adds an event to the log, if there
is one. -/
def recorder (delay : Nat) (events : Option String) : Replay.Recorder m where
  now := return (← Host.now).seconds
  record entry := do
    Host.wait (delay * entry.pauses)
    match events with
    | none => return .ok ()
    | some path => EventLog.append path (entry.event (← Host.now))

def replayScript (owner : Owner) (config : Config) (scene : Scene) (script : List Script.Step)
    (events : Option String) (failFast : Bool) : m Report := do
  let policy := config.retryPolicy
  let run ←
    Replay.run (recorder policy.delay events) failFast owner script { graph := scene, policy }
  let log := run.entries.flatMap Replay.Entry.log
  match run.stop with
  | some e => return { output := Replay.stepLines run.entries, log, failure := e }
  | none =>
    let now := (← Host.now).seconds
    let summary := Replay.summary run.entries run.coordinator.locks now config.staleMinutes.toNat
    return { output := Replay.stepLines run.entries ++ summary, log }

/-- The files are read in this order, and the first one that cannot be used is reported. -/
def runReplay (owner : Owner) (graph script : String) (config events : Option String)
    (failFast : Bool) : m Report := do
  match ← loadConfig config with
  | .error e => return { failure := e }
  | .ok config =>
    match ← load .graph Scene.ofYaml graph with
    | .error e => return { failure := e }
    | .ok scene =>
      match ← load .script Script.ofYaml script with
      | .error e => return { failure := e }
      | .ok script => replayScript owner config scene script events failFast

def run (owner : Owner) : Command → m Report
  | showTree graph root => printTree graph root
  | replay graph script config events failFast =>
    runReplay owner graph script config events failFast
  | showConfig path => printConfig path

end Command

end SceneLock
