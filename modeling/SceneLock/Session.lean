import SceneLock.Scope
import SceneLock.Scene.Edit
import SceneLock.Json.Value

/-!
Sessions: clients take turns at one coordinator, step by step, with scopes inside each other, named
guards that stay open from one step to the next, and a report on every step.
-/

namespace SceneLock

open Std

/-- The graphs a session can run over. Only a scene can be edited. -/
inductive Ground
  | scene (s : Scene)
  | adjacency (g : Adjacency)

namespace Ground

def contains : Ground → Id → Bool
  | scene s, id => ObjectGraph.contains s id
  | adjacency g, id => ObjectGraph.contains g id

def childrenOf : Ground → Id → List Id
  | scene s, id => ObjectGraph.childrenOf s id
  | adjacency g, id => ObjectGraph.childrenOf g id

def branching : Ground → List Id
  | scene s => ObjectGraph.branching s
  | adjacency g => ObjectGraph.branching g

instance : ObjectGraph Ground where
  contains := contains
  childrenOf := childrenOf
  branching := branching
  mem_branching {g id} h := by
    cases g with
    | scene s => exact ObjectGraph.mem_branching (g := s) h
    | adjacency g => exact ObjectGraph.mem_branching (g := g) h

end Ground

namespace Session

/-- How the body of a scope ends when its steps are done. -/
inductive Ending
  | value (v : Json)
  | error (text : String)
  | crash (text : String)

structure ScopeSpec where
  mode : Mode
  request : Request
  /-- End the body with the error of the first step that is refused. -/
  stop : Bool
  ending : Ending
  /-- Whether a crash of the body ends here. -/
  catches : Bool

inductive Step
  | tryAcquire (mode : Mode) (request : Request)
  | acquire (mode : Mode) (request : Request) (guard : Option String)
  | guardInfo (guard : String)
  | guardRelease (guard : String)
  | guardDrop (guard : String)
  | guardKeep (guard : String)
  | release (mode : Mode) (request : Request)
  | releaseOwner (owner : Owner)
  | isLocked (mode : Mode) (id : Id) (owner : Owner) (tree : Bool)
  | assertLocked (mode : Mode) (id : Id) (owner : Owner) (tree : Bool)
  | notWriteLocked (ids : List Id) (owner : Owner)
  | locks
  | owners
  | stale (minutes : Nat)
  | tableSize
  | tableAcquire (claims : Claims) (owner : Owner) (mode : Mode)
  | tableRelease (ids : List Id) (owner : Owner) (mode : Mode) (tree : Bool)
  | claims (target : Target)
  | subtree (id : Id)
  | policy
  | edit (step : Scene.Step)
  /-- A client crashes while it looks at the graph or the table, which are as before. -/
  | crashedReader
  /-- Attempts an acquisition; each attempt is preceded by the steps with its number. -/
  | retry (what : String) (mode : Mode) (request : Request) (stop : Bool)
      (before : List (Nat × Step))
  | scope (spec : ScopeSpec) (body : List Step)

/-- What is told of how a scope ended. -/
inductive ScopeEnd
  | value (v : Json)
  | refused (e : LockError)
  | failed (text : String)
  | crashed (text : String)

mutual

inductive Answer
  | flag (b : Bool)
  | nothing
  | count (n : Nat)
  | kept (target : Target)
  | guarded
  | guard (g : Guard)
  | released
  | dropped
  | locks (locks : List LockInfo)
  | owners (owners : List (Id × List Owner))
  | size (size : Nat) (isEmpty : Bool)
  | claims (claims : List (Id × List Claim))
  | ids (ids : List Id)
  | policy (p : RetryPolicy)
  | edited (a : Scene.Answer)
  | retried (result : Except LockError Nat) (calls : List Nat) (before : List Report)
  | scope (body : List Report) (ending : ScopeEnd)
  | crashed (text : String)

inductive Report
  | mk (answer : Except LockError Answer) (locks : List LockInfo) (log : Option (List LogEntry))

end

def Report.answer : Report → Except LockError Answer
  | .mk answer _ _ => answer

/-- What the clients of a session have in their hands. -/
structure Desk where
  guards : ExtTreeMap String Guard := ∅
  /-- Reports on the steps of the innermost scope or attempt, the latest first. -/
  reports : List Report := []
  /-- The numbers of the attempts made, the latest first. -/
  calls : List Nat := []

/-- Why the body of a scope fails. -/
inductive BodyError
  | refused (e : LockError)
  | foreign (text : String)

abbrev Play (ε α : Type) := Program Ground Desk ε α

variable {ε α : Type}

def act (action : Action Ground α) : Play LockError α := Program.act id action

def look (f : Coordinator Ground → α) : Play ε α := fun (c, d) => .ok (f c) (c, d)

def change (f : Coordinator Ground → α × Coordinator Ground) : Play ε α := fun (c, d) =>
  let (a, c) := f c
  .ok a (c, d)

def refuse (e : ε) : Play ε α := fun state => .error (.failed e) state

def ofExcept (r : Except ε α) : Play ε α := fun state =>
  match r with
  | .ok a => .ok a state
  | .error e => .error (.failed e) state

/-- Takes a guard off the desk. -/
def takeGuard (name : String) : Play ε (Option Guard) := fun (c, d) =>
  .ok d.guards[name]? (c, { d with guards := d.guards.erase name })

/-- Puts a guard on the desk. One that has lain there under the same name is dropped. -/
def putGuard (name : String) (g : Guard) : Play ε Unit := fun (c, d) =>
  let c := match d.guards[name]? with
    | some old => old.release c
    | none => c
  .ok () (c, { d with guards := d.guards.insert name g })

/-- Performs a step and reports on it. What it notes in the log goes into its own report; a refusal
is an answer like others, but a crash is not reported here. -/
def report (step : Play LockError Answer) : Play ε Report := fun (c, d) =>
  let close (answer : Except LockError Answer) (c' : Coordinator Ground) (d' : Desk) :=
    let r := Report.mk answer c'.locks (some c'.log.reverse)
    EStateM.Result.ok r ({ c' with log := c.log }, { d' with reports := r :: d'.reports })
  match step ({ c with log := [] }, d) with
  | .ok a (c', d') => close (.ok a) c' d'
  | .error (.failed e) (c', d') => close (.error e) c' d'
  | .error (.crashed text) (c', d') => .error (.crashed text) ({ c' with log := c.log }, d')

/-- Runs a program with no reports and calls of its own yet, and returns its result with those it
has made. A crash passes on. -/
def collect (program : Play ε α) : Play LockError (Except ε α × List Report × List Nat) :=
  fun (c, d) =>
  match program (c, { d with reports := [], calls := [] }) with
  | .ok a (c, d') =>
    .ok (.ok a, d'.reports.reverse, d'.calls.reverse)
      (c, { d' with reports := d.reports, calls := d.calls })
  | .error (.failed e) (c, d') =>
    .ok (.error e, d'.reports.reverse, d'.calls.reverse)
      (c, { d' with reports := d.reports, calls := d.calls })
  | .error (.crashed text) (c, d') =>
    .error (.crashed text) (c, { d' with reports := d.reports, calls := d.calls })

/-- Like `collect`, but a crash is told like any other end. -/
def collectScope (program : Play BodyError Json) : Play LockError (List Report × ScopeEnd) :=
  fun (c, d) =>
  let close (ending : ScopeEnd) (c : Coordinator Ground) (d' : Desk) :=
    EStateM.Result.ok (d'.reports.reverse, ending)
      (c, { d' with reports := d.reports, calls := d.calls })
  match program (c, { d with reports := [], calls := [] }) with
  | .ok v (c, d') => close (.value v) c d'
  | .error (.failed (.refused e)) (c, d') => close (.refused e) c d'
  | .error (.failed (.foreign text)) (c, d') => close (.failed text) c d'
  | .error (.crashed text) (c, d') => close (.crashed text) c d'

def noteCall (n : Nat) : Play ε Unit := fun (c, d) => .ok () (c, { d with calls := n :: d.calls })

def noteRetry (n : Nat) : Play ε Unit := change fun c => ((), c.note (.retrying n))

def ofEnding : Ending → Play BodyError Json
  | .value v => pure v
  | .error text => refuse (.foreign text)
  | .crash text => fun state => .error (.crashed text) state

def edit (step : Scene.Step) : Play LockError Answer := fun (c, d) =>
  match c.graph with
  | .adjacency _ => .ok .nothing (c, d)
  | .scene s =>
    match step.act s with
    | .ok a s => .ok (.edited a) ({ c with graph := .scene s }, d)
    | .error e s => .error (.failed e) ({ c with graph := .scene s }, d)

def claimLists (claims : Claims) : List (Id × List Claim) :=
  claims.toList.map fun (id, claims) => (id, claims.toList)

mutual

def Step.play : Step → Play LockError Answer
  | .tryAcquire mode request => return .flag (← act (Coordinator.tryAcquire mode request))
  | .acquire mode request none => do
    let g ← act (Coordinator.acquire mode request)
    change fun c => (.kept g.target, g.keep c)
  | .acquire mode request (some name) => do
    putGuard name (← act (Coordinator.acquire mode request))
    return .guarded
  | .guardInfo name => fun (c, d) =>
    .ok ((d.guards[name]?).elim .nothing .guard) (c, d)
  | .guardRelease name => do
    match ← takeGuard name with
    | some g => change fun c => (.released, g.release c)
    | none => return .nothing
  | .guardDrop name => do
    match ← takeGuard name with
    | some g => change fun c => (.dropped, g.release c)
    | none => return .nothing
  | .guardKeep name => do
    match ← takeGuard name with
    | some g => change fun c => (.kept g.target, g.keep c)
    | none => return .nothing
  | .release mode request => change fun c => (.nothing, c.release mode request)
  | .releaseOwner owner => change fun c =>
    let (n, c) := c.releaseOwner owner
    (.count n, c)
  | .isLocked mode id owner tree => look fun c => .flag (c.isLocked mode id owner tree)
  | .assertLocked mode id owner tree => do
    ofExcept (← look fun c => c.assertLocked mode id owner tree)
    return .flag true
  | .notWriteLocked ids owner => look fun c => .ids (c.notWriteLocked ids owner)
  | .locks => look fun c => .locks c.locks
  | .owners => look fun c => .owners (c.locks.map fun l => (l.id, l.owners))
  | .stale minutes => look fun c => .locks (c.staleLocks minutes)
  | .tableSize => look fun c => .size c.table.size c.table.isEmpty
  | .tableAcquire claims owner mode =>
    return .flag (← act (Coordinator.takeClaims claims owner mode))
  | .tableRelease ids owner mode tree => change fun c =>
    let (n, table) := c.table.release ids owner mode tree
    (.count n, { c with table })
  | .claims target => do
    let claims ← ofExcept (← look fun c => Claims.ofTarget c.graph target)
    return .claims (claimLists claims)
  | .subtree id => look fun c => .ids (ObjectGraph.subtree c.graph id)
  | .policy => look fun c => .policy c.policy
  | .edit step => edit step
  | .crashedReader => return .nothing
  | .retry what mode request stop before => do
    let attempt (n : Nat) : Play LockError Bool := do
      noteCall n
      playBefore stop n before
      act (Coordinator.tryAcquire mode request)
    let policy ← look (·.policy)
    let (result, reports, calls) ←
      collect (SceneLock.retry policy what Abort.failed attempt noteRetry)
    return .retried result calls reports
  | .scope spec body => do
    let program := Program.withLock BodyError.refused spec.mode spec.request do
      playBody spec.stop body
      ofEnding spec.ending
    let (reports, ending) ← collectScope program
    match ending, spec.catches with
    | .crashed text, false => fun state => .error (.crashed text) state
    | _, _ => return .scope reports ending

/-- Performs the steps that come before an attempt. -/
def playBefore (stop : Bool) (n : Nat) : List (Nat × Step) → Play LockError Unit
  | [] => pure ()
  | (k, step) :: before => do
    if k = n then
      let r ← report step.play
      match r.answer, stop with
      | .error e, true => refuse e
      | _, _ => pure ()
    playBefore stop n before

/-- Performs the steps of a scope. -/
def playBody (stop : Bool) : List Step → Play BodyError Unit
  | [] => pure ()
  | step :: steps => do
    let r ← report step.play
    match r.answer, stop with
    | .error e, true => refuse (.refused e)
    | _, _ => playBody stop steps

end

/-- Performs a step outside of all scopes. A crash that nobody has caught ends here. -/
def perform (state : Coordinator Ground × Desk) (step : Step) :
    Report × Coordinator Ground × Desk :=
  match report (ε := LockError) step.play state with
  | .ok r (c, d) => (r, c, { d with reports := [] })
  | .error (.crashed text) (c, d) =>
    (.mk (.ok (.crashed text)) c.locks none, c, { d with reports := [] })
  | .error (.failed e) (c, d) => (.mk (.error e) c.locks none, c, { d with reports := [] })

/-- Drops the guards that are still open, in order of their names. -/
def dropGuards (state : Coordinator Ground × Desk) : Coordinator Ground :=
  state.2.guards.toList.foldl (fun c (_, g) => g.release c) state.1

/-- The reports on the steps, and the locks that are left when all guards are dropped. -/
def run (c : Coordinator Ground) (steps : List Step) : List Report × List LockInfo :=
  let (reports, state) := steps.foldl (fun (reports, state) step =>
    let (r, state) := perform state step
    (r :: reports, state)) ([], (c, {}))
  (reports.reverse, (dropGuards state).locks)

end Session

end SceneLock
