import Mathlib
import SceneLock.Command
import SceneLock.Proofs.Dates
import SceneLock.Proofs.Interference
import SceneLock.Proofs.LogFiles

/-!
The audit log of a replay. Each step that is performed leaves one event, and doing again what the
events tell of leads to the locks that the replay has led to.
-/

namespace SceneLock

open Std

variable {G : Type} [ObjectGraph G]

namespace Event

def request (e : Event) : Request := { owner := e.owner, target := ⟨e.ids, e.tree⟩ }

/-- Does again what an event tells of. That goes wrong if an acquisition is not granted again, or if
the event does not mention the mode. -/
def redo (e : Event) (c : Coordinator G) : Option (Coordinator G) :=
  match e.action, e.mode with
  | .acquire, some mode =>
    match Coordinator.tryAcquire mode e.request c with
    | .ok true d => some d
    | _ => none
  | .release, some mode => some (c.release mode e.request)
  | .acquire, none | .release, none => none
  | .releaseOwner, _ => some (c.releaseOwner e.owner).2
  | .acquireFailed, _ | .assert, _ | .query, _ => some c

/-- Does again what a log tells of, each event at a moment of its own. -/
def redoAll (dated : List (Event × Instant)) (c : Coordinator G) : Option (Coordinator G) :=
  dated.foldlM (fun c (e, now) => e.redo { c with now }) c

variable {e : Event} {c d c' : Coordinator G}

theorem redoAll_cons (e : Event) (now : Instant) (rest : List (Event × Instant))
    (c : Coordinator G) :
    redoAll ((e, now) :: rest) c = (e.redo { c with now }).bind (redoAll rest) := rfl

open Coordinator in
theorem reachable_redo (r : c.table.Reachable) (done : e.redo c = some d) : d.table.Reachable := by
  unfold redo at done
  split at done
  · next mode _ _ =>
    have attempt := reachable_tryAcquire r mode e.request
    split at done
    · next made =>
      cases done
      rwa [made] at attempt
    · cases done
  · cases done
    exact r.next (.release _ _ _)
  · cases done
  · cases done
  · cases done
    rw [table_releaseOwner]
    exact r.next .releaseOwner
  · cases done
    exact r
  · cases done
    exact r
  · cases done
    exact r

open Coordinator in
/-- Since when the objects are locked, and what time it is, makes no difference to what can be done
again. -/
theorem redo_congr (graph : d.graph = c.graph) (same : c.table.SameHolders d.table)
    (done : e.redo c = some c') :
    ∃ d', e.redo d = some d' ∧ d'.graph = c'.graph ∧ c'.table.SameHolders d'.table := by
  unfold redo at done ⊢
  split at done
  · next mode _ _ =>
    split at done
    · next made =>
      cases done
      obtain ⟨⟨claims, resolved, granted⟩, e⟩ := grants_of_tryAcquire made
      obtain ⟨t, granted, kept⟩ := same.tryAcquire granted
      have grants : d.Grants mode _ t := ⟨claims, graph ▸ resolved, granted⟩
      refine ⟨{ d with table := t }, by simp only [grants.tryAcquire_eq], ?_, kept⟩
      exact graph.trans (congrArg Coordinator.graph e).symm
    · cases done
  · cases done
    exact ⟨_, rfl, graph, same.release _ _ _ _⟩
  · cases done
  · cases done
  · cases done
    refine ⟨_, rfl, ?_, ?_⟩
    · rw [graph_releaseOwner, graph_releaseOwner, graph]
    · rw [table_releaseOwner, table_releaseOwner]
      exact same.releaseOwner _
  · cases done
    exact ⟨d, rfl, graph, same⟩
  · cases done
    exact ⟨d, rfl, graph, same⟩
  · cases done
    exact ⟨d, rfl, graph, same⟩

theorem redoAll_congr {dated again : List (Event × Instant)}
    (events : again.map Prod.fst = dated.map Prod.fst) (graph : d.graph = c.graph)
    (same : c.table.SameHolders d.table) (done : redoAll dated c = some c') :
    ∃ d', redoAll again d = some d' ∧ c'.table.SameHolders d'.table := by
  induction dated generalizing again c d with
  | nil =>
    obtain rfl : again = [] := List.map_eq_nil_iff.1 events
    cases done
    exact ⟨d, rfl, same⟩
  | cons first rest ih =>
    obtain ⟨e, now⟩ := first
    obtain ⟨⟨_, later⟩, others, rfl, rfl, left⟩ := List.map_eq_cons_iff.1 events
    rw [redoAll_cons] at done
    obtain ⟨c₁, redone, done⟩ := Option.bind_eq_some_iff.1 done
    obtain ⟨d₁, redone', graph, same⟩ :=
      redo_congr (c := { c with now }) (d := { d with now := later }) graph same redone
    obtain ⟨d', done', same⟩ := ih left graph same done
    refine ⟨d', ?_, same⟩
    rw [redoAll_cons, redone']
    exact done'

end Event

namespace Replay

variable {c d : Coordinator G}

open Coordinator in
/-- Doing again what is told of a step has the effect of the step. -/
theorem redo_event (r : c.table.Reachable) (alike : Alike c d) (step : Script.Step) (owner : Owner)
    (log : List LogEntry) (time : Timestamp) :
    ∃ e, (Entry.event ⟨step, owner, (step.perform owner c).1, log⟩ time).redo d = some e ∧
      Alike (step.perform owner c).2 e := by
  obtain ⟨action, name, ids, tree⟩ := step
  unfold Script.Step.perform
  split
  · next empty =>
    obtain ⟨none, other⟩ := empty
    obtain rfl : ids = [] := List.isEmpty_iff.1 none
    cases action with
    | lock => exact ⟨d, rfl, alike⟩
    | unlock mode =>
      have nothing : distinct [] = [] := by simp [distinct]
      refine ⟨_, rfl, alike.graph, ?_, alike.now⟩
      simp only [Coordinator.release, Coordinator.note, Event.request, Entry.event, Table.release,
        nothing, List.foldl_nil]
      exact alike.table
    | check => exact ⟨d, rfl, alike⟩
    | unlocked => exact ⟨d, rfl, alike⟩
    | releaseOwner => exact absurd rfl other
  · cases action with
    | lock mode =>
      obtain ⟨t, made, grants, e, graph, table, now⟩ | ⟨made, _, e, after⟩ |
        ⟨_, made, _, _, e, after⟩ := acquire_outcome r mode { owner, target := ⟨ids, tree⟩ }
      · have again := (alike.symm.grants grants).tryAcquire_eq
        simp only [Script.Step.request, e]
        refine ⟨{ d with table := t }, ?_, alike.graph.trans graph.symm, table.symm,
          alike.now.trans now.symm⟩
        simp only [Event.redo, Event.request, Entry.event, Entry.eventAction, Script.Action.mode?,
          again]
      · simp only [Script.Step.request, e]
        exact ⟨d, rfl, after.symm.trans alike⟩
      · simp only [Script.Step.request, e]
        exact ⟨d, rfl, after.symm.trans alike⟩
    | unlock mode => exact ⟨_, rfl, alike.call (.release mode _)⟩
    | check mode =>
      refine ⟨d, ?_, alike⟩
      simp only
      cases Script.Step.checkAll c mode owner tree ids <;> rfl
    | unlocked => exact ⟨d, rfl, alike⟩
    | releaseOwner => exact ⟨_, rfl, alike.call (.releaseOwner owner)⟩

section

variable {σ : Type}

theorem redo_play (r : c.table.Reachable) (alike : Coordinator.Alike c d) (owner : Owner)
    (step : Script.Step) (time : Timestamp) :
    ∃ e, ((play owner step c).1.event time).redo d = some e ∧
      Coordinator.Alike (play owner step c).2 e :=
  redo_event (c := { c with log := [] }) r ⟨alike.graph, alike.table, alike.now⟩ step _ _ time

/-- All events are appended to the log, and nothing else is. -/
structure Recorder.Faithful (r : Recorder (StateM σ)) (Logged : σ → List Event → Prop) : Prop where
  now : ∀ {s : σ} {events : List Event}, Logged s events → Logged (r.now s).2 events
  record : ∀ {s : σ} {events : List Event} (entry : Entry), Logged s events →
    ∃ time, (r.record entry s).1 = .ok () ∧
      Logged (r.record entry s).2 (events ++ [entry.event time])

/-- A replay that is told to keep its events in a log file that is there already does so. -/
theorem recorder_faithful (delay : Nat) (path start : String) :
    (Command.recorder (m := StateM Machine) delay (some path)).Faithful
      (EventLog.Written path start) where
  now written := written
  record {machine events} entry written := by
    let later := machine.clock.later (delay * entry.pauses)
    have waited : EventLog.Written path start { machine with clock := later } events :=
      ⟨written.file, written.housed⟩
    obtain ⟨after, appended, written⟩ := waited.append (entry.event later)
    have recorded :
        (Command.recorder (m := StateM Machine) delay (some path)).record entry machine =
          (.ok (), after) := appended
    rw [recorded]
    exact ⟨later, rfl, written⟩

theorem run_cons {r : Recorder (StateM σ)} {failFast : Bool} {owner : Owner} {step : Script.Step}
    (steps : List Script.Step) {s s' s'' : σ} {now : Instant} (begun : r.now s = (now, s'))
    (told : r.record (play owner step { c with now }).1 s' = (.ok (), s'')) :
    run r failFast owner (step :: steps) c s =
      let (entry, d) := play owner step { c with now }
      match entry.result, failFast with
      | .error e, true => (⟨[entry], d, some e⟩, s'')
      | _, _ =>
        let (rest, after) := run r failFast owner steps d s''
        ({ rest with entries := entry :: rest.entries }, after) := by
  simp only [run, bind, StateT.bind, begun, told]
  generalize play owner step { c with now } = played
  obtain ⟨⟨_, _, result, _⟩, d⟩ := played
  cases result with
  | ok outcome => rfl
  | error e => cases failFast <;> rfl

/-- The events tell of the steps of the script one by one, each for the owner that it was done for,
up to the end or to the failure that has ended the replay. -/
structure Tells (events : List Event) (failFast : Bool) (owner : Owner) (script : List Script.Step)
    (run : Run G) : Prop where
  one_each : List.Forall₂ (fun entry event => entry.owner = entry.step.owner.getD owner ∧
    ∃ time, event = entry.event time) run.entries events
  in_order : run.entries.map Entry.step <+: script
  whole : run.stop = none → run.entries.map Entry.step = script
  cut : ∀ e, run.stop = some e → failFast ∧ ∃ entry ∈ run.entries.getLast?, entry.result = .error e

omit [ObjectGraph G] in
theorem Tells.cons {events : List Event} {failFast : Bool} {owner : Owner}
    {script : List Script.Step} {run : Run G} (tells : Tells events failFast owner script run)
    {entry : Entry} (own : entry.owner = entry.step.owner.getD owner) (time : Timestamp) :
    Tells (entry.event time :: events) failFast owner (entry.step :: script)
      { run with entries := entry :: run.entries } where
  one_each := .cons ⟨own, time, rfl⟩ tells.one_each
  in_order := List.cons_prefix_cons.2 ⟨rfl, tells.in_order⟩
  whole stop := congrArg (entry.step :: ·) (tells.whole stop)
  cut e stop := by
    obtain ⟨fast, last, mem, failed⟩ := tells.cut e stop
    refine ⟨fast, last, ?_, failed⟩
    rw [Option.mem_def] at mem ⊢
    simp only [List.getLast?_cons, mem, Option.getD_some]

variable {r : Recorder (StateM σ)} {Logged : σ → List Event → Prop}

/-- Every run of a replay can be done again step by step as it goes. -/
theorem Recorder.Faithful.retold (faithful : r.Faithful Logged) (failFast : Bool) (owner : Owner)
    (script : List Script.Step) (reach : c.table.Reachable) (graph : d.graph = c.graph)
    (table : d.table = c.table) {s after : σ} {before : List Event} (logged : Logged s before)
    {run : Run G} (ended : Replay.run r failFast owner script c s = (run, after)) :
    ∃ dated : List (Event × Instant), Logged after (before ++ dated.map Prod.fst) ∧
      Tells (dated.map Prod.fst) failFast owner script run ∧
      ∃ e, Event.redoAll dated d = some e ∧ e.table = run.coordinator.table := by
  induction script generalizing c d s after before run with
  | nil =>
    cases ended
    exact ⟨[], by simpa using logged, ⟨.nil, List.nil_prefix, fun _ => rfl, by simp⟩, d, rfl, table⟩
  | cons step rest ih =>
    obtain ⟨now, s', begun⟩ : ∃ now s', r.now s = (now, s') := ⟨_, _, rfl⟩
    have logged : Logged s' before := by simpa [begun] using faithful.now logged
    obtain ⟨time, answered, logged⟩ :=
      faithful.record (play owner step { c with now }).1 logged
    obtain ⟨e, redone, alike⟩ := redo_play (c := { c with now }) (d := { d with now }) reach
      ⟨graph, table, rfl⟩ owner step time
    have reached : (play owner step { c with now }).2.table.Reachable := by
      rw [← alike.table]
      exact Event.reachable_redo (table ▸ reach) redone
    have own : (play owner step { c with now }).1.owner = step.owner.getD owner := rfl
    have same : (play owner step { c with now }).1.step = step := rfl
    obtain ⟨s'', told⟩ : ∃ s'', r.record (play owner step { c with now }).1 s' = (.ok (), s'') :=
      ⟨_, Prod.ext answered rfl⟩
    rw [told] at logged
    rw [run_cons rest begun told] at ended
    generalize play owner step { c with now } = played at *
    obtain ⟨entry, c₁⟩ := played
    subst same
    -- Unless the replay ends here, the rest of the script goes on from where this step has led.
    have onwards {more : Run G} {after : σ}
        (ended : Replay.run r failFast owner rest c₁ s'' = (more, after)) :
        ∃ dated : List (Event × Instant), Logged after (before ++ dated.map Prod.fst) ∧
          Tells (dated.map Prod.fst) failFast owner (entry.step :: rest)
            { more with entries := entry :: more.entries } ∧
          ∃ e, Event.redoAll dated d = some e ∧ e.table = more.coordinator.table := by
      obtain ⟨dated, logged, tells, last, redoneAll, table⟩ :=
        ih reached alike.graph alike.table logged ended
      refine ⟨(entry.event time, now) :: dated, by simpa using logged, tells.cons own time, last,
        ?_, table⟩
      rw [Event.redoAll_cons, redone]
      exact redoneAll
    simp only at ended
    split at ended
    · next fault failed =>
      cases ended
      refine ⟨[(entry.event time, now)], logged, ⟨.cons ⟨own, time, rfl⟩ .nil, ?_, by simp, ?_⟩, e,
        ?_, alike.table⟩
      · exact List.cons_prefix_cons.2 ⟨rfl, List.nil_prefix⟩
      · rintro _ ⟨rfl⟩
        exact ⟨rfl, entry, rfl, failed⟩
      · rw [Event.redoAll_cons, redone]
        rfl
    · cases ended
      exact onwards rfl

/-- The events that a replay leaves behind, one for each step that was performed, determine its
locks. Whenever they are done again over the same graph, every acquisition among them is granted
again, and everybody comes to hold the same. At the right moments, the table comes to be the same
altogether; at others, it may differ in since when the objects are locked. -/
theorem Recorder.Faithful.log_determines_locks (faithful : r.Faithful Logged) (graph : G)
    (policy : RetryPolicy) (failFast : Bool) (owner : Owner) (script : List Script.Step)
    {s after : σ} {before : List Event} (logged : Logged s before) {run : Run G}
    (ended : Replay.run r failFast owner script { graph, policy } s = (run, after)) :
    ∃ dated : List (Event × Instant), Logged after (before ++ dated.map Prod.fst) ∧
      Tells (dated.map Prod.fst) failFast owner script run ∧
      (∃ e : Coordinator G, Event.redoAll dated { graph } = some e ∧
        e.table = run.coordinator.table) ∧
      ∀ again : List (Event × Instant), again.map Prod.fst = dated.map Prod.fst →
        ∃ e : Coordinator G, Event.redoAll again { graph } = some e ∧
          run.coordinator.table.SameHolders e.table := by
  obtain ⟨dated, recorded, tells, e, redone, table⟩ :=
    faithful.retold (c := { graph, policy }) (d := { graph }) failFast owner script .empty rfl rfl
      logged ended
  refine ⟨dated, recorded, tells, ⟨e, redone, table⟩, fun again events => ?_⟩
  obtain ⟨f, redoneAgain, same⟩ := Event.redoAll_congr events rfl (.refl _) redone
  exact ⟨f, redoneAgain, table ▸ same⟩

/-- An object `a` above an object `b`. -/
def lobby : Adjacency := ⟨.ofList [("a", ["b"]), ("b", [])]⟩

/-- Carol runs into the lock that alice has on all below `a`. Alice first forgets to say what she
gives back, and then carol succeeds. -/
def shift : List Script.Step :=
  [{ action := .lock .write, owner := some "alice", ids := ["a"], tree := true },
    { action := .lock .read, ids := ["b"] },
    { action := .unlock .write, owner := some "alice" },
    { action := .unlock .write, owner := some "alice", ids := ["a"], tree := true },
    { action := .lock .read, ids := ["b"] }]

/-- A machine with an empty log file. -/
def desk : Machine := { volume := Volume.put {} ("log" :: Volume.home) (.file (some "")) }

def shiftRun : Run Adjacency × Machine :=
  run (Command.recorder (m := StateM Machine) 0 (some "log")) false "carol" shift
    { graph := lobby } desk

theorem shiftRun_redone :
    ∃ dated : List (Event × Instant), dated.length = 5 ∧
      EventLog.Written "log" "" shiftRun.2 (dated.map Prod.fst) ∧
      ∃ e : Coordinator Adjacency, Event.redoAll dated { graph := lobby } = some e ∧
        e.table = shiftRun.1.coordinator.table := by
  have start : EventLog.Written "log" "" desk [] := by
    refine ⟨by cbv, fun directory above => .inl ?_⟩
    have parent : Path.parent? "log" = some "" := by cbv
    exact Option.some.inj (above.symm.trans parent)
  have ended : run (Command.recorder (m := StateM Machine) 0 (some "log")) false "carol" shift
      { graph := lobby } desk = (shiftRun.1, shiftRun.2) := rfl
  obtain ⟨dated, recorded, tells, redone, _⟩ :=
    (recorder_faithful 0 "log" "").log_determines_locks lobby default false "carol" shift start
      ended
  have whole : shiftRun.1.entries.map Entry.step = shift := by
    refine tells.whole (Option.eq_none_iff_forall_ne_some.2 fun e stop => ?_)
    cases (tells.cut e stop).1
  have five := congrArg List.length whole
  rw [List.length_map] at five
  have counted := tells.one_each.length_eq
  rw [List.length_map] at counted
  exact ⟨dated, counted.symm.trans five, recorded, redone⟩

end

end Replay

end SceneLock
