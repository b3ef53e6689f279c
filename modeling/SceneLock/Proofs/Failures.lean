import Mathlib
import SceneLock.Proofs.Audit

/-!
Replays and their failures. A step that fails leaves no trace, so that the others go on as if it
had never been tried; and a replay that ends with its first failure is the beginning of one that
goes on.
-/

namespace SceneLock

open Std

section

variable {ε σ α β : Type} {R : σ → σ → Prop}

/-- An operation ends alike on two states: with the same value or the same error, and the states it
leaves are related. -/
inductive EndsAlike (R : σ → σ → Prop) : EStateM.Result ε σ α → EStateM.Result ε σ α → Prop
  | ok (a : α) {s t : σ} : R s t → EndsAlike R (.ok a s) (.ok a t)
  | error (e : ε) {s t : σ} : R s t → EndsAlike R (.error e s) (.error e t)

theorem EndsAlike.bind {x : EStateM ε σ α} {f : α → EStateM ε σ β} {s t : σ}
    (first : EndsAlike R (x s) (x t))
    (second : ∀ a s t, R s t → EndsAlike R (f a s) (f a t)) :
    EndsAlike R ((x >>= f) s) ((x >>= f) t) := by
  simp only [Bind.bind, EStateM.bind]
  generalize x s = one at first
  generalize x t = other at first
  cases first with
  | ok a related => exact second a _ _ related
  | error e related => exact .error e related

variable {attempt : Nat → EStateM ε σ Bool} {pause : Nat → EStateM ε σ Unit}

/-- If every attempt ends alike on related states, so does trying again and again. -/
theorem retryFrom_endsAlike
    (attempts : ∀ n s t, R s t → EndsAlike R (attempt n s) (attempt n t))
    (pauses : ∀ n s t, R s t → EndsAlike R (pause n s) (pause n t)) (giveUp : ε) (left n : Nat)
    {s t : σ} (related : R s t) :
    EndsAlike R (retryFrom giveUp attempt pause left n s)
      (retryFrom giveUp attempt pause left n t) := by
  induction left generalizing n s t with
  | zero => exact .error giveUp related
  | succ left ih =>
    unfold retryFrom
    apply (attempts n s t related).bind
    intro done s t related
    cases done with
    | true => exact .ok n related
    | false =>
      by_cases last : left = 0
      · simp only [last, ne_eq, not_true_eq_false, if_false, Bool.false_eq_true]
        exact EndsAlike.bind (.ok () related) fun _ s t related => last ▸ ih (n + 1) related
      · simp only [last, ne_eq, not_false_eq_true, if_true, Bool.false_eq_true, if_false]
        exact (pauses n s t related).bind fun _ s t related => ih (n + 1) related

end

namespace Table.SameHolders

variable {t u : Table}

theorem tryAcquire_endsAlike (same : t.SameHolders u) (claims : Claims) (owner : Owner)
    (mode : Mode) (now later : Instant) :
    EndsAlike SameHolders (t.tryAcquire claims owner mode now)
      (u.tryAcquire claims owner mode later) := by
  have conflict : t.conflict? claims owner mode = u.conflict? claims owner mode :=
    same.conflict?_eq
  have fault : t.stagedFault? claims owner mode now = u.stagedFault? claims owner mode later :=
    same.stagedFault?_eq
  obtain ⟨id, met, e⟩ | ⟨clear, cause, faulty, e⟩ | ⟨clear, passed, e⟩ :=
    t.tryAcquire_cases claims owner mode now
  all_goals
    obtain ⟨id', met', e'⟩ | ⟨clear', cause', faulty', e'⟩ | ⟨clear', passed', e'⟩ :=
      u.tryAcquire_cases claims owner mode later
    all_goals rw [e, e']
  all_goals simp_all only [Option.some.injEq, reduceCtorEq]
  · exact .ok _ same
  · exact .error _ same
  · exact .ok _ same.granted

end Table.SameHolders

variable {G : Type} [ObjectGraph G]

namespace Coordinator

/-- The same but for what time it is and since when the objects are locked. -/
structure Akin (c d : Coordinator G) : Prop where
  graph : d.graph = c.graph
  policy : d.policy = c.policy
  log : d.log = c.log
  table : c.table.SameHolders d.table

namespace Akin

variable {c d : Coordinator G}

omit [ObjectGraph G] in
theorem note (akin : Akin c d) (entry : LogEntry) : Akin (c.note entry) (d.note entry) :=
  ⟨akin.graph, akin.policy, congrArg (entry :: ·) akin.log, akin.table⟩

omit [ObjectGraph G] in
theorem withTable (akin : Akin c d) {t u : Table} (same : t.SameHolders u) :
    Akin { c with table := t } { d with table := u } :=
  ⟨akin.graph, akin.policy, akin.log, same⟩

omit [ObjectGraph G] in
theorem takeClaims (akin : Akin c d) (claims : Claims) (owner : Owner) (mode : Mode) :
    EndsAlike Akin (Coordinator.takeClaims claims owner mode c)
      (Coordinator.takeClaims claims owner mode d) := by
  have ends := akin.table.tryAcquire_endsAlike claims owner mode c.now d.now
  unfold Coordinator.takeClaims
  generalize c.table.tryAcquire claims owner mode c.now = one at ends
  generalize d.table.tryAcquire claims owner mode d.now = other at ends
  cases ends with
  | ok verdict same =>
    cases verdict with
    | granted => exact .ok true (akin.withTable same)
    | conflict id => exact .ok false ((akin.withTable same).note _)
  | error e same => exact .error e (akin.withTable same)

theorem tryAcquire (akin : Akin c d) (mode : Mode) (request : Request) :
    EndsAlike Akin (Coordinator.tryAcquire mode request c)
      (Coordinator.tryAcquire mode request d) := by
  unfold Coordinator.tryAcquire
  rw [akin.graph]
  split
  · exact .error _ akin
  · exact akin.takeClaims _ _ _

theorem acquire (akin : Akin c d) (mode : Mode) (request : Request) :
    EndsAlike Akin (Coordinator.acquire mode request c) (Coordinator.acquire mode request d) := by
  have attempts : EndsAlike Akin (attemptsAmid (fun _ c => c) mode request c)
      (attemptsAmid (fun _ c => c) mode request d) := by
    unfold attemptsAmid retry
    rw [akin.policy]
    apply retryFrom_endsAlike (fun _ _ _ akin => akin.tryAcquire mode request) _ _ _ _ akin
    intro n s t akin
    exact .ok () (akin.note (.retrying n))
  unfold Coordinator.acquire acquireAmid
  generalize attemptsAmid (fun _ c => c) mode request c = one at attempts
  generalize attemptsAmid (fun _ c => c) mode request d = other at attempts
  cases attempts with
  | ok n akin => exact .ok _ (akin.note _)
  | error e akin =>
    apply EndsAlike.error
    split
    · exact akin.note _
    · exact akin

omit [ObjectGraph G] in
theorem release (akin : Akin c d) (mode : Mode) (request : Request) :
    Akin (c.release mode request) (d.release mode request) := by
  have same := akin.table
  unfold Coordinator.release
  simp only [same.release_fst_eq request.target.ids request.owner mode request.target.tree]
  exact (akin.withTable (same.release _ _ _ _)).note _

omit [ObjectGraph G] in
theorem releaseOwner (akin : Akin c d) (owner : Owner) :
    (c.releaseOwner owner).1 = (d.releaseOwner owner).1 ∧
      Akin (c.releaseOwner owner).2 (d.releaseOwner owner).2 := by
  have left := akin.withTable (akin.table.releaseOwner owner)
  unfold Coordinator.releaseOwner
  simp only [akin.table.releaseOwner_fst_eq owner, true_and]
  split
  · exact left
  · exact left.note _

end Akin

/-- An acquisition that fails leaves all as it was, but for the log. -/
theorem acquire_error {c d : Coordinator G} {mode : Mode} {request : Request} {e : LockError}
    (failed : acquire mode request c = .error e d) :
    d.graph = c.graph ∧ d.policy = c.policy ∧ d.table = c.table := by
  let Kept (d : Coordinator G) : Prop :=
    d.graph = c.graph ∧ d.policy = c.policy ∧ d.table = c.table
  have start : Kept c := ⟨rfl, rfl, rfl⟩
  obtain ⟨_, _, _, _, _, granted⟩ | ⟨_, u, kept, ended⟩ :=
    acquireAmid_cases start (fun _ _ kept => kept) (fun _ _ kept => kept) mode request
  · cases granted.symm.trans failed
  · cases ended.symm.trans failed
    exact kept

end Coordinator

namespace Script.Step

variable {c d : Coordinator G}

omit [ObjectGraph G] in
theorem checkAll_congr (akin : Coordinator.Akin c d) (mode : Mode) (owner : Owner) (tree : Bool)
    (ids : List Id) : checkAll c mode owner tree ids = checkAll d mode owner tree ids := by
  have answers (id : Id) :
      c.assertLocked mode id owner tree = d.assertLocked mode id owner tree := by
    unfold Coordinator.assertLocked Coordinator.isLocked
    rw [akin.table.isLocked_eq]
  induction ids with
  | nil => rfl
  | cons id rest ih =>
    unfold checkAll
    rw [answers, ih]

theorem perform_congr (akin : Coordinator.Akin c d) (step : Step) (owner : Owner) :
    (step.perform owner c).1 = (step.perform owner d).1 ∧
      Coordinator.Akin (step.perform owner c).2 (step.perform owner d).2 := by
  unfold perform
  split
  · exact ⟨rfl, akin⟩
  · split
    · next mode _ =>
      have ends := akin.acquire mode (step.request owner)
      generalize Coordinator.acquire mode (step.request owner) c = one at ends
      generalize Coordinator.acquire mode (step.request owner) d = other at ends
      cases ends with
      | ok guard akin => exact ⟨rfl, akin.note _⟩
      | error e akin => exact ⟨rfl, akin⟩
    · exact ⟨rfl, akin.release _ _⟩
    · exact ⟨by rw [checkAll_congr akin], akin⟩
    · exact ⟨by rw [Coordinator.notWriteLocked, akin.table.unlocked_eq]; rfl, akin⟩
    · obtain ⟨locks, left⟩ := akin.releaseOwner owner
      simp only [locks, true_and]
      exact left

/-- A step that fails leaves all as it was, but for the log. -/
theorem perform_error {step : Step} {owner : Owner} {e : LockError}
    (failed : (step.perform owner c).1 = .error e) :
    (step.perform owner c).2.graph = c.graph ∧ (step.perform owner c).2.policy = c.policy ∧
      (step.perform owner c).2.table = c.table := by
  unfold perform at failed ⊢
  split at failed
  · next nothing =>
    rw [if_pos nothing]
    exact ⟨rfl, rfl, rfl⟩
  · next some =>
    rw [if_neg some]
    cases action : step.action with
    | lock mode =>
      simp only [action] at failed ⊢
      cases ended : Coordinator.acquire mode (step.request owner) c with
      | ok guard d => simp [ended] at failed
      | error e d => exact Coordinator.acquire_error ended
    | unlock => simp [action] at failed
    | check => exact ⟨rfl, rfl, rfl⟩
    | unlocked => simp [action] at failed
    | releaseOwner => simp [action] at failed

end Script.Step

namespace Replay

variable {c d : Coordinator G}

/-- What time it was before, and what is in the log, makes no difference to a step. -/
theorem play_congr (graph : d.graph = c.graph) (policy : d.policy = c.policy)
    (same : c.table.SameHolders d.table) (owner : Owner) (step : Script.Step) :
    (play owner step c).1 = (play owner step d).1 ∧
      Coordinator.Akin (play owner step c).2 (play owner step d).2 := by
  have akin : Coordinator.Akin { c with log := [] } { d with log := [] } :=
    ⟨graph, policy, rfl, same⟩
  obtain ⟨result, left⟩ := Script.Step.perform_congr akin step (step.owner.getD owner)
  unfold play
  exact ⟨by simp only [result, left.log], left⟩

theorem play_error {owner : Owner} {step : Script.Step} {e : LockError}
    (failed : (play owner step c).1.result = .error e) :
    (play owner step c).2.graph = c.graph ∧ (play owner step c).2.policy = c.policy ∧
      (play owner step c).2.table = c.table :=
  Script.Step.perform_error (c := { c with log := [] }) failed

def Entry.failure? (e : Entry) : Option LockError :=
  match e.result with
  | .ok _ => none
  | .error e => some e

theorem Entry.failed_iff {e : Entry} :
    e.succeeded = false ↔ ∃ fault, e.result = .error fault := by
  unfold Entry.succeeded
  cases e.result <;> simp [Except.isOk, Except.toBool]

/-- Tells the same of every step, and everybody comes to hold the same. -/
structure Run.Resembles (a b : Run G) : Prop where
  entries : b.entries = a.entries
  stop : b.stop = a.stop
  holders : a.coordinator.table.SameHolders b.coordinator.table

section

variable {σ τ : Type} {r : Recorder (StateM σ)} {r' : Recorder (StateM τ)}

/-- A recorder that never is the reason why a replay ends. -/
def Recorder.Lenient (r : Recorder (StateM σ)) : Prop := ∀ entry s, (r.record entry s).1 = .ok ()

/-- Without a log file, nothing can go wrong with it. -/
theorem recorder_lenient (delay : Nat) :
    (Command.recorder (m := StateM Machine) delay none).Lenient := fun _ _ => rfl

/-- Keeps nothing, and shows the given moments one after another. -/
def Recorder.dated : Recorder (StateM (List Instant)) where
  now := fun dates => (dates.headD 0, dates.tail)
  record := fun _ dates => (.ok (), dates)

theorem Recorder.dated_lenient : Recorder.dated.Lenient := fun _ _ => rfl

theorem run_step {owner : Owner} {step : Script.Step} {s s₁ s' : σ} {now : Instant}
    (begun : r.now s = (now, s₁))
    (told : r.record (play owner step { c with now }).1 s₁ = (.ok (), s')) (failFast : Bool)
    (steps : List Script.Step) :
    let (entry, d) := play owner step { c with now }
    let rest := (run r failFast owner steps d s').1
    (run r failFast owner (step :: steps) c s).1 =
      if failFast && !entry.succeeded then ⟨[entry], d, entry.failure?⟩
      else { rest with entries := entry :: rest.entries } := by
  rw [run_cons steps begun told]
  generalize play owner step { c with now } = played
  obtain ⟨⟨_, _, result, _⟩, d⟩ := played
  cases result <;> cases failFast <;> rfl

theorem Recorder.dated_run_step (owner : Owner) (step : Script.Step) (c : Coordinator G)
    (now : Instant) (dates : List Instant) (failFast : Bool) (steps : List Script.Step) :
    let (entry, d) := play owner step { c with now }
    let rest := (run Recorder.dated failFast owner steps d dates).1
    (run Recorder.dated failFast owner (step :: steps) c (now :: dates)).1 =
      if failFast && !entry.succeeded then ⟨[entry], d, entry.failure?⟩
      else { rest with entries := entry :: rest.entries } :=
  Replay.run_step rfl rfl failFast steps

namespace Recorder.Lenient

theorem run_step (lenient : r.Lenient) (owner : Owner) (step : Script.Step) (c : Coordinator G)
    (s : σ) : ∃ now s', ∀ failFast steps,
      let (entry, d) := play owner step { c with now }
      let rest := (run r failFast owner steps d s').1
      (run r failFast owner (step :: steps) c s).1 =
        if failFast && !entry.succeeded then ⟨[entry], d, entry.failure?⟩
        else { rest with entries := entry :: rest.entries } := by
  obtain ⟨now, s₁, begun⟩ : ∃ now s₁, r.now s = (now, s₁) := ⟨_, _, rfl⟩
  obtain ⟨s', told⟩ : ∃ s', r.record (play owner step { c with now }).1 s₁ = (.ok (), s') :=
    ⟨_, Prod.ext (lenient _ _) rfl⟩
  exact ⟨now, s', Replay.run_step begun told⟩

/-- A replay that goes on is done with the whole script. -/
theorem whole (lenient : r.Lenient) (owner : Owner) (script : List Script.Step)
    (c : Coordinator G) (s : σ) :
    (run r false owner script c s).1.entries.map Entry.step = script ∧
      (run r false owner script c s).1.stop = none := by
  induction script generalizing c s with
  | nil => exact ⟨rfl, rfl⟩
  | cons step rest ih =>
    obtain ⟨now, s', went⟩ := lenient.run_step owner step c s
    obtain ⟨steps, stop⟩ := ih (play owner step { c with now }).2 s'
    simp only [went, Bool.false_and, Bool.false_eq_true, if_false]
    exact ⟨congrArg (step :: ·) steps, stop⟩

/-- The clock makes no difference, but for since when the objects are locked. -/
theorem resembles (lenient : r.Lenient) (lenient' : r'.Lenient) (failFast : Bool) (owner : Owner)
    (script : List Script.Step) (graph : d.graph = c.graph) (policy : d.policy = c.policy)
    (same : c.table.SameHolders d.table) (s : σ) (s' : τ) :
    (run r failFast owner script c s).1.Resembles (run r' failFast owner script d s').1 := by
  induction script generalizing c d s s' with
  | nil => exact ⟨rfl, rfl, same⟩
  | cons step rest ih =>
    obtain ⟨now, s₁, went⟩ := lenient.run_step owner step c s
    obtain ⟨later, s₁', went'⟩ := lenient'.run_step owner step d s'
    obtain ⟨entries, akin⟩ :=
      play_congr (c := { c with now }) (d := { d with now := later }) graph policy same owner step
    have onwards := ih akin.graph akin.policy akin.table s₁ s₁'
    simp only [went, went', ← entries]
    split
    · exact ⟨rfl, rfl, akin.table⟩
    · exact ⟨congrArg (List.cons _) onwards.entries, onwards.stop, onwards.holders⟩

/-- Without the steps that have failed, everything goes as it has gone, moment by moment. -/
theorem omit_failures (lenient : r.Lenient) (owner : Owner) (script : List Script.Step)
    (graph : d.graph = c.graph) (policy : d.policy = c.policy) (table : d.table = c.table)
    (s : σ) :
    let whole := (run r false owner script c s).1
    let kept := whole.entries.filter Entry.succeeded
    ∃ dates, ∀ failFast,
      let again := (run Recorder.dated failFast owner (kept.map Entry.step) d dates).1
      again.entries = kept ∧ again.stop = none ∧
        again.coordinator.table = whole.coordinator.table := by
  induction script generalizing c d s with
  | nil => exact ⟨[], fun _ => ⟨rfl, rfl, table⟩⟩
  | cons step rest ih =>
    obtain ⟨now, s₁, went⟩ := lenient.run_step owner step c s
    simp only [went, Bool.false_and, Bool.false_eq_true, if_false, List.filter_cons]
    by_cases done : (play owner step { c with now }).1.succeeded
    · have same : play owner step { d with now } = play owner step { c with now } := by
        unfold play
        simp only [graph, policy, table]
      obtain ⟨dates, again⟩ := ih (c := (play owner step { c with now }).2) rfl rfl rfl s₁
      refine ⟨now :: dates, fun failFast => ?_⟩
      have goes := Recorder.dated_run_step owner step d now dates failFast
      have named : (play owner step { c with now }).1.step = step := rfl
      simp only [same, done, Bool.not_true, Bool.and_false, Bool.false_eq_true, if_false] at goes
      obtain ⟨entries, stop, table⟩ := again failFast
      simp only [done, if_true, List.map_cons, named, goes]
      exact ⟨congrArg (List.cons _) entries, stop, table⟩
    · have failed : (play owner step { c with now }).1.succeeded = false := by simpa using done
      obtain ⟨e, result⟩ := Entry.failed_iff.1 failed
      obtain ⟨graph', policy', table'⟩ := play_error result
      simp only [done]
      exact ih (graph.trans graph'.symm) (policy.trans policy'.symm) (table.trans table'.symm) s₁

/-- As long as no step fails, it makes no difference what the replay would do then. -/
theorem failFast_of_succeeded (lenient : r.Lenient) (owner : Owner) (script : List Script.Step)
    (c : Coordinator G) (s : σ)
    (fine : ∀ entry ∈ (run r false owner script c s).1.entries, entry.succeeded) :
    (run r true owner script c s).1 = (run r false owner script c s).1 := by
  induction script generalizing c s with
  | nil => rfl
  | cons step rest ih =>
    obtain ⟨now, s₁, went⟩ := lenient.run_step owner step c s
    simp only [went, Bool.false_and, Bool.false_eq_true, if_false] at fine ⊢
    obtain ⟨first, later⟩ := List.forall_mem_cons.1 fine
    simp only [first, Bool.not_true, Bool.and_false, Bool.false_eq_true, if_false]
    rw [ih _ _ later]

/-- A replay that ends with the first failure goes as far as that step like one that goes on. -/
theorem failFast_of_failed (lenient : r.Lenient) (owner : Owner) (script : List Script.Step)
    (c : Coordinator G) (s : σ) {before after : List Entry} {entry : Entry}
    (split : (run r false owner script c s).1.entries = before ++ entry :: after)
    (fine : ∀ earlier ∈ before, earlier.succeeded) (failed : entry.succeeded = false) :
    let upTo := (run r false owner (script.take (before.length + 1)) c s).1
    upTo.entries = before ++ [entry] ∧
      (run r true owner script c s).1 = { upTo with stop := entry.failure? } := by
  induction script generalizing c s before with
  | nil =>
    have nothing : [] = before ++ entry :: after := split
    simp at nothing
  | cons step rest ih =>
    obtain ⟨now, s₁, went⟩ := lenient.run_step owner step c s
    simp only [went, Bool.false_and, Bool.false_eq_true, if_false, List.take_succ_cons] at split ⊢
    cases before with
    | nil =>
      obtain ⟨rfl, rfl⟩ := List.cons_eq_cons.1 split
      simp only [failed, List.length_nil, List.take_zero, Bool.not_false, Bool.and_self, if_true]
      exact ⟨rfl, rfl⟩
    | cons first more =>
      rw [List.cons_append, List.cons_eq_cons] at split
      obtain ⟨rfl, split⟩ := split
      obtain ⟨done, fine⟩ := List.forall_mem_cons.1 fine
      obtain ⟨entries, fast⟩ := ih _ _ split fine
      simp only [done, Bool.not_true, Bool.and_false, Bool.false_eq_true, if_false, fast]
      exact ⟨congrArg (List.cons _) entries, rfl⟩

end Recorder.Lenient

/-- The lines on steps that are numbered from `n` on. -/
def linesFrom (n : Nat) (entries : List Entry) : String :=
  String.join ((entries.zipIdx n).map fun (e, n) => e.line n)

theorem stepLines_append (before after : List Entry) :
    stepLines (before ++ after) = stepLines before ++ linesFrom (before.length + 1) after := by
  unfold stepLines linesFrom
  rw [List.zipIdx_append, List.map_append, String.join_append, Nat.add_comm 1]

/-- Deleting from a script the steps that fail leaves a script whose steps all succeed, tell the
same as before, and come to the same locks. At the moments at which they were done before, the table
is the same altogether; at others, it may differ in since when the objects are locked. A replay that
ends with the first failure tells of the steps up to that one what a replay that goes on tells of
them, and leaves what that one leaves up to there. -/
theorem Recorder.Lenient.failures_leave_no_trace (lenient : r.Lenient) (graph : G)
    (policy : RetryPolicy) (owner : Owner) (script : List Script.Step) (s : σ) :
    let start : Coordinator G := { graph, policy }
    let whole := (run r false owner script start s).1
    let kept := whole.entries.filter Entry.succeeded
    let fast := (run r true owner script start s).1
    (whole.entries.map Entry.step = script ∧ whole.stop = none ∧
      whole.entries.countP Entry.succeeded + whole.entries.countP (!·.succeeded) = script.length) ∧
    (∃ dates, ∀ failFast,
      let again := (run Recorder.dated failFast owner (kept.map Entry.step) start dates).1
      again.entries = kept ∧ again.stop = none ∧
        again.coordinator.table = whole.coordinator.table) ∧
    (∀ {τ : Type} {r' : Recorder (StateM τ)}, r'.Lenient → ∀ (failFast : Bool) (s' : τ),
      let again := (run r' failFast owner (kept.map Entry.step) start s').1
      again.entries = kept ∧ again.stop = none ∧
        whole.coordinator.table.SameHolders again.coordinator.table) ∧
    ((∀ entry ∈ whole.entries, entry.succeeded) → fast = whole) ∧
    (∀ before entry after fault, whole.entries = before ++ entry :: after →
      (∀ earlier ∈ before, earlier.succeeded) → entry.result = .error fault →
      fast.entries = before ++ [entry] ∧
        stepLines whole.entries = stepLines fast.entries ++ linesFrom (before.length + 2) after ∧
        fast.stop = some fault ∧
        fast.coordinator =
          (run r false owner (script.take (before.length + 1)) start s).1.coordinator) ∧
    ∀ {τ : Type} {r' : Recorder (StateM τ)}, r'.Lenient → ∀ s' : τ,
      fast.Resembles (run r' true owner script start s').1 := by
  intro start whole kept fast
  obtain ⟨steps, stop⟩ := lenient.whole owner script start s
  obtain ⟨dates, again⟩ :=
    lenient.omit_failures (c := start) (d := start) owner script rfl rfl rfl s
  refine ⟨⟨steps, stop, ?_⟩, ⟨dates, again⟩, ?_, ?_, ?_, ?_⟩
  · have all := List.length_eq_countP_add_countP Entry.succeeded (l := whole.entries)
    have length : whole.entries.length = script.length := by rw [← steps, List.length_map]
    simpa [length] using all.symm
  · intro τ r' lenient' failFast s'
    obtain ⟨entries, stop, table⟩ := again failFast
    have alike := Recorder.dated_lenient.resembles lenient' failFast owner (kept.map Entry.step)
      (c := start) (d := start) rfl rfl (.refl _) dates s'
    refine ⟨alike.entries.trans entries, alike.stop.trans stop, ?_⟩
    exact table ▸ alike.holders
  · exact lenient.failFast_of_succeeded owner script start s
  · intro before entry after fault split fine failed
    obtain ⟨entries, e⟩ := lenient.failFast_of_failed owner script start s split fine
      (Entry.failed_iff.2 ⟨fault, failed⟩)
    have told : fast.entries = before ++ [entry] := (congrArg Run.entries e).trans entries
    have stopped : fast.stop = some fault := by
      apply (congrArg Run.stop e).trans
      simp only [Entry.failure?, failed]
    refine ⟨told, ?_, stopped, (congrArg Run.coordinator e).trans rfl⟩
    have longer : whole.entries = (before ++ [entry]) ++ after := by
      rw [List.append_assoc, List.singleton_append]
      exact split
    rw [longer, stepLines_append, told, List.length_append, List.length_singleton]
  · intro τ r' lenient' s'
    exact lenient.resembles lenient' true owner script rfl rfl (.refl _) s s'

/-- Nobody logs the shift, and nobody waits. -/
def offRecord (failFast : Bool) (script : List Script.Step) : Run Adjacency :=
  (run (Command.recorder (m := StateM Machine) 0 none) failFast "carol" script
    { graph := lobby, policy := .once } {}).1

theorem shift_without_failures :
    let kept := [shift[0], shift[3], shift[4]]
    (offRecord false shift).entries.map Entry.succeeded = [true, false, false, true, true] ∧
      (offRecord true kept).stop = none ∧
      (offRecord true kept).entries = (offRecord false shift).entries.filter Entry.succeeded ∧
      (offRecord false shift).coordinator.table.SameHolders
        (offRecord true kept).coordinator.table ∧
      (offRecord true shift).entries.length = 2 ∧
      ∃ entry ∈ (offRecord false shift).entries[1]?, ∃ fault, entry.result = .error fault ∧
        (offRecord true shift).stop = some fault := by
  intro kept
  have outcomes : (offRecord false shift).entries.map Entry.succeeded =
      [true, false, false, true, true] := by cbv
  have survivors : ((offRecord false shift).entries.filter Entry.succeeded).map Entry.step =
      kept := by cbv
  obtain ⟨_, _, again, _, cut, _⟩ :=
    (recorder_lenient 0).failures_leave_no_trace lobby .once "carol" shift {}
  have retold :
      let told := offRecord true
        (((offRecord false shift).entries.filter Entry.succeeded).map Entry.step)
      told.entries = (offRecord false shift).entries.filter Entry.succeeded ∧ told.stop = none ∧
        (offRecord false shift).coordinator.table.SameHolders told.coordinator.table :=
    again (recorder_lenient 0) true {}
  rw [survivors] at retold
  obtain ⟨entries, stop, holders⟩ := retold
  obtain ⟨first, more, split, done, later⟩ := List.map_eq_cons_iff.1 outcomes
  obtain ⟨second, rest, rfl, failed, _⟩ := List.map_eq_cons_iff.1 later
  obtain ⟨fault, result⟩ := Entry.failed_iff.1 failed
  obtain ⟨told, _, stopped, _⟩ := cut [first] second rest fault split (by simpa using done) result
  refine ⟨outcomes, stop, entries, holders, congrArg List.length told, second, ?_, fault, result,
    stopped⟩
  rw [split]
  rfl

end

end Replay

end SceneLock
