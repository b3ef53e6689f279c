import Mathlib
import SceneLock.Proofs.Interference
import SceneLock.Proofs.Leaks

/-!
Why clients are refused. An acquisition that meets no conflict passes the check of the records that
it makes, unless a count is at its bound; and no count is higher than the number of acquisitions
granted so far. Until then it depends on the request and the graph alone whether an attempt fails.
-/

namespace SceneLock

open Std

variable {G : Type} [ObjectGraph G]

/-- What an operation answers, leaving aside what it does. -/
def verdict {ε σ α : Type} : EStateM.Result ε σ α → Except ε α
  | .ok a _ => .ok a
  | .error e _ => .error e

/-- What a client is told who wants a lock: that it is granted, that it is not now, or an error. -/
structure Reply (G : Type) where
  /-- The coordinator that was asked, as it was then. -/
  asked : Coordinator G
  granted : Except LockError Bool

namespace Reply

def attempt (mode : Mode) (request : Request) (c : Coordinator G) : Reply G :=
  ⟨c, verdict (Coordinator.tryAcquire mode request c)⟩

/-- An acquisition that comes back without an error is granted. -/
def acquisition (between : Nat → List (Turn G)) (mode : Mode) (request : Request)
    (c : Coordinator G) : Reply G :=
  ⟨c, (verdict (Coordinator.acquireAmid (fun n => Turn.takeAll (between n)) mode request c)).map
    fun _ => true⟩

def isGrant (reply : Reply G) : Bool :=
  match reply.granted with
  | .ok granted => granted
  | .error _ => false

def isConflict (reply : Reply G) : Bool :=
  match reply.granted with
  | .ok granted => !granted
  | .error _ => false

def grants (replies : List (Reply G)) : Nat := replies.countP isGrant

end Reply

/-- What others are told in their turns. -/
def Turn.replies (c : Coordinator G) (turns : List (Turn G)) : List (Reply G) :=
  (history c turns).filterMap fun
    | (c, call (.tryAcquire mode request)) => some (.attempt mode request c)
    | _ => none

/-- What clients do to a coordinator, with what they get back. -/
inductive Op (G : Type) : Type → Type
  | tryAcquire (mode : Mode) (request : Request) : Op G Bool
  /-- `between n` is what others do after attempt `n`, if another attempt follows. -/
  | acquire (between : Nat → List (Turn G)) (mode : Mode) (request : Request) : Op G Guard
  | settle (guard : Guard) (releases : Bool) : Op G Unit
  | release (mode : Mode) (request : Request) : Op G Unit
  | releaseOwner (owner : Owner) : Op G Nat
  | others (turns : List (Turn G)) : Op G Unit

namespace Op

variable {α : Type}

def action : Op G α → Action G α
  | tryAcquire mode request => Coordinator.tryAcquire mode request
  | acquire between mode request =>
    Coordinator.acquireAmid (fun n => Turn.takeAll (between n)) mode request
  | settle guard releases => modify (guard.settle releases)
  | release mode request => modify (·.release mode request)
  | releaseOwner owner => modifyGet (·.releaseOwner owner)
  | others turns => modify (Turn.takeAll turns)

/-- The pauses of an acquisition: it makes the next one as long as it meets conflicts, except after
the last attempt. -/
def pauses (between : Nat → List (Turn G)) (mode : Mode) (request : Request) (c : Coordinator G) :
    List Nat :=
  (List.range (c.policy.attempts - 1)).takeWhile fun n =>
    (Reply.attempt mode request (c.amid between n)).isConflict

/-- What the client is told, and before that what others are told who come in between. -/
def replies : Op G α → Coordinator G → List (Reply G)
  | tryAcquire mode request, c => [.attempt mode request c]
  | acquire between mode request, c =>
    ((pauses between mode request c).flatMap fun n =>
      Turn.replies (c.amid between n) (between (n + 1))) ++ [.acquisition between mode request c]
  | others turns, c => Turn.replies c turns
  | settle _ _, _ | release _ _, _ | releaseOwner _, _ => []

end Op

/-- A program that does what it likes with a coordinator, in scopes and outside of them, and goes
on as it likes after what it gets back. -/
inductive Job (G σ ε : Type) : Type → Type 1
  /-- What it does on its own. It may return, fail or crash. -/
  | own {α : Type} (act : EStateM (Abort ε) σ α) : Job G σ ε α
  | op {α : Type} (ask : Op G α) : Job G σ ε α
  | andThen {α β : Type} (first : Job G σ ε β) (next : β → Job G σ ε α) : Job G σ ε α
  /-- Goes on after a failure or a crash of the body. -/
  | rescue {α : Type} (body : Job G σ ε α) (handler : Abort ε → Job G σ ε α) : Job G σ ε α
  /-- Nobody comes in between the attempts. Where somebody does, an acquisition and the end of its
  guard come to the same. -/
  | scope {α : Type} (mode : Mode) (request : Request) (body : Job G σ ε α) : Job G σ ε α

namespace Job

variable {σ ε : Type}

def run (refuse : LockError → ε) {α : Type} :
    Job G σ ε α → Coordinator G × σ → EStateM.Result (Abort ε) (Coordinator G × σ) α
  | own act, (c, s) =>
    match act s with
    | .ok a s => .ok a (c, s)
    | .error e s => .error e (c, s)
  | op ask, start => Program.act refuse ask.action start
  | andThen first next, start =>
    match first.run refuse start with
    | .ok b state => (next b).run refuse state
    | .error e state => .error e state
  | rescue body handler, start =>
    match body.run refuse start with
    | .ok a state => .ok a state
    | .error e state => (handler e).run refuse state
  | scope mode request body, start =>
    Program.withLock refuse mode request (body.run refuse) start

/-- What all clients are told in the course of a run, the program itself among them. -/
def replies (refuse : LockError → ε) {α : Type} :
    Job G σ ε α → Coordinator G × σ → List (Reply G)
  | own _, _ => []
  | op ask, (c, _) => ask.replies c
  | andThen first next, start =>
    first.replies refuse start ++
      match first.run refuse start with
      | .ok b state => (next b).replies refuse state
      | .error _ _ => []
  | rescue body handler, start =>
    body.replies refuse start ++
      match body.run refuse start with
      | .ok _ _ => []
      | .error e state => (handler e).replies refuse state
  | scope mode request body, (c, s) =>
    .acquisition (fun _ => []) mode request c ::
      match Coordinator.acquire mode request c with
      | .ok _ c => body.replies refuse (c, s)
      | .error _ _ => []

end Job

namespace Coordinator

variable {c d : Coordinator G} {mode : Mode} {request : Request} {n : Nat}

/-- Whether an attempt fails, and how, can be told from the request and the graph. -/
def Predictable (c : Coordinator G) : Prop :=
  ∀ mode request e, (∃ d, tryAcquire mode request c = .error e d) ↔
    Claims.ofTarget c.graph request.target = .error e

/-- No hold is counted more than `n` times. -/
structure Within (n : Nat) (c : Coordinator G) : Prop where
  reachable : c.table.Reachable
  count_le : ∀ x o hold, c.table.count x o hold ≤ n

theorem tryAcquire_of_unresolved {e : LockError}
    (unresolved : Claims.ofTarget c.graph request.target = .error e) :
    tryAcquire mode request c = .error e c := by
  simp only [Coordinator.tryAcquire, unresolved]

namespace Within

omit [ObjectGraph G] in
theorem mono {more : Nat} (within : c.Within n) (le : n ≤ more) : c.Within more :=
  ⟨within.reachable, fun x o hold => Nat.le_trans (within.count_le x o hold) le⟩

omit [ObjectGraph G] in
theorem of_table (within : c.Within n) (same : d.table = c.table) : d.Within n := by
  obtain ⟨reachable, count_le⟩ := within
  exact ⟨same ▸ reachable, same ▸ count_le⟩

/-- As long as there is room for one more, no count is at its bound. -/
theorem unresolved_of_fails (within : c.Within n) (room : n + 1 < UInt32.size) {e : LockError}
    (fails : c.Fails mode request e) : Claims.ofTarget c.graph request.target = .error e := by
  obtain ⟨unresolved, _⟩ | ⟨claims, _, ⟨x, claim, _, full⟩, _⟩ := fails
  · exact unresolved
  · have := within.count_le x request.owner ⟨mode, claim⟩
    omega

theorem predictable (within : c.Within n) (room : n + 1 < UInt32.size) : c.Predictable := by
  intro mode request e
  constructor
  · rintro ⟨d, made⟩
    exact within.unresolved_of_fails room (fails_of_tryAcquire within.reachable.sound made)
  · intro unresolved
    exact ⟨c, tryAcquire_of_unresolved unresolved⟩

end Within

end Coordinator

theorem Claims.ofTarget_error {g : G} {target : Target} {e : LockError}
    (unresolved : ofTarget g target = .error e) :
    e = .emptyRequest ∨ ∃ id ∈ target.ids, e = .notFound id := by
  obtain ⟨_, empty⟩ | ⟨before, id, after, named, _, _, missing⟩ | ⟨_, _, claims, resolved⟩ :=
    ofTarget_cases g target
  · cases unresolved.symm.trans empty
    exact .inl rfl
  · cases unresolved.symm.trans missing
    exact .inr ⟨id, by simp [named], rfl⟩
  · cases unresolved.symm.trans resolved

theorem Claims.kind_ne_of_ofTarget {g : G} {target : Target} {e : LockError}
    (unresolved : ofTarget g target = .error e) : e.kind ≠ .invariantViolation := by
  obtain rfl | ⟨id, _, rfl⟩ := ofTarget_error unresolved
  · decide
  · simp [LockError.kind]

namespace Reply

variable {n : Nat} {reply : Reply G} {first rest : List (Reply G)} {c d : Coordinator G}
  {mode : Mode} {request : Request} {between : Nat → List (Turn G)}

theorem grants_attempt (made : Coordinator.tryAcquire mode request c = .ok true d) :
    grants [attempt mode request c] = 1 := by
  simp [grants, isGrant, attempt, made, verdict]

theorem granted_acquisition_of_ok {guard : Guard}
    (made : Coordinator.acquireAmid (fun n => Turn.takeAll (between n)) mode request c =
      .ok guard d) :
    (acquisition between mode request c).granted = .ok true := by
  simp [acquisition, made, verdict, Except.map]

theorem granted_acquisition_of_error {e : LockError}
    (made : Coordinator.acquireAmid (fun n => Turn.takeAll (between n)) mode request c =
      .error e d) :
    (acquisition between mode request c).granted = .error e := by
  simp [acquisition, made, verdict, Except.map]

/-- The table is not to blame for an error, nor would it be if the request were another one. -/
structure Expected (reply : Reply G) : Prop where
  sane : ∀ e, reply.granted = .error e → e.kind ≠ .invariantViolation
  predictable : reply.asked.Predictable

/-- The replies are as expected, if `n` acquisitions have been granted before, for as long as there
is room for one more. -/
def AsExpected : Nat → List (Reply G) → Prop
  | _, [] => True
  | n, reply :: rest =>
    (n + 1 < UInt32.size → reply.Expected) ∧ AsExpected (n + if reply.isGrant then 1 else 0) rest

omit [ObjectGraph G] in
theorem grants_append (first rest : List (Reply G)) :
    grants (first ++ rest) = grants first + grants rest := List.countP_append

omit [ObjectGraph G] in
theorem grants_cons (reply : Reply G) (rest : List (Reply G)) :
    grants (reply :: rest) = (if reply.isGrant then 1 else 0) + grants rest := by
  rw [grants, List.countP_cons, Nat.add_comm]
  rfl

theorem asExpected_append :
    AsExpected n (first ++ rest) ↔ AsExpected n first ∧ AsExpected (n + grants first) rest := by
  induction first generalizing n with
  | nil => simp [AsExpected, grants]
  | cons reply first ih =>
    rw [List.cons_append, AsExpected, AsExpected, ih, grants_cons, ← Nat.add_assoc, and_assoc]

end Reply

namespace Coordinator

variable {c d e : Coordinator G} {mode : Mode} {request : Request} {n : Nat}
  {first rest : List (Reply G)}

/-- On the way from one coordinator to the other these replies are given. They are as expected, and
each count has grown by no more than one for each grant. -/
def Passes (c : Coordinator G) (replies : List (Reply G)) (d : Coordinator G) : Prop :=
  ∀ n, c.Within n → d.Within (n + Reply.grants replies) ∧ Reply.AsExpected n replies

theorem Passes.append (before : Passes c first d) (after : Passes d rest e) :
    Passes c (first ++ rest) e := by
  intro n within
  obtain ⟨between, expected⟩ := before n within
  obtain ⟨done, also⟩ := after _ between
  rw [Reply.grants_append, ← Nat.add_assoc, Reply.asExpected_append]
  exact ⟨done, expected, also⟩

/-- An operation that asks for nothing. -/
theorem passes_nil (step : c.table.Reachable → d.table.Reachable)
    (le : c.table.Sound → ∀ x o hold, d.table.count x o hold ≤ c.table.count x o hold) :
    Passes c [] d := by
  intro n within
  refine ⟨⟨step within.reachable, fun x o hold => ?_⟩, trivial⟩
  exact Nat.le_trans (le within.reachable.sound x o hold) (within.count_le x o hold)

theorem passes_of_table (same : d.table = c.table) : Passes c [] d :=
  fun _ within => ⟨within.of_table same, trivial⟩

theorem Within.expected_attempt (within : c.Within n) (room : n + 1 < UInt32.size) (mode : Mode)
    (request : Request) : (Reply.attempt mode request c).Expected where
  sane e refused := by
    have made : ∃ d, tryAcquire mode request c = .error e d := by
      unfold Reply.attempt verdict at refused
      split at refused
      · cases refused
      · next f d made =>
        cases refused
        exact ⟨d, made⟩
    exact Claims.kind_ne_of_ofTarget ((within.predictable room mode request e).1 made)
  predictable := within.predictable room

theorem passes_tryAcquire (c : Coordinator G) (mode : Mode) (request : Request) :
    Passes c [.attempt mode request c] (leaves (tryAcquire mode request c)) := by
  intro n within
  refine ⟨⟨reachable_tryAcquire within.reachable mode request, fun x o hold => ?_⟩,
    fun room => within.expected_attempt room mode request, trivial⟩
  have before := within.count_le x o hold
  obtain ⟨claims, _, _, passed, made⟩ | ⟨id, made⟩ | ⟨e, made⟩ := c.tryAcquire_cases mode request
  · rw [Reply.grants_attempt made, made]
    simp only [leaves, within.reachable.sound.count_granted passed]
    split <;> omega
  · rw [made]
    exact Nat.le_trans before (Nat.le_add_right n _)
  · rw [made]
    exact Nat.le_trans before (Nat.le_add_right n _)

/-- Releases only ever lower a count. -/
theorem passes_release (c : Coordinator G) (ids : List Id) (owner : Owner) (mode : Mode)
    (tree : Bool) (same : d.table = (c.table.release ids owner mode tree).2) : Passes c [] d := by
  apply passes_nil
  · intro reachable
    rw [same]
    exact reachable.next (.release ids mode tree)
  · intro sound x o hold
    rw [same, sound.count_release]
    exact Nat.sub_le _ _

theorem passes_releaseOwner (c : Coordinator G) (owner : Owner) :
    Passes c [] (c.releaseOwner owner).2 := by
  apply passes_nil
  · intro reachable
    rw [table_releaseOwner]
    exact reachable.next .releaseOwner
  · intro _ x o hold
    rw [table_releaseOwner, Table.count_releaseOwner]
    split
    · exact Nat.zero_le _
    · exact Nat.le_refl _

theorem passes_settle (c : Coordinator G) (guard : Guard) (releases : Bool) :
    Passes c [] (guard.settle releases c) := by
  cases releases with
  | true => exact passes_release c _ guard.owner guard.mode _ rfl
  | false => exact passes_of_table rfl

theorem Passes.settled (before : Passes c first d) (guard : Guard) (releases : Bool) :
    Passes c first (guard.settle releases d) := by
  have ended := before.append (passes_settle d guard releases)
  rwa [List.append_nil] at ended

theorem passes_turn (c : Coordinator G) (turn : Turn G) :
    Passes c (Turn.replies c [turn]) (turn.act c) := by
  cases turn with
  | reshape graph => exact passes_of_table rfl
  | call k =>
    cases k with
    | tryAcquire mode request => exact passes_tryAcquire c mode request
    | release mode request => exact passes_release c _ request.owner mode _ rfl
    | releaseOwner owner => exact passes_releaseOwner c owner
    | wait now => exact passes_of_table rfl

theorem passes_takeAll (c : Coordinator G) (turns : List (Turn G)) :
    Passes c (Turn.replies c turns) (Turn.takeAll turns c) := by
  induction turns generalizing c with
  | nil => exact passes_of_table rfl
  | cons turn rest ih =>
    have parts : Turn.replies c (turn :: rest) =
        Turn.replies c [turn] ++ Turn.replies (turn.act c) rest := by
      simp [Turn.replies, Turn.history, ← List.filterMap_append]
    rw [parts]
    exact (passes_turn c turn).append (ih _)

/-- What others do in the first pauses. -/
theorem passes_amid (between : Nat → List (Turn G)) (c : Coordinator G) (k : Nat) :
    Passes c ((List.range k).flatMap fun n => Turn.replies (c.amid between n) (between (n + 1)))
      (c.amid between k) := by
  induction k with
  | zero => exact passes_of_table rfl
  | succ k ih =>
    rw [List.range_succ, List.flatMap_append, List.flatMap_singleton]
    exact ih.append (passes_takeAll _ _)

theorem takeWhile_range {p : Nat → Bool} {k m : Nat} (le : k ≤ m) (all : ∀ n < k, p n)
    (stop : k < m → p k = false) : (List.range m).takeWhile p = List.range k := by
  obtain ⟨rest, rfl⟩ := Nat.exists_eq_add_of_le le
  rw [List.range_add, List.takeWhile_append_of_pos (by simpa using all)]
  cases rest with
  | zero => simp
  | succ rest => simp [List.range_succ_eq_map, stop (by omega)]

/-- An acquisition pauses after each conflict, until the attempt that decides. -/
theorem pauses_eq_range {between : Nat → List (Turn G)} {k : Nat} (last : k < c.policy.attempts)
    (before : ∀ n < k, (c.amid between n).Contends mode request)
    (decides : (c.amid between k).Contends mode request → k + 1 = c.policy.attempts) :
    Op.pauses between mode request c = List.range k := by
  have conflict (n : Nat) : (Reply.attempt mode request (c.amid between n)).isConflict ↔
      (c.amid between n).Contends mode request := by
    constructor
    · intro conflict
      cases made : tryAcquire mode request (c.amid between n) with
      | error e d => simp [Reply.isConflict, Reply.attempt, made, verdict] at conflict
      | ok granted d =>
        cases granted with
        | true => simp [Reply.isConflict, Reply.attempt, made, verdict] at conflict
        | false => exact contends_of_tryAcquire made
    · intro contends
      obtain ⟨id, made⟩ := contends.tryAcquire_eq
      simp [Reply.isConflict, Reply.attempt, made, verdict]
  apply takeWhile_range (by omega)
  · intro n earlier
    exact (conflict n).2 (before n earlier)
  · intro more
    rw [Bool.eq_false_iff, ne_eq, conflict]
    intro contends
    have := decides contends
    omega

theorem passes_acquireAmid (between : Nat → List (Turn G)) (mode : Mode) (request : Request)
    (c : Coordinator G) :
    Passes c ((Op.acquire between mode request).replies c)
      (leaves (acquireAmid (fun n => Turn.takeAll (between n)) mode request c)) := by
  intro n within
  obtain ⟨k, last, before, outcome⟩ := acquireAmid_outcome within.reachable between mode request
  have pauses : Op.pauses between mode request c = List.range k := by
    apply pauses_eq_range last before
    intro contends
    obtain ⟨_, _, grants, _⟩ | ⟨_, all, _⟩ | ⟨_, _, _, failed, _⟩ := outcome
    · exact absurd contends grants.not_contends
    · exact all
    · obtain ⟨_, refused⟩ := contends.tryAcquire_eq
      cases failed.symm.trans refused
  obtain ⟨deciding, expected⟩ := passes_amid between c k n within
  rw [Op.replies, pauses, Reply.grants_append, ← Nat.add_assoc, Reply.asExpected_append]
  have start (room : n + Reply.grants ((List.range k).flatMap fun n =>
      Turn.replies (c.amid between n) (between (n + 1))) + 1 < UInt32.size) : c.Predictable :=
    within.predictable (by omega)
  generalize n + Reply.grants _ = m at deciding start ⊢
  obtain ⟨t, d, grants, made, alike⟩ | ⟨d, _, _, made, alike⟩ | ⟨e, d, fails, _, made, alike⟩ :=
    outcome
  · -- The acquisition is granted what the deciding attempt is granted.
    have attempt := (passes_tryAcquire (c.amid between k) mode request m deciding).1
    have answer := Reply.granted_acquisition_of_ok made
    have granted : Reply.grants [.acquisition between mode request c] = 1 := by
      simp [Reply.grants, Reply.isGrant, answer]
    rw [Reply.grants_attempt grants.tryAcquire_eq, grants.tryAcquire_eq] at attempt
    rw [granted, made]
    refine ⟨attempt.of_table alike.table, expected, fun room => ⟨fun e refused => ?_, start room⟩,
      trivial⟩
    cases answer.symm.trans refused
  · rw [made]
    refine ⟨(deciding.of_table alike.table).mono (Nat.le_add_right m _), expected,
      fun room => ⟨fun e refused => ?_, start room⟩, trivial⟩
    cases (Reply.granted_acquisition_of_error made).symm.trans refused
    simp [LockError.kind]
  · rw [made]
    refine ⟨(deciding.of_table alike.table).mono (Nat.le_add_right m _), expected,
      fun room => ⟨fun f refused => ?_, start room⟩, trivial⟩
    cases (Reply.granted_acquisition_of_error made).symm.trans refused
    exact Claims.kind_ne_of_ofTarget (deciding.unresolved_of_fails room fails)

/-- Without others in between, nobody else is told anything. -/
theorem passes_acquire (c : Coordinator G) (mode : Mode) (request : Request) :
    Passes c [.acquisition (fun _ => []) mode request c] (leaves (acquire mode request c)) := by
  have alone : (Op.acquire (fun _ => []) mode request).replies c =
      [.acquisition (fun _ => []) mode request c] := by
    simp [Op.replies, Turn.replies, Turn.history]
  rw [← alone]
  exact passes_acquireAmid (fun _ => []) mode request c

end Coordinator

theorem Op.passes {α : Type} (ask : Op G α) (c : Coordinator G) :
    c.Passes (ask.replies c) (leaves (ask.action c)) := by
  cases ask with
  | tryAcquire mode request => exact Coordinator.passes_tryAcquire c mode request
  | acquire between mode request => exact Coordinator.passes_acquireAmid between mode request c
  | settle guard releases => exact Coordinator.passes_settle c guard releases
  | release mode request => exact Coordinator.passes_release c _ request.owner mode _ rfl
  | releaseOwner owner => exact Coordinator.passes_releaseOwner c owner
  | others turns => exact Coordinator.passes_takeAll c turns

namespace Job

variable {σ ε : Type}

theorem passes (refuse : LockError → ε) {α : Type} (job : Job G σ ε α)
    (start : Coordinator G × σ) :
    start.1.Passes (job.replies refuse start) (leaves (job.run refuse start)).1 := by
  induction job generalizing start with
  | own act =>
    obtain ⟨c, s⟩ := start
    simp only [run]
    split <;> exact Coordinator.passes_of_table rfl
  | op ask =>
    obtain ⟨c, s⟩ := start
    have passed := ask.passes c
    simp only [run, Program.act, replies]
    cases answered : ask.action c with
    | _ =>
      rw [answered] at passed
      exact passed
  | andThen first next ih_first ih_next =>
    have before := ih_first start
    simp only [run, replies]
    cases ended : first.run refuse start with
    | ok b state =>
      rw [ended] at before
      exact before.append (ih_next b state)
    | error e state =>
      rw [ended] at before
      rw [List.append_nil]
      exact before
  | rescue body handler ih_body ih_handler =>
    have before := ih_body start
    simp only [run, replies]
    cases ended : body.run refuse start with
    | ok a state =>
      rw [ended] at before
      rw [List.append_nil]
      exact before
    | error e state =>
      rw [ended] at before
      exact before.append (ih_handler e state)
  | scope mode request body ih =>
    obtain ⟨c, s⟩ := start
    have entered := Coordinator.passes_acquire c mode request
    simp only [run, Program.withLock, Program.act, replies]
    cases taken : Coordinator.acquire mode request c with
    | error e d =>
      rw [taken] at entered
      exact entered
    | ok guard d =>
      rw [taken] at entered
      have ran := entered.append (ih (d, s))
      cases ended : body.run refuse (d, s) with
      | ok a state =>
        rw [ended] at ran
        simp only [ended]
        exact ran.settled guard _
      | error abort state =>
        rw [ended] at ran
        simp only [ended]
        cases abort with
        | failed e => exact ran.settled guard _
        | crashed text => exact ran.settled guard true

/-- As long as fewer than 2^32 acquisitions have been granted, the one that is asked for counted in,
no client is told that the table is broken. Whether and how an attempt would fail depends on the
request and the graph alone: it names no object, or one that is not there. -/
theorem refusals_blameless (graph : G) (policy : RetryPolicy) (now : Instant) (s : σ)
    (refuse : LockError → ε) {α : Type} (job : Job G σ ε α) {before after : List (Reply G)}
    {reply : Reply G}
    (told : job.replies refuse ({ graph, policy, now }, s) = before ++ reply :: after)
    (room : Reply.grants before + 1 < 2 ^ 32) :
    (∀ e, reply.granted = .error e → e.kind ≠ .invariantViolation) ∧
      ∀ mode request e,
        ((∃ d, Coordinator.tryAcquire mode request reply.asked = .error e d) ↔
          Claims.ofTarget reply.asked.graph request.target = .error e) ∧
        (Claims.ofTarget reply.asked.graph request.target = .error e →
          e = .emptyRequest ∨ ∃ id ∈ request.target.ids, e = .notFound id) := by
  have nothing : Coordinator.Within 0 ({ graph, policy, now } : Coordinator G) :=
    ⟨.empty, fun _ _ _ => Nat.le_refl 0⟩
  have expected := (job.passes refuse ({ graph, policy, now }, s) 0 nothing).2
  rw [told, Reply.asExpected_append, Nat.zero_add] at expected
  obtain ⟨sane, predictable⟩ := expected.2.1 room
  exact ⟨sane, fun mode request e => ⟨predictable mode request e, Claims.ofTarget_error⟩⟩

def aliceOnB : Request := { owner := "alice", target := ⟨["b"], false⟩ }

def bobOnB : Request := { owner := "bob", target := ⟨["b"], false⟩ }

/-- Bob reads `b`. Alice, who writes all below `r`, waits for him, and when he has tried to read `a`
and let go of `b`, there is no `b` any more. -/
def clearance : Job Adjacency Unit LockError Unit :=
  .andThen (.op (.others [.call (.tryAcquire .read bobOnB)])) fun _ =>
    .scope .write { owner := "alice", target := ⟨["r"], true⟩ } <|
      .andThen (.op (.acquire
        (fun _ => [.call (.tryAcquire .read { bobOnB with target := ⟨["a"], false⟩ }),
          .call (.release .read bobOnB), .reshape ⟨.ofList [("r", ["a"]), ("a", [])]⟩])
        .write aliceOnB))
      fun guard => .op (.settle guard true)

def grounds : Adjacency := ⟨.ofList [("r", ["a"]), ("a", []), ("b", [])]⟩

def clearanceReplies : List (Reply Adjacency) :=
  clearance.replies id ({ graph := grounds, policy := ⟨2, 0⟩ }, ())

theorem clearance_blameless : ∃ before reply, clearanceReplies = before ++ [reply] ∧
    before.map Reply.granted = [.ok true, .ok true, .ok false] ∧
    reply.granted = .error (.notFound "b") ∧
    (LockError.notFound "b").kind ≠ .invariantViolation ∧
    Claims.ofTarget reply.asked.graph ⟨[], true⟩ = .error .emptyRequest ∧
    ∃ d, Coordinator.tryAcquire .read { owner := "bob", target := ⟨[], true⟩ } reply.asked =
      .error .emptyRequest d := by
  have split : clearanceReplies.take 3 ++ clearanceReplies.drop 3 = clearanceReplies :=
    List.take_append_drop 3 clearanceReplies
  have first : (clearanceReplies.take 3).map Reply.granted = [.ok true, .ok true, .ok false] := by
    cbv
  have last : (clearanceReplies.drop 3).map Reply.granted = [.error (.notFound "b")] := by cbv
  have room : Reply.grants (clearanceReplies.take 3) + 1 < 2 ^ 32 := by
    have two : Reply.grants (clearanceReplies.take 3) = 2 := by cbv
    rw [two]
    decide
  obtain ⟨reply, only, refused⟩ := List.map_eq_singleton_iff.1 last
  rw [only] at split
  obtain ⟨sane, predictable⟩ :=
    clearance.refusals_blameless grounds ⟨2, 0⟩ 0 () id split.symm room
  exact ⟨_, reply, split.symm, first, refused, sane _ refused, rfl,
    (predictable .read _ .emptyRequest).1.2 rfl⟩

end Job

end SceneLock
