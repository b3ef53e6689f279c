import Mathlib
import SceneLock.Proofs.Admission
import SceneLock.Proofs.Turns

/-!
Acquisitions under interference. Between two attempts the other clients go on and the graph may
change. Which attempt decides, and what it decides, follows from what the others do alone.
-/

namespace SceneLock

namespace Coordinator

variable {G : Type} [ObjectGraph G] {c d : Coordinator G} {mode : Mode} {request : Request}

/-- An attempt now would be granted: the claims that the target comes to in the graph as it is turn
the table into `t`. -/
def Grants (c : Coordinator G) (mode : Mode) (request : Request) (t : Table) : Prop :=
  ∃ claims, Claims.ofTarget c.graph request.target = .ok claims ∧
    c.table.tryAcquire claims request.owner mode c.now = .ok .granted t

/-- An attempt now would meet a conflict. -/
def Contends (c : Coordinator G) (mode : Mode) (request : Request) : Prop :=
  ∃ claims id, Claims.ofTarget c.graph request.target = .ok claims ∧
    c.table.tryAcquire claims request.owner mode c.now = .ok (.conflict id) c.table

/-- An attempt now would come to nothing: the target names nothing, or an object that is not in the
graph as it is, or one of the counts has no room left in its 32 bits. -/
def Fails (c : Coordinator G) (mode : Mode) (request : Request) (e : LockError) : Prop :=
  (Claims.ofTarget c.graph request.target = .error e ∧
    (e = .emptyRequest ∨ ∃ id ∈ request.target.ids, e = .notFound id)) ∨
  (∃ claims, Claims.ofTarget c.graph request.target = .ok claims ∧
    c.table.Full claims request.owner mode ∧ e.kind = .invariantViolation)

omit [ObjectGraph G] in
theorem Alike.symm (alike : Alike c d) : Alike d c :=
  ⟨alike.graph.symm, alike.table.symm, alike.now.symm⟩

omit [ObjectGraph G] in
theorem Alike.trans {e : Coordinator G} (first : Alike c d) (second : Alike d e) : Alike c e :=
  ⟨second.graph.trans first.graph, second.table.trans first.table, second.now.trans first.now⟩

theorem Alike.contends (alike : Alike c d) (contends : d.Contends mode request) :
    c.Contends mode request := by
  obtain ⟨claims, id, resolved, made⟩ := contends
  rw [alike.graph] at resolved
  rw [alike.table, alike.now] at made
  exact ⟨claims, id, resolved, made⟩

theorem Alike.grants (alike : Alike c d) {t : Table} (grants : d.Grants mode request t) :
    c.Grants mode request t := by
  obtain ⟨claims, resolved, made⟩ := grants
  rw [alike.graph] at resolved
  rw [alike.table, alike.now] at made
  exact ⟨claims, resolved, made⟩

theorem Alike.fails (alike : Alike c d) {e : LockError} (fails : d.Fails mode request e) :
    c.Fails mode request e := by
  unfold Fails at fails ⊢
  rwa [alike.graph, alike.table] at fails

theorem Fails.kind_ne {e : LockError} (fails : c.Fails mode request e) :
    e.kind ≠ .lockingFailed := by
  obtain ⟨_, rfl | ⟨_, _, rfl⟩⟩ | ⟨_, _, _, kind⟩ := fails
  · decide
  · simp [LockError.kind]
  · simp [kind]

theorem Alike.failed (alike : Alike c d) {e : LockError}
    (failed : Coordinator.tryAcquire mode request d = .error e d) :
    Coordinator.tryAcquire mode request c = .error e c := by
  unfold Coordinator.tryAcquire Coordinator.takeClaims at failed ⊢
  rw [alike.graph, alike.table, alike.now] at failed
  cases resolved : Claims.ofTarget c.graph request.target with
  | error =>
    rw [resolved] at failed
    cases failed
    rfl
  | ok claims =>
    rw [resolved] at failed
    obtain ⟨_, _, e⟩ | ⟨_, _, _, e⟩ | ⟨_, _, e⟩ :=
      c.table.tryAcquire_cases claims request.owner mode c.now
    all_goals simp only [e, reduceCtorEq, EStateM.Result.error.injEq] at failed ⊢
    exact ⟨failed.1, trivial⟩

theorem Grants.tryAcquire_eq {t : Table} (grants : c.Grants mode request t) :
    tryAcquire mode request c = .ok true { c with table := t } := by
  obtain ⟨claims, resolved, made⟩ := grants
  simp only [Coordinator.tryAcquire, resolved, Coordinator.takeClaims, made]

theorem grants_of_tryAcquire (made : tryAcquire mode request c = .ok true d) :
    c.Grants mode request d.table ∧ d = { c with table := d.table } := by
  unfold Coordinator.tryAcquire Coordinator.takeClaims at made
  split at made
  · cases made
  · next claims resolved =>
    split at made
    · next granted =>
      cases made
      exact ⟨⟨claims, resolved, granted⟩, rfl⟩
    · cases made
    · cases made

theorem Contends.tryAcquire_eq (contends : c.Contends mode request) :
    ∃ id, tryAcquire mode request c = .ok false (c.note (.conflict id)) := by
  obtain ⟨claims, id, resolved, made⟩ := contends
  exact ⟨id, by simp only [Coordinator.tryAcquire, resolved, Coordinator.takeClaims, made]⟩

theorem Grants.not_contends {t : Table} (grants : c.Grants mode request t) :
    ¬c.Contends mode request := by
  intro contends
  obtain ⟨id, refused⟩ := contends.tryAcquire_eq
  cases refused.symm.trans grants.tryAcquire_eq

theorem contends_of_tryAcquire (made : tryAcquire mode request c = .ok false d) :
    c.Contends mode request := by
  unfold Coordinator.tryAcquire Coordinator.takeClaims at made
  split at made
  · cases made
  · next claims resolved =>
    obtain ⟨id, _, e⟩ | ⟨_, _, _, e⟩ | ⟨_, _, e⟩ :=
      c.table.tryAcquire_cases claims request.owner mode c.now
    · exact ⟨claims, id, resolved, e⟩
    all_goals
      rw [e] at made
      cases made

theorem fails_of_tryAcquire (s : c.table.Sound) {e : LockError}
    (made : tryAcquire mode request c = .error e d) : c.Fails mode request e := by
  unfold Coordinator.tryAcquire Coordinator.takeClaims at made
  obtain ⟨_, resolved⟩ | ⟨before, id, after, named, _, _, resolved⟩ | ⟨_, _, claims, resolved⟩ :=
    Claims.ofTarget_cases c.graph request.target
  all_goals rw [resolved] at made
  · cases made
    exact .inl ⟨resolved, .inl rfl⟩
  · cases made
    exact .inl ⟨resolved, .inr ⟨id, by simp [named], rfl⟩⟩
  · obtain ⟨_, _, ended⟩ | ⟨clear, fault, faulty, ended⟩ | ⟨_, _, ended⟩ :=
      c.table.tryAcquire_cases claims request.owner mode c.now
    all_goals simp only [ended] at made
    all_goals cases made
    have full := s.full_of_stagedFault? (Claims.filled_ofTarget resolved) clear faulty
    exact .inr ⟨claims, resolved, full, Table.kind_of_stagedFault? faulty⟩

/-- What the others alone make of the coordinator by the time of the attempt after the first `n`,
if `between n` is what they do after attempt `n`. -/
def amid (between : Nat → List (Turn G)) (c : Coordinator G) : Nat → Coordinator G
  | 0 => c
  | n + 1 => Turn.takeAll (between (n + 1)) (amid between c n)

theorem reachable_amid (between : Nat → List (Turn G)) (r : c.table.Reachable) (n : Nat) :
    (c.amid between n).table.Reachable := by
  induction n with
  | zero => exact r
  | succ n ih => exact Turn.reachable_takeAll ih _

/-- When attempt `n + 1` is made, the coordinator is as the others have made it, but for the log,
and all attempts before have met a conflict. -/
def Waiting (between : Nat → List (Turn G)) (mode : Mode) (request : Request) (c : Coordinator G)
    (n : Nat) (d : Coordinator G) : Prop :=
  Alike (c.amid between n) d ∧ ∀ k < n, (c.amid between k).Contends mode request

/-- The first attempt that meets no conflict decides. -/
theorem acquireAmid_outcome (r : c.table.Reachable) (between : Nat → List (Turn G)) (mode : Mode)
    (request : Request) :
    ∃ n < c.policy.attempts, (∀ k < n, (c.amid between k).Contends mode request) ∧
      ((∃ t d, (c.amid between n).Grants mode request t ∧
        acquireAmid (fun n => Turn.takeAll (between n)) mode request c =
          .ok ⟨request.target, request.owner, mode⟩ (d.note (.acquired (n + 1))) ∧
        Alike { c.amid between n with table := t } d) ∨
      (∃ d, n + 1 = c.policy.attempts ∧ (c.amid between n).Contends mode request ∧
        acquireAmid (fun n => Turn.takeAll (between n)) mode request c =
          .error (.gaveUp (aim mode request) c.policy.attempts) d ∧
        Alike (c.amid between n) d) ∨
      ∃ e d, (c.amid between n).Fails mode request e ∧
        tryAcquire mode request (c.amid between n) = .error e (c.amid between n) ∧
        acquireAmid (fun n => Turn.takeAll (between n)) mode request c = .error e d ∧
        Alike (c.amid between n) d) := by
  let P (n : Nat) (d : Coordinator G) : Prop :=
    ∃ k, n = k + 1 ∧ Waiting between mode request c k d
  have start : P 1 c := ⟨0, rfl, ⟨rfl, rfl, rfl⟩, fun k before => absurd before (Nat.not_lt_zero k)⟩
  have sound {n : Nat} {d : Coordinator G} (alike : Alike (c.amid between n) d) : d.table.Sound :=
    alike.table ▸ (reachable_amid between r n).sound
  have others (n : Nat) (d : Coordinator G) (id : Id) (here : P n d)
      (made : tryAcquire mode request d = .ok false (d.note (.conflict id))) :
      P (n + 1) (Turn.takeAll (between n) ((d.note (.conflict id)).note (.retrying n))) := by
    obtain ⟨k, rfl, alike, before⟩ := here
    refine ⟨k + 1, rfl, Turn.alike_takeAll ((alike.note _).note _) _, fun j earlier => ?_⟩
    obtain earlier | rfl := Nat.lt_succ_iff_lt_or_eq.1 earlier
    · exact before j earlier
    · exact alike.contends (contends_of_tryAcquire made)
  obtain ⟨_, d, t, _, last, ⟨n, rfl, alike, before⟩, made, e⟩ |
    ⟨_, d, fault, _, last, ⟨n, rfl, alike, before⟩, made, e⟩ |
    ⟨d, id, ⟨n, last, alike, before⟩, made, e⟩ := acquireAmid_steps mode request start others
  · obtain ⟨grants, left⟩ := grants_of_tryAcquire made
    refine ⟨n, last, before, .inl ⟨t.table, t, alike.grants grants, e, ?_⟩⟩
    rw [left]
    exact ⟨alike.graph, rfl, alike.now⟩
  · have fails := alike.fails (fails_of_tryAcquire (sound alike) made)
    refine ⟨n, last, before, .inr (.inr ⟨fault, _, fails, alike.failed made, e, ?_⟩)⟩
    split
    · exact alike.note _
    · exact alike
  · have contends := alike.contends (contends_of_tryAcquire made)
    refine ⟨n, by omega, before, .inr (.inl ⟨_, last.symm, contends, e, ?_⟩)⟩
    exact (alike.note _).note _

/-- Without interference all attempts go the same way. -/
theorem acquire_outcome (r : c.table.Reachable) (mode : Mode) (request : Request) :
    (∃ t d, c.Grants mode request t ∧
      acquire mode request c = .ok ⟨request.target, request.owner, mode⟩ d ∧
      Alike { c with table := t } d) ∨
    (∃ d, c.Contends mode request ∧
      acquire mode request c = .error (.gaveUp (aim mode request) c.policy.attempts) d ∧
      Alike c d) ∨
    ∃ e d, c.Fails mode request e ∧ tryAcquire mode request c = .error e c ∧
      acquire mode request c = .error e d ∧ Alike c d := by
  have alone (n : Nat) : c.amid (fun _ => []) n = c := by
    induction n with
    | zero => rfl
    | succ n ih => exact ih
  obtain ⟨n, _, _, ⟨t, d, outcome⟩ | ⟨d, _, outcome⟩ | ⟨e, d, outcome⟩⟩ :=
    acquireAmid_outcome r (fun _ => []) mode request
  all_goals rw [alone] at outcome
  · obtain ⟨grants, granted, alike⟩ := outcome
    exact .inl ⟨t, _, grants, granted, alike.note _⟩
  · exact .inr (.inl ⟨d, outcome⟩)
  · exact .inr (.inr ⟨e, d, outcome⟩)

/-- A request is refused because of a conflict, at once and after all attempts. -/
def Refuses (c : Coordinator G) (mode : Mode) (request : Request) : Prop :=
  (∃ d, tryAcquire mode request c = .ok false d) ∧
    ∃ e d, acquire mode request c = .error e d ∧ e.kind = .lockingFailed

/-- A request is granted, at once and when it is ready to wait. -/
def Accepts (c : Coordinator G) (mode : Mode) (request : Request) : Prop :=
  (∃ d, tryAcquire mode request c = .ok true d) ∧ ∃ guard d, acquire mode request c = .ok guard d

theorem Contends.refuses (contends : c.Contends mode request) (r : c.table.Reachable) :
    c.Refuses mode request := by
  obtain ⟨id, refused⟩ := contends.tryAcquire_eq
  obtain ⟨t, d, grants, _⟩ | ⟨d, _, gaveUp, _⟩ | ⟨e, d, _, failed, _⟩ :=
    acquire_outcome r mode request
  · exact absurd contends grants.not_contends
  · exact ⟨⟨_, refused⟩, _, d, gaveUp, rfl⟩
  · cases refused.symm.trans failed

theorem Grants.accepts {t : Table} (grants : c.Grants mode request t) (r : c.table.Reachable) :
    c.Accepts mode request := by
  obtain ⟨t, d, _, granted, _⟩ | ⟨d, contends, _⟩ | ⟨e, d, _, failed, _⟩ :=
    acquire_outcome r mode request
  · exact ⟨⟨_, grants.tryAcquire_eq⟩, _, d, granted⟩
  · exact absurd contends grants.not_contends
  · cases grants.tryAcquire_eq.symm.trans failed

theorem Accepts.not_refuses (accepts : c.Accepts mode request) : ¬c.Refuses mode request := by
  rintro ⟨⟨_, refused⟩, _⟩
  obtain ⟨⟨_, granted⟩, _⟩ := accepts
  cases refused.symm.trans granted

/-- Whatever others do in between, an acquisition is granted, gives up or fails as the first attempt
that meets no conflict does. It makes at least one attempt and at most as many as its policy allows.
If it is granted, it leaves what the others make of the table with that one grant, and otherwise it
leaves just what the others make of it. -/
theorem Reachable.first_free_attempt_decides (h : c.Reachable) (between : Nat → List (Turn G))
    (mode : Mode) (request : Request) :
    let world := c.amid between
    let attempts := max 1 c.policy.maxAttempts
    let outcome := acquireAmid (fun n => Turn.takeAll (between n)) mode request c
    ∃ n < attempts, (∀ k < n, (world k).Contends mode request) ∧
      ((∃ guard d, outcome = .ok guard d) ↔ ∃ t, (world n).Grants mode request t) ∧
      (∀ guard d, outcome = .ok guard d →
        guard = ⟨request.target, request.owner, mode⟩ ∧ (world n).Grants mode request d.table ∧
        d.graph = (world n).graph ∧ d.log.head? = some (.acquired (n + 1))) ∧
      ((∃ e d, outcome = .error e d ∧ e.kind = .lockingFailed) ↔
        ∀ k < attempts, (world k).Contends mode request) ∧
      (∀ e d, outcome = .error e d →
        d.table = (world n).table ∧ d.graph = (world n).graph ∧
        (e = .gaveUp (aim mode request) attempts ∧ n + 1 = attempts ∨
          (world n).Fails mode request e)) := by
  intro world attempts outcome
  obtain ⟨n, last, before, ⟨t, d, grants, e, alike⟩ | ⟨d, all, contends, e, alike⟩ |
    ⟨fault, d, fails, failed, e, alike⟩⟩ := acquireAmid_outcome h.table between mode request
  · have ended : outcome = .ok _ _ := e
    have notAll : ¬∀ k < attempts, (world k).Contends mode request :=
      fun all => grants.not_contends (all n last)
    refine ⟨n, last, before, ?_⟩
    simp only [ended, EStateM.Result.ok.injEq, reduceCtorEq, false_and, exists_false, notAll]
    refine ⟨⟨fun _ => ⟨t, grants⟩, fun _ => ⟨_, _, rfl, rfl⟩⟩, ?_, trivial, by simp⟩
    rintro _ _ ⟨rfl, rfl⟩
    exact ⟨rfl, by rw [show (d.note _).table = d.table from rfl, alike.table]; exact grants,
      alike.graph, rfl⟩
  · have ended : outcome = .error _ _ := e
    have all : ∀ k < attempts, (world k).Contends mode request := by
      intro k within
      obtain earlier | rfl : k < n ∨ k = n := by
        have : n + 1 = attempts := all
        omega
      · exact before k earlier
      · exact contends
    refine ⟨n, last, before, ?_⟩
    simp only [ended, EStateM.Result.error.injEq, reduceCtorEq, exists_false, false_iff]
    refine ⟨fun ⟨_, grants⟩ => grants.not_contends contends, by simp, ?_, ?_⟩
    · exact ⟨fun _ => all, fun _ => ⟨_, _, ⟨rfl, rfl⟩, rfl⟩⟩
    · rintro _ _ ⟨rfl, rfl⟩
      exact ⟨alike.table, alike.graph, .inl ⟨rfl, ‹_›⟩⟩
  · have ended : outcome = .error _ _ := e
    have notGranted : ¬∃ t, (world n).Grants mode request t :=
      fun ⟨t, grants⟩ => by cases failed.symm.trans grants.tryAcquire_eq
    have notAll : ¬∀ k < attempts, (world k).Contends mode request := by
      intro all
      obtain ⟨id, refused⟩ := (all n last).tryAcquire_eq
      cases failed.symm.trans refused
    refine ⟨n, last, before, ?_⟩
    simp only [ended, EStateM.Result.error.injEq, reduceCtorEq, exists_false, false_iff, notAll,
      iff_false]
    refine ⟨notGranted, by simp, ?_, ?_⟩
    · rintro ⟨_, _, ⟨rfl, rfl⟩, kind⟩
      exact fails.kind_ne kind
    · rintro _ _ ⟨rfl, rfl⟩
      exact ⟨alike.table, alike.graph, .inr fails⟩

/-- Bob has read `x` as often as 32 bits can count, and there is nobody but him. When he asks for it
once more, he gets no lock, though he meets no conflict and asks for nothing that is not there. -/
theorem last_count_fails :
    let c := bobReads (UInt32.size - 1)
    c.Reachable ∧ bobOnX.target.Known c.graph ∧ ¬c.Contends .read bobOnX ∧
      ∃ e d, acquire .read bobOnX c = .error e d ∧ e.kind = .invariantViolation := by
  intro c
  have few : UInt32.size - 1 < UInt32.size := by decide
  have reached : c.Reachable := reachable_bobReads _
  obtain ⟨graph, counts⟩ : c.graph = twoObjects ∧ _ := count_bobReads few
  have known : bobOnX.target.Known c.graph := by
    rw [graph]
    exact known_twoObjects (by decide) (by decide)
  have asked : bobOnX.target.Asks c.graph "x" .direct := ⟨rfl, List.mem_singleton_self _⟩
  have full : c.table.count "x" "bob" ⟨.read, .direct⟩ = UInt32.size - 1 :=
    (counts _ _ _).trans (if_pos ⟨rfl, rfl, rfl⟩)
  obtain ⟨e, failed, kind⟩ := tryAcquire_of_full reached.table.sound known
    (fun x _ _ => admits_bobReads few x "bob") asked full
  have uncontended : ¬c.Contends .read bobOnX := by
    intro contends
    obtain ⟨id, refused⟩ := contends.tryAcquire_eq
    cases failed.symm.trans refused
  refine ⟨reached, known, uncontended, ?_⟩
  obtain ⟨t, d, grants, _⟩ | ⟨d, contends, _⟩ | ⟨e', d, _, failed', ended, _⟩ :=
    acquire_outcome reached.table .read bobOnX
  · cases failed.symm.trans grants.tryAcquire_eq
  · exact absurd contends uncontended
  · cases failed.symm.trans failed'
    exact ⟨e, d, ended, kind⟩

/-- Bob writes `a` below `r`. There are three attempts. -/
def contended : Coordinator Adjacency :=
  leaves (tryAcquire .write { owner := "bob", target := ⟨["a"], false⟩ }
    { graph := ⟨.ofList [("r", ["a"]), ("a", [])]⟩, policy := ⟨3, 0⟩ })

/-- After the second attempt bob lets go, and `b` is put below `r`. -/
def handover : Nat → List (Turn Adjacency)
  | 2 => [.call (.release .write { owner := "bob", target := ⟨["a"], false⟩ }),
      .reshape ⟨.ofList [("r", ["a", "b"]), ("a", []), ("b", [])]⟩]
  | _ => []

/-- Alice acquires all below `r` meanwhile. -/
def handedOver : EStateM.Result LockError (Coordinator Adjacency) Guard :=
  acquireAmid (fun n => Turn.takeAll (handover n)) .write
    { owner := "alice", target := ⟨["r"], true⟩ } contended

theorem handover_third_attempt_decides :
    let alice : Request := { owner := "alice", target := ⟨["r"], true⟩ }
    contended.Reachable ∧ ∃ d, handedOver = .ok ⟨⟨["r"], true⟩, "alice", .write⟩ d ∧
      (∀ k < 2, (contended.amid handover k).Contends .write alice) ∧
      (contended.amid handover 2).Grants .write alice d.table ∧
      d.table.count "b" "alice" ⟨.write, .tree "r"⟩ = 1 := by
  intro alice
  have reached : contended.Reachable := .next (.start _ _ 0) (.tryAcquire _ _ _)
  obtain ⟨n, _, before, _, granted, _, _⟩ :=
    reached.first_free_attempt_decides handover .write alice
  have ended : handedOver = .ok ⟨⟨["r"], true⟩, "alice", .write⟩ (leaves handedOver) := by cbv
  have noted : (leaves handedOver).log.head? = some (.acquired 3) := by cbv
  have counted : (leaves handedOver).table.count "b" "alice" ⟨.write, .tree "r"⟩ = 1 := by cbv
  obtain ⟨_, grants, _, third⟩ := granted _ _ ended
  obtain rfl : n = 2 := by simpa using third.symm.trans noted
  exact ⟨reached, _, ended, before, grants, counted⟩

end Coordinator

end SceneLock
