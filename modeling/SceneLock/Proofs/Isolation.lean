import SceneLock.Proofs.Exclusion

/-!
Owners are isolated: an operation for one owner changes neither the holds of another owner nor what
that owner has locked, although the mode of an object comes from the holds of all its holders.
-/

namespace SceneLock

open Std

/-- The mode of a sound record shows in the holds of any one of its holders. -/
theorem Record.Sound.writes_iff {r : Record} (s : r.Sound) {o : Owner} (holder : o ∈ r.holders) :
    r.mode = .write ↔ ∃ claim, (r.tally? o ⟨.write, claim⟩).isSome := by
  rw [mode_eq_write_iff]
  constructor
  · rintro ⟨writer, claim, writes⟩
    obtain rfl := s.alone writer claim writes o holder
    exact ⟨claim, writes⟩
  · rintro ⟨claim, writes⟩
    exact ⟨o, claim, writes⟩

namespace Table

/-- What an owner has locked follows from its own holds alone. -/
theorem Sound.isLocked_iff {t : Table} (s : t.Sound) {x : Id} {o : Owner} {mode : Mode}
    {tree : Bool} :
    t.isLocked x o mode tree ↔
      (∃ claim, (t.tally? x o ⟨mode, claim⟩).isSome ∧
        (claim = .direct ∨ ∃ root, claim = .tree root ∧ (tree ∨ root = x))) ∧
      (mode = .read → ∀ claim, t.tally? x o ⟨.write, claim⟩ = none) := by
  unfold isLocked
  simp only [tally?]
  cases found : t.records[x]? with
  | none => simp
  | some record =>
    simp only [Bool.and_eq_true, decide_eq_true_eq, Record.covers_iff, Option.bind_some]
    rw [and_comm]
    refine and_congr_right fun covered => ?_
    obtain ⟨claim, has, _⟩ := covered
    have writes := (s x record found).writes_iff (Record.mem_holders_of_isSome has)
    cases mode with
    | write => simpa using writes.2 ⟨claim, has⟩
    | read =>
      have reads : record.mode = .read ↔ ¬record.mode = .write := by cases record.mode <;> simp
      rw [reads, writes]
      simp

theorem Sound.isLocked_congr {t u : Table} (s : t.Sound) (after : u.Sound) {o : Owner}
    (same : ∀ x hold, u.tally? x o hold = t.tally? x o hold) (x : Id) (mode : Mode) (tree : Bool) :
    u.isLocked x o mode tree = t.isLocked x o mode tree := by
  rw [Bool.eq_iff_iff, after.isLocked_iff, s.isLocked_iff]
  simp only [same]

/-- A step for one owner leaves the counts of the others alone. -/
theorem Step.tally?_other {t u : Table} {owner o : Owner} (step : Step owner t u)
    (other : o ≠ owner) (x : Id) (hold : Hold) : u.tally? x o hold = t.tally? x o hold := by
  have apart : ¬owner = o := fun e => other e.symm
  cases step with
  | acquire claims mode now =>
    obtain ⟨_, _, e⟩ | ⟨_, _, _, e⟩ | ⟨_, _, e⟩ := t.tryAcquire_cases claims owner mode now
    · rw [e]; rfl
    · rw [e]; rfl
    · rw [e]
      simp only [leaves, tally?_granted, apart, false_and, if_false]
  | release ids mode tree =>
    rw [release_eq_releaseEach, tally?_releaseEach t owner o mode tree (nodup_distinct ids)]
    simp only [apart, false_and, if_false]
  | releaseOwner => rw [tally?_releaseOwner, if_neg apart]

end Table

namespace Coordinator

variable {G : Type} [ObjectGraph G]

/-- An operation on behalf of one owner, whatever the answer to it is. -/
inductive Act (owner : Owner) : Coordinator G → Coordinator G → Prop
  | takeClaims (c : Coordinator G) (claims : Claims) (mode : Mode) :
      Act owner c (leaves (takeClaims claims owner mode c))
  | releaseClaims (c : Coordinator G) (ids : List Id) (mode : Mode) (tree : Bool) :
      Act owner c { c with table := (c.table.release ids owner mode tree).2 }
  | tryAcquire (c : Coordinator G) (mode : Mode) (request : Request)
      (own : request.owner = owner) : Act owner c (leaves (tryAcquire mode request c))
  | acquire (c : Coordinator G) (mode : Mode) (request : Request) (own : request.owner = owner) :
      Act owner c (leaves (acquire mode request c))
  | release (c : Coordinator G) (mode : Mode) (request : Request) (own : request.owner = owner) :
      Act owner c (c.release mode request)
  | releaseGuard (c : Coordinator G) (guard : Guard) (own : guard.owner = owner) :
      Act owner c (guard.release c)
  | keepGuard (c : Coordinator G) (guard : Guard) (own : guard.owner = owner) :
      Act owner c (guard.keep c)
  | releaseOwner (c : Coordinator G) : Act owner c (c.releaseOwner owner).2

variable {c d : Coordinator G} {owner : Owner}

theorem Act.step (act : Act owner c d) : Step c d := by
  cases act with
  | takeClaims claims mode => exact .takeClaims c claims owner mode
  | releaseClaims ids mode tree => exact .releaseClaims c ids owner mode tree
  | tryAcquire mode request => exact .tryAcquire c mode request
  | acquire mode request => exact .acquire c (fun _ d => d) (fun _ _ kept => kept) mode request
  | release mode request => exact .release c mode request
  | releaseGuard guard => exact .releaseGuard c guard
  | keepGuard guard => exact .keepGuard c guard
  | releaseOwner => exact .releaseOwner c owner

theorem table_tryAcquire (c : Coordinator G) (mode : Mode) (request : Request) :
    (leaves (Coordinator.tryAcquire mode request c)).table = c.table ∨
      Table.Step request.owner c.table (leaves (Coordinator.tryAcquire mode request c)).table := by
  unfold Coordinator.tryAcquire
  split
  · exact .inl rfl
  · rw [table_takeClaims]
    exact .inr (.acquire _ mode c.now)

/-- An operation for an owner is a step on the table for that owner, if it touches the table. -/
theorem Act.table (act : Act owner c d) : d.table = c.table ∨ Table.Step owner c.table d.table := by
  cases act with
  | takeClaims claims mode =>
    rw [table_takeClaims]
    exact .inr (.acquire claims mode c.now)
  | releaseClaims ids mode tree => exact .inr (.release ids mode tree)
  | tryAcquire mode request own => exact own ▸ c.table_tryAcquire mode request
  | acquire mode request own =>
    subst own
    obtain ⟨e, t, n, same, made, ended⟩ | ⟨e, t, same, ended⟩ :=
      acquireAmid_cases (P := fun e => e.table = c.table) rfl (fun _ _ same => same)
        (fun _ _ same => same) mode request
    · have attempt := e.table_tryAcquire mode request
      rw [made, same] at attempt
      rw [Coordinator.acquire, ended]
      exact attempt
    · rw [Coordinator.acquire, ended]
      exact .inl same
  | release mode request own => exact own ▸ .inr (.release _ mode _)
  | releaseGuard guard own => exact own ▸ .inr (.release _ guard.mode _)
  | keepGuard => exact .inl rfl
  | releaseOwner =>
    rw [table_releaseOwner]
    exact .inr .releaseOwner

theorem Act.tally?_other (act : Act owner c d) {o : Owner} (other : o ≠ owner) (x : Id)
    (hold : Hold) : d.table.tally? x o hold = c.table.tally? x o hold := by
  obtain same | step := act.table
  · rw [same]
  · exact step.tally?_other other x hold

/-- Whatever is done for one owner, every other owner has the same holds as before, each as often,
and the same answers to the question what it has locked. -/
theorem Reachable.isolated (h : c.Reachable) (act : Act owner c d) {o : Owner}
    (other : o ≠ owner) :
    (∀ x hold, d.table.tally? x o hold = c.table.tally? x o hold) ∧
    (∀ x hold, d.table.count x o hold = c.table.count x o hold) ∧
    (∀ mode x tree, d.isLocked mode x o tree = c.isLocked mode x o tree) ∧
    (∀ mode x tree, d.assertLocked mode x o tree = c.assertLocked mode x o tree) := by
  have same := act.tally?_other other
  have locked (mode : Mode) (x : Id) (tree : Bool) :
      d.isLocked mode x o tree = c.isLocked mode x o tree :=
    h.table.sound.isLocked_congr (h.next act.step).table.sound same x mode tree
  refine ⟨same, fun x hold => ?_, locked, fun mode x tree => ?_⟩
  · rw [Table.count, same, Table.count]
  · rw [assertLocked, locked, assertLocked]

/-- An object `a` above an object `b`, with alice reading the tree and bob reading `b`. -/
def bothRead : Coordinator Adjacency :=
  let graph : Adjacency := ⟨.ofList [("a", ["b"]), ("b", [])]⟩
  let first := leaves (tryAcquire .read { owner := "alice", target := ⟨["a"], true⟩ } { graph })
  leaves (tryAcquire .read { owner := "bob", target := ⟨["b"], false⟩ } first)

theorem bothRead_isolated :
    let done := bothRead.release .read { owner := "bob", target := ⟨["b"], false⟩ }
    bothRead.Reachable ∧ bothRead.Act "bob" done ∧ "alice" ≠ "bob" ∧
      bothRead.isLocked .read "b" "bob" false ∧ done.isLocked .read "b" "bob" false = false ∧
      bothRead.isLocked .read "b" "alice" true ∧ done.isLocked .read "b" "alice" true ∧
      done.table.count "b" "alice" ⟨.read, .tree "a"⟩ = 1 := by
  intro done
  have reached : bothRead.Reachable :=
    .next (.next (.start _ default 0) (.tryAcquire _ _ _)) (.tryAcquire _ _ _)
  have act : bothRead.Act "bob" done := .release _ _ _ rfl
  have other : "alice" ≠ "bob" := by decide
  have isolated := reached.isolated act other
  have before : bothRead.isLocked .read "b" "alice" true := by cbv
  have counted : bothRead.table.count "b" "alice" ⟨.read, .tree "a"⟩ = 1 := by cbv
  exact ⟨reached, act, other, by cbv, by cbv, before,
    (isolated.2.2.1 .read "b" true).trans before, (isolated.2.1 "b" _).trans counted⟩

end Coordinator

end SceneLock
