import SceneLock.Coordinator
import SceneLock.Proofs.Counts

/-!
How an attempt at a lock can end, and how a number of attempts can.
-/

namespace SceneLock

open Std

/-- The state that an operation leaves behind, whether it succeeds or not. -/
def leaves {ε σ α : Type} : EStateM.Result ε σ α → σ
  | .ok _ s | .error _ s => s

section

variable {ε σ : Type} {P Q : Nat → σ → Prop} {attempt : Nat → EStateM ε σ Bool}
  {pause : Nat → EStateM ε σ Unit}

/-- If `P n` holds when attempt `n` is made, it being contended leaves `Q n`, and the pause after
that leads on to `P (n + 1)`, then one of the attempts succeeds or fails, or the last one leaves
`Q` behind. -/
theorem retryFrom_cases (contended : ∀ n s u, P n s → attempt n s = .ok false u → Q n u)
    (pauses : ∀ n s, Q n s → ∃ u, pause n s = .ok () u ∧ P (n + 1) u) (giveUp : ε) (left n : Nat)
    (s : σ) (start : P n s) :
    (∃ m u t, n ≤ m ∧ m ≤ n + left ∧ P m u ∧ attempt m u = .ok true t ∧
      retryFrom giveUp attempt pause (left + 1) n s = .ok m t) ∨
    (∃ m u e t, n ≤ m ∧ m ≤ n + left ∧ P m u ∧ attempt m u = .error e t ∧
      retryFrom giveUp attempt pause (left + 1) n s = .error e t) ∨
    ∃ t, Q (n + left) t ∧ retryFrom giveUp attempt pause (left + 1) n s = .error giveUp t := by
  induction left generalizing n s with
  | zero =>
    simp only [retryFrom, bind, EStateM.bind]
    cases made : attempt n s with
    | error e t => exact .inr (.inl ⟨n, s, e, t, Nat.le_refl _, Nat.le_refl _, start, made, rfl⟩)
    | ok answer t =>
      cases answer with
      | true => exact .inl ⟨n, s, t, Nat.le_refl _, Nat.le_refl _, start, made, rfl⟩
      | false => exact .inr (.inr ⟨t, contended n s t start made, rfl⟩)
  | succ left ih =>
    rw [retryFrom]
    simp only [bind, EStateM.bind]
    cases made : attempt n s with
    | error e t =>
      exact .inr (.inl ⟨n, s, e, t, Nat.le_refl _, Nat.le_add_right _ _, start, made, rfl⟩)
    | ok answer t =>
      cases answer with
      | true => exact .inl ⟨n, s, t, Nat.le_refl _, Nat.le_add_right _ _, start, made, rfl⟩
      | false =>
        obtain ⟨u, waited, next⟩ := pauses n t (contended n s t start made)
        simp only [Bool.false_eq_true, if_false, ne_eq, Nat.succ_ne_zero, not_false_eq_true,
          if_true, EStateM.bind, waited]
        obtain ⟨m, v, t, from_next, within, made, e⟩ |
          ⟨m, v, fault, t, from_next, within, made, e⟩ | ⟨t, done, e⟩ := ih (n + 1) u next
        · exact .inl ⟨m, v, t, by omega, by omega, made, e⟩
        · exact .inr (.inl ⟨m, v, fault, t, by omega, by omega, made, e⟩)
        · rw [Nat.add_right_comm] at done
          exact .inr (.inr ⟨t, done, e⟩)

end

theorem RetryPolicy.attempts_eq_succ (p : RetryPolicy) : p.attempts = (p.attempts - 1) + 1 := by
  have : 1 ≤ p.attempts := Nat.le_max_left _ _
  omega

namespace Coordinator

variable {G : Type} [ObjectGraph G]

/-- An attempt is granted, meets a conflict, or fails. Only in the first case it takes anything. -/
theorem tryAcquire_cases (c : Coordinator G) (mode : Mode) (request : Request) :
    (∃ claims, Claims.ofTarget c.graph request.target = .ok claims ∧
      c.table.conflict? claims request.owner mode = none ∧
      c.table.stagedFault? claims request.owner mode c.now = none ∧
      tryAcquire mode request c =
        .ok true { c with table := c.table.granted claims request.owner mode c.now }) ∨
    (∃ id, tryAcquire mode request c = .ok false (c.note (.conflict id))) ∨
    ∃ e, tryAcquire mode request c = .error e c := by
  unfold Coordinator.tryAcquire
  cases Claims.ofTarget c.graph request.target with
  | error e => exact .inr (.inr ⟨e, rfl⟩)
  | ok claims =>
    simp only [takeClaims]
    obtain ⟨id, _, e⟩ | ⟨_, fault, _, e⟩ | ⟨clear, passed, e⟩ :=
      c.table.tryAcquire_cases claims request.owner mode c.now
    · exact .inr (.inl ⟨id, by rw [e]⟩)
    · exact .inr (.inr ⟨fault, by rw [e]⟩)
    · exact .inl ⟨claims, rfl, clear, passed, by rw [e]⟩

theorem eq_of_tryAcquire_error {c d : Coordinator G} {mode : Mode} {request : Request}
    {e : LockError} (made : tryAcquire mode request c = .error e d) : d = c := by
  obtain ⟨_, _, _, _, ended⟩ | ⟨_, ended⟩ | ⟨_, ended⟩ := c.tryAcquire_cases mode request
  all_goals rw [ended] at made
  all_goals cases made
  rfl

/-- What is tried for, in the words of the error that says it was tried for in vain. -/
def aim (mode : Mode) (request : Request) : String :=
  s!"cannot {mode.text} lock {request.describe}"

/-- If `P n` holds when attempt `n` is made, and the others lead from one attempt on to the next,
then one of the attempts is granted and ends the acquisition, or one fails and ends it, or all of
them are contended. -/
theorem acquireAmid_steps {P : Nat → Coordinator G → Prop} {c : Coordinator G}
    {meanwhile : Nat → Coordinator G → Coordinator G} (mode : Mode) (request : Request)
    (start : P 1 c)
    (others : ∀ n d id, P n d → tryAcquire mode request d = .ok false (d.note (.conflict id)) →
      P (n + 1) (meanwhile n ((d.note (.conflict id)).note (.retrying n)))) :
    (∃ n d t, 1 ≤ n ∧ n ≤ c.policy.attempts ∧ P n d ∧ tryAcquire mode request d = .ok true t ∧
      acquireAmid meanwhile mode request c =
        .ok ⟨request.target, request.owner, mode⟩ (t.note (.acquired n))) ∨
    (∃ n d e, 1 ≤ n ∧ n ≤ c.policy.attempts ∧ P n d ∧ tryAcquire mode request d = .error e d ∧
      acquireAmid meanwhile mode request c =
        .error e (if e.isContention then d.note (.failed e) else d)) ∨
    ∃ d id, P c.policy.attempts d ∧
      tryAcquire mode request d = .ok false (d.note (.conflict id)) ∧
      acquireAmid meanwhile mode request c =
        .error (.gaveUp (aim mode request) c.policy.attempts) ((d.note (.conflict id)).note
          (.failed (.gaveUp (aim mode request) c.policy.attempts))) := by
  let Q (n : Nat) (u : Coordinator G) : Prop := ∃ d id, u = d.note (.conflict id) ∧ P n d ∧
    tryAcquire mode request d = .ok false u
  have contended (n : Nat) (d u : Coordinator G) (here : P n d)
      (made : tryAcquire mode request d = .ok false u) : Q n u := by
    obtain ⟨_, _, _, _, e⟩ | ⟨id, e⟩ | ⟨_, e⟩ := d.tryAcquire_cases mode request
    all_goals rw [e] at made
    all_goals cases made
    exact ⟨d, id, rfl, here, e⟩
  let pause (n : Nat) : Action G Unit := modify fun c => meanwhile n (c.note (.retrying n))
  have pauses (n : Nat) (u : Coordinator G) (after : Q n u) :
      ∃ v, pause n u = .ok () v ∧ P (n + 1) v := by
    obtain ⟨d, id, rfl, here, made⟩ := after
    exact ⟨_, rfl, others n d id here made⟩
  have outcome := retryFrom_cases contended pauses (.gaveUp (aim mode request) c.policy.attempts)
    (c.policy.attempts - 1) 1 c start
  have bound : 1 + (c.policy.attempts - 1) = c.policy.attempts := by
    rw [Nat.add_comm, ← c.policy.attempts_eq_succ]
  rw [← c.policy.attempts_eq_succ, bound] at outcome
  obtain ⟨n, d, t, first, last, here, made, e⟩ | ⟨n, d, fault, t, first, last, here, made, e⟩ |
    ⟨_, ⟨d, id, rfl, here, made⟩, e⟩ := outcome
  · have ended : attemptsAmid meanwhile mode request c = .ok n t := e
    exact .inl ⟨n, d, t, first, last, here, made, by simp only [acquireAmid, ended]⟩
  · obtain rfl := eq_of_tryAcquire_error made
    have ended : attemptsAmid meanwhile mode request c = .error fault t := e
    exact .inr (.inl ⟨n, t, fault, first, last, here, made, by simp only [acquireAmid, ended]⟩)
  · have ended : attemptsAmid meanwhile mode request c =
        .error (.gaveUp (aim mode request) c.policy.attempts) (d.note (.conflict id)) := e
    refine .inr (.inr ⟨d, id, here, made, ?_⟩)
    simp only [acquireAmid, ended]
    rfl

/-- What others and the log leave alone holds whenever an acquisition makes an attempt. The first
attempt that is granted ends the acquisition, and if none is, nothing was taken. -/
theorem acquireAmid_cases {P : Coordinator G → Prop} {c : Coordinator G} (start : P c)
    {meanwhile : Nat → Coordinator G → Coordinator G}
    (others : ∀ n d, P d → P (meanwhile n d)) (noted : ∀ d entry, P d → P (d.note entry))
    (mode : Mode) (request : Request) :
    (∃ d t n, P d ∧ tryAcquire mode request d = .ok true t ∧
      acquireAmid meanwhile mode request c =
        .ok ⟨request.target, request.owner, mode⟩ (t.note (.acquired n))) ∨
    ∃ e d, P d ∧ acquireAmid meanwhile mode request c = .error e d := by
  obtain ⟨n, d, t, _, _, kept, made, e⟩ | ⟨n, d, fault, _, _, kept, _, e⟩ | ⟨d, id, kept, _, e⟩ :=
    acquireAmid_steps (P := fun _ => P) mode request start
      fun n d id kept _ => others n _ (noted _ _ (noted _ _ kept))
  · exact .inl ⟨d, t, n, kept, made, e⟩
  · refine .inr ⟨fault, _, ?_, e⟩
    split
    · exact noted d _ kept
    · exact kept
  · exact .inr ⟨_, _, noted _ _ (noted _ _ kept), e⟩

/-- The same in all but the log. -/
structure Alike (c d : Coordinator G) : Prop where
  graph : d.graph = c.graph
  table : d.table = c.table
  now : d.now = c.now

/-- Without others in between, an acquisition comes to one granted attempt, or to nothing. -/
theorem acquire_cases (c : Coordinator G) (mode : Mode) (request : Request) :
    (∃ claims d, Claims.ofTarget c.graph request.target = .ok claims ∧
      c.table.stagedFault? claims request.owner mode c.now = none ∧
      acquire mode request c = .ok ⟨request.target, request.owner, mode⟩ d ∧
      Alike { c with table := c.table.granted claims request.owner mode c.now } d) ∨
    ∃ e d, acquire mode request c = .error e d ∧ Alike c d := by
  have alike : Alike c c := ⟨rfl, rfl, rfl⟩
  obtain ⟨d, t, n, ⟨graph, table, now⟩, made, e⟩ | ⟨e, d, kept, ended⟩ :=
    acquireAmid_cases alike (fun _ _ kept => kept)
      (fun _ _ kept => ⟨kept.graph, kept.table, kept.now⟩) mode request
  · obtain ⟨claims, resolved, _, passed, granted⟩ | ⟨_, e⟩ | ⟨_, e⟩ :=
      d.tryAcquire_cases mode request
    · rw [granted] at made
      cases made
      rw [graph] at resolved
      rw [table, now] at passed e
      exact .inl ⟨claims, _, resolved, passed, e, graph, rfl, rfl⟩
    · rw [e] at made
      cases made
    · rw [e] at made
      cases made
  · exact .inr ⟨e, d, ended, kept⟩

end Coordinator

end SceneLock
