import SceneLock.Proofs.Extensionality
import SceneLock.Proofs.Refusals
import SceneLock.Proofs.Requests

/-!
What the answer to an attempt depends on: the holds that bar its owner from an object it asks for,
and the counts that are at their bound already. The time of the attempt has no part in it.
-/

namespace SceneLock

open Std

namespace Table

variable {t u : Table} {claims : Claims} {x : Id} {owner : Owner} {mode : Mode}
  {now later : Instant}

/-- Tables that are full in the same places object to the same. -/
theorem Sound.stagedFault?_congr (s : t.Sound) (v : u.Sound) (filled : claims.Filled)
    (clear : t.conflict? claims owner mode = none) (too : u.conflict? claims owner mode = none)
    (full : ∀ x claim, claim ∈ claims.getD x ∅ →
      (u.count x owner ⟨mode, claim⟩ = UInt32.size - 1 ↔
        t.count x owner ⟨mode, claim⟩ = UInt32.size - 1)) :
    u.stagedFault? claims owner mode later = t.stagedFault? claims owner mode now := by
  have same : ∀ p ∈ claims.toList,
      (u.staged owner mode later p.1 p.2).fault? = (t.staged owner mode now p.1 p.2).fault? := by
    rintro ⟨x, on⟩ mem
    have laid : claims[x]? = some on := ExtTreeMap.mem_toList_iff_getElem?_eq_some.1 mem
    have here : claims.getD x ∅ = on := by simp [ExtTreeMap.getD_eq_getD_getElem?, laid]
    have some_claim : on ≠ ∅ := fun none => filled x (by rw [laid, none])
    have not_hollow (w : Table) : ¬w.Hollow claims owner x :=
      fun hollow => some_claim (by simpa [laid] using hollow.1)
    by_cases bound : ∃ claim ∈ on, t.count x owner ⟨mode, claim⟩ = UInt32.size - 1
    · obtain ⟨claim, mem, at_bound⟩ := bound
      rw [s.fault?_staged_full now mem at_bound,
        v.fault?_staged_full later mem ((full x claim (here ▸ mem)).2 at_bound)]
    · have room : ∀ claim ∈ on, t.count x owner ⟨mode, claim⟩ ≠ UInt32.size - 1 :=
        fun claim mem at_bound => bound ⟨claim, mem, at_bound⟩
      have room' : ∀ claim ∈ on, u.count x owner ⟨mode, claim⟩ ≠ UInt32.size - 1 :=
        fun claim mem at_bound => room claim mem ((full x claim (here ▸ mem)).1 at_bound)
      rw [s.staged_sound (s.conflict?_eq_none_iff.1 clear) laid room (not_hollow t),
        v.staged_sound (v.conflict?_eq_none_iff.1 too) laid room' (not_hollow u)]
  unfold stagedFault?
  rw [← List.head?_filterMap, ← List.head?_filterMap]
  congr 1
  apply List.filterMap_congr
  intro p mem
  exact congrArg (Option.map _) (same p mem)

end Table

variable {G : Type} [ObjectGraph G]

namespace Coordinator

/-- One attempt at a given time: the answer to it, and the coordinator that it leaves. -/
def attempt (c : Coordinator G) (now : Instant) (mode : Mode) (request : Request) :
    Except LockError Bool × Coordinator G :=
  let made := Coordinator.tryAcquire mode request { c with now }
  (verdict made, leaves made)

variable {c d : Coordinator G} {now later : Instant} {mode : Mode} {request : Request}

theorem attempt_of_error {e : LockError}
    (unresolved : Claims.ofTarget c.graph request.target = .error e) :
    c.attempt now mode request = (.error e, { c with now }) := by
  simp only [attempt, Coordinator.tryAcquire, unresolved]
  rfl

theorem attempt_cases {claims : Claims}
    (resolved : Claims.ofTarget c.graph request.target = .ok claims) (now : Instant)
    (mode : Mode) :
    (∃ id, c.table.conflict? claims request.owner mode = some id ∧
      c.attempt now mode request = (.ok false, { c with now }.note (.conflict id))) ∨
    (c.table.conflict? claims request.owner mode = none ∧
      ∃ e, c.table.stagedFault? claims request.owner mode now = some e ∧
        c.attempt now mode request = (.error e, { c with now })) ∨
    (c.table.conflict? claims request.owner mode = none ∧
      c.table.stagedFault? claims request.owner mode now = none ∧
      c.attempt now mode request =
        (.ok true, { c with now, table := c.table.granted claims request.owner mode now })) := by
  simp only [attempt, Coordinator.tryAcquire, resolved, takeClaims]
  obtain ⟨id, blocked, e⟩ | ⟨clear, fault, faulty, e⟩ | ⟨clear, passed, e⟩ :=
    c.table.tryAcquire_cases claims request.owner mode now
  · rw [e]
    exact .inl ⟨id, blocked, rfl⟩
  · rw [e]
    exact .inr (.inl ⟨clear, fault, faulty, rfl⟩)
  · rw [e]
    exact .inr (.inr ⟨clear, passed, rfl⟩)

@[simp] theorem graph_attempt (c : Coordinator G) (now : Instant) (mode : Mode)
    (request : Request) : (c.attempt now mode request).2.graph = c.graph := by
  cases resolved : Claims.ofTarget c.graph request.target with
  | error e => rw [attempt_of_error resolved]
  | ok claims =>
    obtain ⟨_, _, e⟩ | ⟨_, _, _, e⟩ | ⟨_, _, e⟩ := attempt_cases resolved now mode
    · rw [e]
      rfl
    · rw [e]
    · rw [e]

theorem reachable_attempt (h : c.table.Reachable) (now : Instant) (mode : Mode)
    (request : Request) : (c.attempt now mode request).2.table.Reachable :=
  reachable_tryAcquire (c := { c with now }) h mode request

theorem Reachable.attempt (h : c.Reachable) (now : Instant) (mode : Mode) (request : Request) :
    (c.attempt now mode request).2.Reachable :=
  .next (.next h (.wait c now)) (.tryAcquire _ mode request)

theorem answer_eq {claims : Claims}
    (resolved : Claims.ofTarget c.graph request.target = .ok claims) (now : Instant)
    (mode : Mode) :
    (c.attempt now mode request).1 =
      if c.table.conflict? claims request.owner mode = none then
        match c.table.stagedFault? claims request.owner mode now with
        | some e => .error e
        | none => .ok true
      else .ok false := by
  obtain ⟨id, blocked, e⟩ | ⟨clear, fault, faulty, e⟩ | ⟨clear, passed, e⟩ :=
    attempt_cases resolved now mode
  · rw [e, blocked, if_neg (Option.some_ne_none id)]
  · rw [e, if_pos clear, faulty]
  · rw [e, if_pos clear, passed]

/-- An attempt is refused if somebody is in the way on one of the objects it asks for. -/
theorem answer_eq_false_iff :
    (c.attempt now mode request).1 = .ok false ↔
      request.target.Known c.graph ∧ ∃ x claim, request.target.Asks c.graph x claim ∧
        c.table.admits x request.owner mode = false := by
  obtain ⟨known, claims, resolved, meet⟩ | ⟨unknown, e, unresolved⟩ :=
    Claims.ofTarget_eq_ok_or_error c.graph request.target
  · rw [answer_eq resolved, and_iff_right known]
    by_cases clear : c.table.conflict? claims request.owner mode = none
    · have free := (Table.clear_iff_asked meet).1 clear
      rw [if_pos clear]
      constructor
      · intro refused
        split at refused <;> cases refused
      · rintro ⟨x, claim, asked, barred⟩
        rw [free x claim asked] at barred
        cases barred
    · rw [if_neg clear]
      rw [Table.clear_iff_asked meet] at clear
      push Not at clear
      simpa only [Bool.not_eq_true, true_iff] using clear
  · rw [attempt_of_error unresolved]
    simp [unknown]

/-- An attempt is granted if nobody is in the way, and there is room for one more of each count. -/
theorem answer_eq_true_iff (s : c.table.Sound) :
    (c.attempt now mode request).1 = .ok true ↔
      request.target.Known c.graph ∧ ∀ x claim, request.target.Asks c.graph x claim →
        c.table.admits x request.owner mode ∧
          c.table.count x request.owner ⟨mode, claim⟩ ≠ UInt32.size - 1 := by
  obtain ⟨known, claims, resolved, meet⟩ | ⟨unknown, e, unresolved⟩ :=
    Claims.ofTarget_eq_ok_or_error c.graph request.target
  · have room_iff : ¬c.table.Full claims request.owner mode ↔
        ∀ x claim, request.target.Asks c.graph x claim →
          c.table.count x request.owner ⟨mode, claim⟩ ≠ UInt32.size - 1 := by
      simp only [Table.Full, meet.asked, not_exists, not_and, ne_eq]
    simp only [forall_and, ← Table.clear_iff_asked meet, ← room_iff]
    rw [answer_eq resolved, and_iff_right known]
    by_cases clear : c.table.conflict? claims request.owner mode = none
    · rw [if_pos clear, and_iff_right clear, ← s.passes_iff meet.filled clear now]
      cases c.table.stagedFault? claims request.owner mode now <;> simp
    · simp [clear]
  · rw [attempt_of_error unresolved]
    simp [unknown]

/-- With nobody in the way, an attempt for a hold that is counted to the bound already ends in an
error. -/
theorem answer_of_full (s : c.table.Sound) (known : request.target.Known c.graph)
    (free : ∀ x claim, request.target.Asks c.graph x claim → c.table.admits x request.owner mode)
    {x : Id} {claim : Claim} (asked : request.target.Asks c.graph x claim)
    (full : c.table.count x request.owner ⟨mode, claim⟩ = UInt32.size - 1) (now : Instant) :
    ∃ e, (c.attempt now mode request).1 = .error e ∧ e.kind = .invariantViolation := by
  obtain ⟨e, failed, kind⟩ := tryAcquire_of_full (c := { c with now }) s known free asked full
  exact ⟨e, by rw [attempt, failed]; rfl, kind⟩

/-- The same answer, be it an error, is given wherever the same objects are free and the same counts
are at their bound. -/
theorem answer_congr (s : c.table.Sound) (v : d.table.Sound) (graph : d.graph = c.graph)
    (admits : ∀ x claim, request.target.Asks c.graph x claim →
      d.table.admits x request.owner mode = c.table.admits x request.owner mode)
    (full : ∀ x claim, request.target.Asks c.graph x claim →
      (d.table.count x request.owner ⟨mode, claim⟩ = UInt32.size - 1 ↔
        c.table.count x request.owner ⟨mode, claim⟩ = UInt32.size - 1)) :
    (d.attempt later mode request).1 = (c.attempt now mode request).1 := by
  cases resolved : Claims.ofTarget c.graph request.target with
  | error e => rw [attempt_of_error resolved, attempt_of_error (graph ▸ resolved)]
  | ok claims =>
    have meet := Claims.meet_of_ofTarget resolved
    have clear_iff : d.table.conflict? claims request.owner mode = none ↔
        c.table.conflict? claims request.owner mode = none := by
      rw [Table.clear_iff_asked meet, Table.clear_iff_asked meet]
      refine forall₂_congr fun x claim => forall_congr' fun asked => ?_
      rw [admits x claim asked]
    rw [answer_eq resolved, answer_eq (graph ▸ resolved)]
    by_cases clear : c.table.conflict? claims request.owner mode = none
    · have too := clear_iff.2 clear
      have faults : d.table.stagedFault? claims request.owner mode later =
          c.table.stagedFault? claims request.owner mode now := by
        apply s.stagedFault?_congr v meet.filled clear too
        intro x claim laid
        exact full x claim ((meet.asked x claim).1 laid)
      rw [if_pos clear, if_pos too, faults]
    · rw [if_neg clear, if_neg (mt clear_iff.1 clear)]

theorem table_of_not_granted (failed : (c.attempt now mode request).1 ≠ .ok true) :
    (c.attempt now mode request).2.table = c.table := by
  cases resolved : Claims.ofTarget c.graph request.target with
  | error e => rw [attempt_of_error resolved]
  | ok claims =>
    obtain ⟨_, _, e⟩ | ⟨_, _, _, e⟩ | ⟨_, _, e⟩ := attempt_cases resolved now mode
    · rw [e]
      rfl
    · rw [e]
    · rw [e] at failed
      exact absurd rfl failed

open Classical in
theorem count_of_granted (s : c.table.Sound)
    (granted : (c.attempt now mode request).1 = .ok true) (x : Id) (o : Owner) (hold : Hold) :
    (c.attempt now mode request).2.table.count x o hold = c.table.count x o hold +
      if request.Wants c.graph mode x o hold then 1 else 0 := by
  obtain ⟨_, claims, resolved, meet⟩ | ⟨_, e, unresolved⟩ :=
    Claims.ofTarget_eq_ok_or_error c.graph request.target
  · obtain ⟨_, _, e⟩ | ⟨_, _, _, e⟩ | ⟨clear, passed, e⟩ := attempt_cases resolved now mode
    · rw [e] at granted
      cases granted
    · rw [e] at granted
      cases granted
    · rw [e]
      change (c.table.granted claims request.owner mode now).count x o hold = _
      rw [s.count_granted passed]
      congr 1
      apply if_congr _ rfl rfl
      rw [Request.Wants, meet.asked]
  · rw [attempt_of_error unresolved] at granted
    cases granted

open Classical in
/-- An attempt raises the counts of the holds it is for, if it is granted. -/
theorem count_attempt (s : c.table.Sound) (now : Instant) (mode : Mode) (request : Request)
    (x : Id) (o : Owner) (hold : Hold) :
    (c.attempt now mode request).2.table.count x o hold = c.table.count x o hold +
      if (c.attempt now mode request).1 = .ok true ∧ request.Wants c.graph mode x o hold then 1
      else 0 := by
  by_cases granted : (c.attempt now mode request).1 = .ok true
  · rw [count_of_granted s granted]
    simp only [granted, true_and]
  · rw [table_of_not_granted granted, if_neg fun both => granted both.1, Nat.add_zero]

end Coordinator

end SceneLock
