import Mathlib
import SceneLock.Proofs.Acquisition
import SceneLock.Proofs.Requests

/-!
What stands in the way of an acquisition: the holds that bar its owner from an object, and the
counts that are at their bound already. Nobody is barred by their own holds in the same mode, so a
request that was granted is granted again and again, until one of its counts has no room left.
-/

namespace SceneLock

open Std

/-- The holds that keep an owner from a lock on the same object: for reading, all write holds; for
writing, all holds of others. -/
def Bars (owner : Owner) : Mode → Owner → Hold → Prop
  | .read, _, hold => hold.mode = .write
  | .write, holder, _ => holder ≠ owner

/-- Nobody is barred by what was granted to them in the same mode. -/
theorem not_bars_own (owner : Owner) (mode : Mode) (claim : Claim) :
    ¬Bars owner mode owner ⟨mode, claim⟩ := by
  intro bars
  cases mode with
  | read => cases bars
  | write => exact bars rfl

theorem not_bars_read (owner holder : Owner) (claim : Claim) :
    ¬Bars owner .read holder ⟨.read, claim⟩ := nofun

theorem Record.Sound.obstructs_iff {r : Record} (s : r.Sound) {owner : Owner} {mode : Mode} :
    r.Obstructs owner mode ↔
      ∃ holder hold, Bars owner mode holder hold ∧ (r.tally? holder hold).isSome := by
  cases mode with
  | read =>
    rw [Obstructs, mode_eq_write_iff]
    constructor
    · rintro ⟨holder, claim, has⟩
      exact ⟨holder, ⟨.write, claim⟩, rfl, has⟩
    · rintro ⟨holder, ⟨_, claim⟩, rfl, has⟩
      exact ⟨holder, claim, has⟩
  | write =>
    simp only [Obstructs, s.mem_holders_iff]
    constructor
    · rintro ⟨holder, ⟨hold, has⟩, other⟩
      exact ⟨holder, hold, other, has⟩
    · rintro ⟨holder, hold, other, has⟩
      exact ⟨holder, ⟨hold, has⟩, other⟩

namespace Table

variable {t u : Table} {claims : Claims} {x : Id} {owner : Owner} {mode : Mode} {now : Instant}

theorem clear_iff :
    t.conflict? claims owner mode = none ↔ ∀ x ∈ claims, t.admits x owner mode := by
  simp [conflict?]

/-- Claims meet no conflict if their owner is admitted wherever the target asks for something. -/
theorem clear_iff_asked {G : Type} [ObjectGraph G] {g : G} {target : Target}
    (meet : claims.Meet g target) :
    t.conflict? claims owner mode = none ↔
      ∀ x claim, target.Asks g x claim → t.admits x owner mode := by
  simp only [clear_iff, meet.mem_iff, forall_exists_index]

theorem Sound.admits_iff (s : t.Sound) :
    t.admits x owner mode ↔ ∀ holder hold, Bars owner mode holder hold →
      t.count x holder hold = 0 := by
  have none_left (holder : Owner) (hold : Hold) :
      t.count x holder hold = 0 ↔ ¬(t.tally? x holder hold).isSome := by
    rw [← s.count_pos_iff]
    omega
  simp only [none_left, tally?]
  unfold Table.admits
  cases found : t.records[x]? with
  | none => simp
  | some record =>
    simp only [(s x record found).admits_iff, (s x record found).obstructs_iff, Option.bind_some,
      not_exists, not_and]

/-- Whoever is admitted stays so while what bars them does not grow. -/
theorem Sound.admits_mono (s : t.Sound) (v : u.Sound)
    (fewer : ∀ holder hold, Bars owner mode holder hold →
      u.count x holder hold ≤ t.count x holder hold)
    (free : t.admits x owner mode) : u.admits x owner mode := by
  rw [v.admits_iff]
  intro holder hold bars
  have nothing := s.admits_iff.1 free holder hold bars
  have less := fewer holder hold bars
  omega

theorem Sound.admits_congr (s : t.Sound) (v : u.Sound)
    (same : ∀ holder hold, Bars owner mode holder hold →
      u.count x holder hold = t.count x holder hold) :
    u.admits x owner mode = t.admits x owner mode := by
  rw [Bool.eq_iff_iff]
  constructor
  · exact v.admits_mono s fun holder hold bars => (same holder hold bars).ge
  · exact s.admits_mono v fun holder hold bars => (same holder hold bars).le

/-- One of the counts that would be raised is at its bound already. -/
def Full (t : Table) (claims : Claims) (owner : Owner) (mode : Mode) : Prop :=
  ∃ id claim, claim ∈ claims.getD id ∅ ∧ t.count id owner ⟨mode, claim⟩ = UInt32.size - 1

theorem kind_of_stagedFault? {e : LockError}
    (faulty : t.stagedFault? claims owner mode now = some e) : e.kind = .invariantViolation := by
  obtain ⟨⟨id, on⟩, _, found⟩ := List.exists_of_findSome?_eq_some faulty
  obtain ⟨fault, _, rfl⟩ := Option.map_eq_some_iff.1 found
  rfl

/-- Claims on every object that is listed are granted or refused, if there is room for them. -/
theorem Sound.full_of_stagedFault? (s : t.Sound) (filled : claims.Filled)
    (clear : t.conflict? claims owner mode = none) {e : LockError}
    (faulty : t.stagedFault? claims owner mode now = some e) : t.Full claims owner mode := by
  refine Classical.not_not.1 fun notFull => ?_
  have room : ∀ id claim, claim ∈ claims.getD id ∅ →
      t.count id owner ⟨mode, claim⟩ ≠ UInt32.size - 1 :=
    fun id claim laid full => notFull ⟨id, claim, laid, full⟩
  obtain ⟨id, _, hollow, _⟩ :=
    s.stagedFault?_eq_some (s.conflict?_eq_none_iff.1 clear) room e faulty
  exact filled id hollow.1

theorem Sound.fault?_staged_full (s : t.Sound) (now : Instant) {on : ExtTreeSet Claim}
    {claim : Claim} (laid : claim ∈ on) (full : t.count x owner ⟨mode, claim⟩ = UInt32.size - 1) :
    (t.staged owner mode now x on).fault? = some (.zeroCount owner) := by
  apply (s.tidy_base x now).fault?_grant_full laid
  rw [count_base]
  exact full

/-- Where claims meet no conflict, nothing but a count at its bound gets into their way. -/
theorem Sound.passes_iff (s : t.Sound) (filled : claims.Filled)
    (clear : t.conflict? claims owner mode = none) (now : Instant) :
    t.stagedFault? claims owner mode now = none ↔ ¬t.Full claims owner mode := by
  constructor
  · rintro passed ⟨x, claim, laid, full⟩
    rw [ExtTreeMap.getD_eq_getD_getElem?] at laid
    cases found : claims[x]? with
    | none => simp [found] at laid
    | some on =>
      rw [found, Option.getD_some] at laid
      have fine := List.findSome?_eq_none_iff.1 passed (x, on)
        (ExtTreeMap.mem_toList_iff_getElem?_eq_some.2 found)
      simp [s.fault?_staged_full now laid full] at fine
  · intro room
    cases faulty : t.stagedFault? claims owner mode now with
    | none => rfl
    | some e => exact absurd (s.full_of_stagedFault? filled clear faulty) room

/-- The check finds the count that has gone past its bound, and nothing is taken. -/
theorem Sound.tryAcquire_of_full (s : t.Sound) (filled : claims.Filled)
    (clear : t.conflict? claims owner mode = none) (full : t.Full claims owner mode)
    (now : Instant) :
    ∃ e, t.tryAcquire claims owner mode now = .error e t ∧ e.kind = .invariantViolation := by
  obtain ⟨_, blocked, _⟩ | ⟨_, e, faulty, failed⟩ | ⟨_, passed, _⟩ :=
    t.tryAcquire_cases claims owner mode now
  · cases clear.symm.trans blocked
  · exact ⟨e, failed, kind_of_stagedFault? faulty⟩
  · exact absurd full ((s.passes_iff filled clear now).1 passed)

end Table

variable {G : Type} [ObjectGraph G]

/-- The target names something, and nothing that is not there. -/
def Target.Known (target : Target) (g : G) : Prop :=
  target.ids ≠ [] ∧ ∀ id ∈ target.ids, ObjectGraph.contains g id

/-- The holds that a request is for. -/
def Request.Wants (request : Request) (g : G) (mode : Mode) (x : Id) (o : Owner) (hold : Hold) :
    Prop :=
  request.owner = o ∧ hold.mode = mode ∧ request.target.Asks g x hold.claim

theorem Claims.ofTarget_eq_ok_or_error (g : G) (target : Target) :
    (target.Known g ∧ ∃ claims : Claims, ofTarget g target = .ok claims ∧ claims.Meet g target) ∨
      (¬target.Known g ∧ ∃ e, ofTarget g target = .error e) := by
  cases made : ofTarget g target with
  | error e =>
    right
    refine ⟨?_, e, rfl⟩
    rintro ⟨some_id, known⟩
    obtain ⟨none, _⟩ | ⟨_, id, _, named, _, unknown, _⟩ | ⟨_, _, claims, e⟩ :=
      ofTarget_cases g target
    · exact some_id none
    · rw [known id (by simp [named])] at unknown
      cases unknown
    · cases made.symm.trans e
  | ok claims =>
    obtain ⟨some_id, known, meet⟩ := (ofTarget_eq_ok_iff g target claims).1 made
    exact .inl ⟨⟨some_id, known⟩, claims, rfl, meet⟩

/-- A request for one object itself is for one hold. -/
theorem Request.wants_direct_iff {g : G} {id x : Id} {owner o : Owner} {mode : Mode} {hold : Hold} :
    Request.Wants { owner, target := ⟨[id], false⟩ } g mode x o hold ↔
      x = id ∧ o = owner ∧ hold = ⟨mode, .direct⟩ := by
  obtain ⟨m, claim⟩ := hold
  rw [Wants, Target.asks_direct_iff rfl, List.mem_singleton, Hold.mk.injEq]
  constructor
  · rintro ⟨rfl, rfl, rfl, rfl⟩
    exact ⟨rfl, rfl, rfl, rfl⟩
  · rintro ⟨rfl, rfl, rfl, rfl⟩
    exact ⟨rfl, rfl, rfl, rfl⟩

namespace Coordinator

variable {c : Coordinator G} {mode : Mode} {request : Request}

section

variable (s : c.table.Sound) (known : request.target.Known c.graph)
  (free : ∀ x claim, request.target.Asks c.graph x claim → c.table.admits x request.owner mode)

include s known free

theorem tryAcquire_of_full {x : Id} {claim : Claim} (asked : request.target.Asks c.graph x claim)
    (full : c.table.count x request.owner ⟨mode, claim⟩ = UInt32.size - 1) :
    ∃ e, tryAcquire mode request c = .error e c ∧ e.kind = .invariantViolation := by
  obtain ⟨_, claims, resolved, meet⟩ | ⟨unknown, _⟩ :=
    Claims.ofTarget_eq_ok_or_error c.graph request.target
  · have clear := (Table.clear_iff_asked meet).2 free
    obtain ⟨e, failed, kind⟩ := s.tryAcquire_of_full meet.filled clear
      ⟨x, claim, (meet.asked x claim).2 asked, full⟩ c.now
    exact ⟨e, by simp only [Coordinator.tryAcquire, resolved, takeClaims, failed], kind⟩
  · exact absurd known unknown

open Classical in
theorem tryAcquire_of_room (room : ∀ x claim, request.target.Asks c.graph x claim →
      c.table.count x request.owner ⟨mode, claim⟩ ≠ UInt32.size - 1) :
    ∃ t, tryAcquire mode request c = .ok true { c with table := t } ∧ ∀ x o hold,
      t.count x o hold = c.table.count x o hold +
        if request.Wants c.graph mode x o hold then 1 else 0 := by
  obtain ⟨_, claims, resolved, meet⟩ | ⟨unknown, _⟩ :=
    Claims.ofTarget_eq_ok_or_error c.graph request.target
  · have clear := (Table.clear_iff_asked meet).2 free
    have notFull : ¬c.table.Full claims request.owner mode := by
      rintro ⟨x, claim, laid, full⟩
      exact room x claim ((meet.asked x claim).1 laid) full
    have passed := (s.passes_iff meet.filled clear c.now).2 notFull
    obtain ⟨_, blocked, _⟩ | ⟨_, _, faulty, _⟩ | ⟨_, _, granted⟩ :=
      c.table.tryAcquire_cases claims request.owner mode c.now
    · cases clear.symm.trans blocked
    · cases passed.symm.trans faulty
    · refine ⟨c.table.granted claims request.owner mode c.now, ?_, fun x o hold => ?_⟩
      · simp only [Coordinator.tryAcquire, resolved, takeClaims, granted]
      · rw [s.count_granted passed]
        congr 1
        apply if_congr _ rfl rfl
        rw [Request.Wants, meet.asked]
  · exact absurd known unknown

end

/-- The same request, so many times. -/
def insist (c : Coordinator G) (mode : Mode) (request : Request) : Nat → Coordinator G
  | 0 => c
  | n + 1 => leaves (tryAcquire mode request (c.insist mode request n))

theorem Reachable.insist (h : c.Reachable) (mode : Mode) (request : Request) (n : Nat) :
    (c.insist mode request n).Reachable := by
  induction n with
  | zero => exact h
  | succ n ih => exact ih.next (.tryAcquire _ mode request)

open Classical in
/-- A request that meets no conflict is granted as often as there is room for it. Every time it
raises the counts that it asks for by one, and these do not bar its owner. -/
theorem Reachable.count_insist (h : c.Reachable) (known : request.target.Known c.graph)
    (free : ∀ x claim, request.target.Asks c.graph x claim → c.table.admits x request.owner mode)
    {n : Nat} (room : ∀ x claim, request.target.Asks c.graph x claim →
      c.table.count x request.owner ⟨mode, claim⟩ + n < UInt32.size) :
    (c.insist mode request n).graph = c.graph ∧ ∀ x o hold,
      (c.insist mode request n).table.count x o hold = c.table.count x o hold +
        if request.Wants c.graph mode x o hold then n else 0 := by
  induction n with
  | zero => exact ⟨rfl, fun x o hold => by simp [Coordinator.insist]⟩
  | succ n ih =>
    have v := (h.insist mode request n).table.sound
    obtain ⟨graph, counts⟩ := ih fun x claim asked => by
      have := room x claim asked
      omega
    have still (x : Id) (free : c.table.admits x request.owner mode) :
        (c.insist mode request n).table.admits x request.owner mode := by
      refine h.table.sound.admits_mono v (fun holder hold bars => ?_) free
      rw [counts, if_neg]
      · exact Nat.le_refl _
      · rintro ⟨rfl, rfl, _⟩
        exact not_bars_own request.owner hold.mode hold.claim bars
    rw [← graph] at known free
    obtain ⟨t, granted, raised⟩ := tryAcquire_of_room v known
      (fun x claim asked => still x (free x claim asked)) fun x claim asked full => by
        rw [graph] at asked
        rw [counts, if_pos ⟨rfl, rfl, asked⟩] at full
        have := room x claim asked
        omega
    rw [Coordinator.insist, granted]
    refine ⟨graph, fun x o hold => ?_⟩
    show t.count x o hold = _
    rw [raised, counts, graph]
    split
    · exact Nat.add_assoc _ _ _
    · rfl

/-- Two objects, one beside the other. -/
def twoObjects : Adjacency := ⟨.ofList [("x", []), ("y", [])]⟩

theorem known_twoObjects {ids : List Id} (some_id : ids ≠ [])
    (named : ∀ id ∈ ids, id ∈ ["x", "y"]) : Target.Known ⟨ids, false⟩ twoObjects := by
  refine ⟨some_id, fun id mem => ?_⟩
  obtain rfl | rfl := List.mem_pair.1 (named id mem)
  · cbv
  · cbv

def bobOnX : Request := { owner := "bob", target := ⟨["x"], false⟩ }

/-- Bob has been granted so many read locks on one of two objects. -/
def bobReads (n : Nat) : Coordinator Adjacency :=
  insist { graph := twoObjects } .read bobOnX n

theorem reachable_bobReads (n : Nat) : (bobReads n).Reachable :=
  .insist (.start twoObjects default 0) .read bobOnX n

open Classical in
theorem count_bobReads {n : Nat} (few : n < UInt32.size) :
    (bobReads n).graph = twoObjects ∧ ∀ x o hold, (bobReads n).table.count x o hold =
      if x = "x" ∧ o = "bob" ∧ hold = ⟨.read, .direct⟩ then n else 0 := by
  have start : Reachable { graph := twoObjects } := .start twoObjects default 0
  have nothing (x : Id) (o : Owner) (hold : Hold) : Table.count {} x o hold = 0 := rfl
  have known : bobOnX.target.Known twoObjects := known_twoObjects (by decide) (by decide)
  have free (x : Id) : Table.admits {} x "bob" .read :=
    Table.sound_empty.admits_iff.2 fun _ _ _ => nothing x _ _
  have room (x : Id) (claim : Claim) : Table.count {} x "bob" ⟨.read, claim⟩ + n < UInt32.size := by
    rwa [nothing, Nat.zero_add]
  obtain ⟨graph, counts⟩ :=
    start.count_insist known (fun x _ _ => free x) fun x claim _ => room x claim
  refine ⟨graph, fun x o hold => (counts x o hold).trans ?_⟩
  rw [nothing, Nat.zero_add]
  exact if_congr Request.wants_direct_iff rfl rfl

/-- Who wants to read is not kept from it by bob. -/
theorem admits_bobReads {n : Nat} (few : n < UInt32.size) (x : Id) (owner : Owner) :
    (bobReads n).table.admits x owner .read := by
  refine (reachable_bobReads n).table.sound.admits_iff.2 fun holder hold bars => ?_
  rw [(count_bobReads few).2, if_neg]
  rintro ⟨_, _, rfl⟩
  cases bars

end Coordinator

end SceneLock
