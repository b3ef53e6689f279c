import Mathlib
import SceneLock.Proofs.Acquisition
import SceneLock.Proofs.Targets
import SceneLock.Scene

/-!
Leases: acquisitions that are still open, while the scene below them is edited.
-/

namespace SceneLock

open Std

/-- An acquisition whose guard has not given it back, with the claims that it came to. -/
structure Lease where
  guard : Guard
  claims : Claims

namespace Lease

/-- The claim was laid on the object when the lease was granted. -/
def Covers (lease : Lease) (x : Id) (claim : Claim) : Prop := claim ∈ lease.claims.getD x ∅

/-- The claim is of the kind that giving the lease back takes away, wherever it is found. -/
def Names (lease : Lease) (x : Id) (claim : Claim) : Prop :=
  (claim.origin x).1 = lease.guard.target.tree ∧ (claim.origin x).2 ∈ lease.guard.target.ids

instance {lease : Lease} {x : Id} {claim : Claim} : Decidable (lease.Covers x claim) :=
  inferInstanceAs (Decidable (_ ∈ _))

instance {lease : Lease} {x : Id} {claim : Claim} : Decidable (lease.Names x claim) :=
  inferInstanceAs (Decidable (_ ∧ _))

/-- Giving the lease back takes one from this hold. -/
def Takes (lease : Lease) (x : Id) (o : Owner) (h : Hold) : Prop :=
  lease.guard.owner = o ∧ lease.guard.mode = h.mode ∧ lease.Names x h.claim

instance {lease : Lease} {x : Id} {o : Owner} {h : Hold} : Decidable (lease.Takes x o h) :=
  inferInstanceAs (Decidable (_ ∧ _ ∧ _))

/-- The owner still has all that the lease was granted. -/
def Kept (lease : Lease) (t : Table) : Prop :=
  ∀ x claim, lease.Covers x claim → 0 < t.count x lease.guard.owner ⟨lease.guard.mode, claim⟩

/-- No other owner gets a write lock on anything that the lease covers. -/
def ShutsOut (lease : Lease) (t : Table) : Prop :=
  ∀ x claim, lease.Covers x claim → ∀ other, other ≠ lease.guard.owner →
    ∀ claims : Claims, x ∈ claims → ∀ now, ∃ id,
      t.tryAcquire claims other .write now = .ok (.conflict id) t

/-- Whether the lease is a reason for an owner to hold an object in this way. -/
def backs (lease : Lease) (x : Id) (o : Owner) (h : Hold) : Bool :=
  lease.guard.owner = o && lease.guard.mode = h.mode && (lease.claims.getD x ∅).contains h.claim

/-- Two leases of one owner in one mode agree if what giving back the second can take from the
first, the second was granted too. -/
def Agrees (a b : Lease) : Prop :=
  a.guard.owner = b.guard.owner → a.guard.mode = b.guard.mode →
    ∀ x claim, a.Covers x claim → b.Names x claim → b.Covers x claim

end Lease

/-- A coordinator over a scene, and the leases that are open, the latest first. -/
structure Desk where
  coordinator : Coordinator Scene
  leases : List Lease := []

/-- What happens at a desk. Locks are taken, and given back through their guards only; the scene
is edited; and time passes. -/
inductive Move
  | acquire (mode : Mode) (request : Request)
  | giveBack (place : Nat)
  | add (id : Id) (parent : Option Id)
  | remove (id : Id)
  | wait (now : Instant)

namespace Desk

def edit (d : Desk) (scene : Except LockError Scene) : Desk :=
  match scene with
  | .ok graph => { d with coordinator := { d.coordinator with graph } }
  | .error _ => d

def make (d : Desk) : Move → Desk
  | .acquire mode request =>
    match Coordinator.acquire mode request d.coordinator with
    | .ok guard coordinator =>
      let claims := (Claims.ofTarget d.coordinator.graph request.target).toOption.getD ∅
      { coordinator, leases := ⟨guard, claims⟩ :: d.leases }
    | .error _ coordinator => { d with coordinator }
  | .giveBack place =>
    match d.leases[place]? with
    | some lease =>
      { coordinator := lease.guard.release d.coordinator, leases := d.leases.eraseIdx place }
    | none => d
  | .add id parent => d.edit (d.coordinator.graph.add id parent)
  | .remove id => d.edit ((d.coordinator.graph.remove id).map (·.2))
  | .wait now => { d with coordinator := { d.coordinator with now } }

def makeAll (d : Desk) (moves : List Move) : Desk := moves.foldl make d

/-- Gives back leases by their places in the list, one after the other. -/
def giveBackAll (d : Desk) (places : List Nat) : Desk := d.makeAll (places.map .giveBack)

def table (d : Desk) : Table := d.coordinator.table

/-- How many open leases are a reason for the hold. -/
def backing (d : Desk) (x : Id) (o : Owner) (h : Hold) : Nat :=
  d.leases.countP (·.backs x o h)

def AllKept (d : Desk) : Prop := ∀ lease ∈ d.leases, lease.Kept d.table

def AllAgree (d : Desk) : Prop := ∀ a ∈ d.leases, ∀ b ∈ d.leases, a.Agrees b

/-- A move grants a lease, gives one back, or changes neither table nor leases. -/
theorem make_cases (d : Desk) (move : Move) :
    (∃ lease now, Claims.ofTarget d.coordinator.graph lease.guard.target = .ok lease.claims ∧
      d.table.stagedFault? lease.claims lease.guard.owner lease.guard.mode now = none ∧
      (d.make move).table =
        d.table.granted lease.claims lease.guard.owner lease.guard.mode now ∧
      (d.make move).leases = lease :: d.leases) ∨
    (∃ place lease, move = .giveBack place ∧ d.leases[place]? = some lease) ∨
    ((d.make move).table = d.table ∧ (d.make move).leases = d.leases) := by
  cases move with
  | acquire mode request =>
    obtain ⟨claims, c, resolved, passed, e, alike⟩ | ⟨_, c, e, alike⟩ :=
      d.coordinator.acquire_cases mode request
    · refine .inl ⟨⟨⟨request.target, request.owner, mode⟩, claims⟩, _, resolved, passed, ?_, ?_⟩
      · simp only [make, e]
        exact alike.table
      · simp only [make, e, resolved]
        rfl
    · refine .inr (.inr ⟨?_, ?_⟩)
      · simp only [make, e]
        exact alike.table
      · simp only [make, e]
  | giveBack place =>
    cases found : d.leases[place]? with
    | none => exact .inr (.inr (by simp [make, found]))
    | some lease => exact .inr (.inl ⟨place, lease, rfl, found⟩)
  | add id parent =>
    simp only [make, edit]
    split <;> exact .inr (.inr ⟨rfl, rfl⟩)
  | remove id =>
    simp only [make, edit]
    split <;> exact .inr (.inr ⟨rfl, rfl⟩)
  | wait now => exact .inr (.inr ⟨rfl, rfl⟩)

end Desk

theorem Lease.backs_iff {lease : Lease} {x : Id} {o : Owner} {h : Hold} :
    lease.backs x o h ↔
      lease.guard.owner = o ∧ lease.guard.mode = h.mode ∧ lease.Covers x h.claim := by
  simp [backs, Covers, and_assoc]

namespace Desk

variable {d : Desk} {place : Nat} {lease : Lease}

theorem leases_giveBack (found : d.leases[place]? = some lease) :
    (d.make (.giveBack place)).leases = d.leases.eraseIdx place := by
  simp [make, found]

theorem table_giveBack (found : d.leases[place]? = some lease) :
    (d.make (.giveBack place)).table = (d.table.release lease.guard.target.ids lease.guard.owner
      lease.guard.mode lease.guard.target.tree).2 := by
  simp only [make, found]
  rfl

theorem count_giveBack (s : d.table.Sound) (found : d.leases[place]? = some lease) (x : Id)
    (o : Owner) (h : Hold) :
    (d.make (.giveBack place)).table.count x o h = d.table.count x o h -
      if lease.Takes x o h then 1 else 0 := by
  rw [table_giveBack found, s.count_release]
  simp only [Lease.Takes, eq_comm (a := lease.guard.mode)]
  rfl

theorem backing_giveBack (found : d.leases[place]? = some lease) (x : Id) (o : Owner) (h : Hold) :
    (d.make (.giveBack place)).backing x o h = d.backing x o h -
      if lease.backs x o h then 1 else 0 := by
  obtain ⟨inside, here⟩ := List.getElem?_eq_some_iff.1 found
  have split := (List.getElem_cons_eraseIdx_perm inside).countP_eq (·.backs x o h)
  rw [List.countP_cons, here] at split
  rw [backing, backing, leases_giveBack found]
  omega

theorem count_granted {now : Instant} (s : d.table.Sound)
    (passed : d.table.stagedFault? lease.claims lease.guard.owner lease.guard.mode now = none)
    (x : Id) (o : Owner) (h : Hold) :
    (d.table.granted lease.claims lease.guard.owner lease.guard.mode now).count x o h =
      d.table.count x o h + if lease.backs x o h then 1 else 0 := by
  rw [s.count_granted passed]
  simp only [Lease.backs_iff, eq_comm (a := h.mode)]
  rfl

/-- What holds at a desk whatever happens: no lease covers what it does not name, and there is no
count without a lease that is a reason for it. -/
structure Sane (d : Desk) : Prop where
  sound : d.table.Sound
  named : ∀ lease ∈ d.leases, ∀ x claim, lease.Covers x claim → lease.Names x claim
  backed : ∀ x o h, d.table.count x o h ≤ d.backing x o h

theorem Sane.takes (sane : d.Sane) (mem : lease ∈ d.leases) {x : Id} {o : Owner} {h : Hold}
    (backs : lease.backs x o h) : lease.Takes x o h := by
  obtain ⟨owner, mode, covers⟩ := Lease.backs_iff.1 backs
  exact ⟨owner, mode, sane.named lease mem x h.claim covers⟩

theorem Sane.make (sane : d.Sane) (move : Move) : (d.make move).Sane := by
  have s := sane.sound
  obtain ⟨lease, _, resolved, passed, table, leases⟩ | ⟨place, lease, rfl, found⟩ |
    ⟨table, leases⟩ := d.make_cases move
  · refine ⟨table ▸ s.granted passed, fun other mem x claim covers => ?_, fun x o h => ?_⟩
    · rw [leases, List.mem_cons] at mem
      obtain rfl | mem := mem
      · exact ((Claims.mem_ofTarget resolved).1 covers).2
      · exact sane.named other mem x claim covers
    · have before := sane.backed x o h
      rw [table, count_granted s passed, backing, leases, List.countP_cons]
      exact Nat.add_le_add_right before _
  · have mem := List.mem_of_getElem? found
    refine ⟨?_, fun other left x claim covers => ?_, fun x o h => ?_⟩
    · rw [table_giveBack found]
      exact s.release _ _ _ _
    · rw [leases_giveBack found] at left
      exact sane.named other (List.mem_of_mem_eraseIdx left) x claim covers
    · have before := sane.backed x o h
      rw [count_giveBack s found, backing_giveBack found]
      by_cases backs : lease.backs x o h
      · rw [if_pos (sane.takes mem backs), if_pos backs]
        omega
      · rw [if_neg backs]
        omega
  · exact ⟨table ▸ s, leases ▸ sane.named, by
      simpa only [backing, table, leases] using sane.backed⟩

theorem Sane.makeAll (sane : d.Sane) (moves : List Move) : (d.makeAll moves).Sane := by
  induction moves generalizing d with
  | nil => exact sane
  | cons move rest ih => exact ih (sane.make move)

theorem exists_backing {x : Id} {o : Owner} {h : Hold} (backed : 0 < d.backing x o h) :
    ∃ (place : Nat) (lease : Lease), d.leases[place]? = some lease ∧ lease.backs x o h := by
  obtain ⟨lease, mem, backs⟩ := List.countP_pos_iff.1 backed
  obtain ⟨place, found⟩ := List.mem_iff_getElem?.1 mem
  exact ⟨place, lease, found, backs⟩

theorem not_kept_of_count_eq_zero {x : Id} {o : Owner} {h : Hold} (backed : 0 < d.backing x o h)
    (gone : d.table.count x o h = 0) : ¬d.AllKept := by
  intro kept
  obtain ⟨place, lease, found, backs⟩ := exists_backing backed
  obtain ⟨rfl, mode, covers⟩ := Lease.backs_iff.1 backs
  have held := kept lease (List.mem_of_getElem? found) x h.claim covers
  rw [mode] at held
  exact Nat.ne_of_gt held gone

/-- With fewer counts than leases, the counts can run out before the leases do. -/
theorem Sane.runs_out (sane : d.Sane) {x : Id} {o : Owner} {h : Hold}
    (short : d.table.count x o h < d.backing x o h) :
    ∃ places, ¬(d.giveBackAll places).AllKept := by
  generalize left : d.table.count x o h = n at short
  induction n generalizing d with
  | zero => exact ⟨[], not_kept_of_count_eq_zero short left⟩
  | succ n ih =>
    obtain ⟨place, lease, found, backs⟩ := exists_backing (Nat.zero_lt_of_lt short)
    have takes := sane.takes (List.mem_of_getElem? found) backs
    have count := count_giveBack sane.sound found x o h
    have backing := backing_giveBack found x o h
    rw [if_pos takes] at count
    rw [if_pos backs] at backing
    obtain ⟨places, gone⟩ := ih (sane.make (.giveBack place)) (by omega) (by omega)
    exact ⟨place :: places, gone⟩

/-- If a lease takes what another covers and it does not cover itself, then giving it back leaves
fewer counts than leases. -/
theorem Sane.runs_out_of_not_agree (sane : d.Sane) (differ : ¬d.AllAgree) :
    ∃ places, ¬(d.giveBackAll places).AllKept := by
  simp only [AllAgree, Lease.Agrees, Classical.not_forall] at differ
  obtain ⟨a, ha, b, hb, owner, mode, x, claim, covers, names, uncovered⟩ := differ
  obtain ⟨place, found⟩ := List.mem_iff_getElem?.1 hb
  let h : Hold := ⟨b.guard.mode, claim⟩
  have backed : 0 < d.backing x b.guard.owner h :=
    List.countP_pos_iff.2 ⟨a, ha, Lease.backs_iff.2 ⟨owner, mode, covers⟩⟩
  have takes : b.Takes x b.guard.owner h := ⟨rfl, rfl, names⟩
  have stays : ¬b.backs x b.guard.owner h := fun backs => uncovered (Lease.backs_iff.1 backs).2.2
  have before := sane.backed x b.guard.owner h
  have count := count_giveBack sane.sound found x b.guard.owner h
  have backing := backing_giveBack found x b.guard.owner h
  rw [if_pos takes] at count
  rw [if_neg stays] at backing
  have short : (d.make (.giveBack place)).table.count x b.guard.owner h <
      (d.make (.giveBack place)).backing x b.guard.owner h := by omega
  obtain ⟨places, gone⟩ := (sane.make (.giveBack place)).runs_out short
  exact ⟨place :: places, gone⟩

/-- Every lease is counted, on all that it covers. -/
def Even (d : Desk) : Prop := ∀ x o h, d.table.count x o h = d.backing x o h

theorem Even.allKept (even : d.Even) : d.AllKept := by
  intro lease mem x claim covers
  rw [even]
  exact List.countP_pos_iff.2 ⟨lease, mem, Lease.backs_iff.2 ⟨rfl, rfl, covers⟩⟩

/-- A lease that agrees with the others takes back only what it was granted. -/
theorem Even.make (even : d.Even) (sane : d.Sane) (agree : d.AllAgree) (move : Move) :
    (d.make move).Even := by
  intro x o h
  have before := even x o h
  obtain ⟨lease, _, resolved, passed, table, leases⟩ | ⟨place, lease, rfl, found⟩ |
    ⟨table, leases⟩ := d.make_cases move
  · rw [table, count_granted sane.sound passed, backing, leases, List.countP_cons, before]
    rfl
  · have mem := List.mem_of_getElem? found
    rw [count_giveBack sane.sound found, backing_giveBack found]
    by_cases backs : lease.backs x o h
    · rw [if_pos (sane.takes mem backs), if_pos backs, before]
    · by_cases takes : lease.Takes x o h
      · -- nobody else can have been granted what is taken here
        have nobody : d.backing x o h = 0 := by
          rw [backing, List.countP_eq_zero]
          intro other there also
          obtain ⟨owner, mode, covers⟩ := Lease.backs_iff.1 also
          have covered := agree other there lease mem (owner.trans takes.1.symm)
            (mode.trans takes.2.1.symm) x h.claim covers takes.2.2
          exact backs (Lease.backs_iff.2 ⟨takes.1, takes.2.1, covered⟩)
        omega
      · rw [if_neg takes, if_neg backs, before]
  · simpa only [backing, table, leases] using before

theorem AllAgree.giveBack (agree : d.AllAgree) (place : Nat) :
    (d.make (.giveBack place)).AllAgree := by
  cases found : d.leases[place]? with
  | none => simpa only [Desk.make, found] using agree
  | some lease =>
    intro a ha b hb
    rw [leases_giveBack found] at ha hb
    exact agree a (List.mem_of_mem_eraseIdx ha) b (List.mem_of_mem_eraseIdx hb)

theorem Even.giveBackAll (even : d.Even) (sane : d.Sane) (agree : d.AllAgree)
    (places : List Nat) : (d.giveBackAll places).Even := by
  induction places generalizing d with
  | nil => exact even
  | cons place rest ih =>
    exact ih (even.make sane agree _) (sane.make _) (agree.giveBack place)

theorem Even.makeAll (even : d.Even) (sane : d.Sane) (moves : List Move)
    (agree : ∀ done, done <+: moves → (d.makeAll done).AllAgree) : (d.makeAll moves).Even := by
  induction moves generalizing d with
  | nil => exact even
  | cons move rest ih =>
    have now := agree [] (List.nil_prefix)
    refine ih (even.make sane now move) (sane.make move) fun done first => ?_
    exact agree (move :: done) (List.cons_prefix_cons.2 ⟨rfl, first⟩)

end Desk

theorem Lease.Kept.shutsOut {lease : Lease} {t : Table} (kept : lease.Kept t) (s : t.Sound) :
    lease.ShutsOut t := by
  intro x claim covers other stranger claims asked now
  obtain ⟨record, found, holder⟩ := s.holder_iff.2 ⟨_, kept x claim covers⟩
  have obstructed : t.Obstructed claims other .write :=
    ⟨x, asked, record, found, lease.guard.owner, holder, stranger.symm⟩
  obtain ⟨id, _, e⟩ | ⟨clear, _⟩ | ⟨clear, _⟩ := t.tryAcquire_cases claims other .write now
  · exact ⟨id, e⟩
  · exact absurd obstructed (s.conflict?_eq_none_iff.1 clear)
  · exact absurd obstructed (s.conflict?_eq_none_iff.1 clear)

namespace Desk

/-- A desk at which nothing has happened yet. -/
def fresh (graph : Scene) (policy : RetryPolicy) (now : Instant) : Desk :=
  ⟨{ graph, policy, now }, []⟩

variable {graph : Scene} {policy : RetryPolicy} {now : Instant}

theorem sane_fresh : (fresh graph policy now).Sane where
  sound := Table.sound_empty
  named _ mem := absurd mem List.not_mem_nil
  backed _ _ _ := Nat.le_refl 0

theorem even_fresh : (fresh graph policy now).Even := fun _ _ _ => rfl

/-- In a run, and in whatever order its leases may be given back, all open leases are kept exactly
if they agree with each other at every point of the run. A lease that is kept shuts out all other
writers. -/
theorem allKept_iff_allAgree (graph : Scene) (policy : RetryPolicy) (now : Instant)
    (moves : List Move) :
    ((∀ done, done <+: moves → ∀ places,
        (((fresh graph policy now).makeAll done).giveBackAll places).AllKept) ↔
      ∀ done, done <+: moves → ((fresh graph policy now).makeAll done).AllAgree) ∧
    (∀ lease ∈ ((fresh graph policy now).makeAll moves).leases,
      lease.Kept ((fresh graph policy now).makeAll moves).table →
      lease.ShutsOut ((fresh graph policy now).makeAll moves).table) := by
  refine ⟨⟨fun kept done first => ?_, fun agree done first places => ?_⟩, fun lease _ kept => ?_⟩
  · refine Classical.not_not.1 fun differ => ?_
    obtain ⟨places, gone⟩ := (sane_fresh.makeAll done).runs_out_of_not_agree differ
    exact gone (kept done first places)
  · have sane := sane_fresh.makeAll done (d := fresh graph policy now)
    have even := even_fresh.makeAll sane_fresh done fun earlier before =>
      agree earlier (before.trans first)
    exact (even.giveBackAll sane (agree done first) places).allKept
  · exact kept.shutsOut (sane_fresh.makeAll moves).sound

/-- Every open lease comes to the same claims in the scene as it is now. -/
def Current (d : Desk) : Prop :=
  ∀ lease ∈ d.leases, Claims.ofTarget d.coordinator.graph lease.guard.target = .ok lease.claims

theorem Current.allAgree {d : Desk} (current : d.Current) : d.AllAgree := by
  intro a ha b hb _ _ x claim covers names
  have reaches := ((Claims.mem_ofTarget (current a ha)).1 covers).1
  exact (Claims.mem_ofTarget (current b hb)).2 ⟨reaches, names⟩

theorem Current.make {d : Desk} (current : d.Current) (move : Move)
    (still : (d.make move).coordinator.graph = d.coordinator.graph) : (d.make move).Current := by
  intro lease mem
  rw [still]
  obtain ⟨latest, _, resolved, _, _, leases⟩ | ⟨place, gone, rfl, found⟩ | ⟨_, leases⟩ :=
    d.make_cases move
  · rw [leases, List.mem_cons] at mem
    obtain rfl | mem := mem
    · exact resolved
    · exact current lease mem
  · rw [leases_giveBack found] at mem
    exact current lease (List.mem_of_mem_eraseIdx mem)
  · exact current lease (leases ▸ mem)

theorem Current.makeAll {d : Desk} (current : d.Current) (moves : List Move)
    (still : ∀ done, done <+: moves →
      (d.makeAll done).coordinator.graph = d.coordinator.graph) : (d.makeAll moves).Current := by
  induction moves generalizing d with
  | nil => exact current
  | cons move rest ih =>
    have first : (d.make move).coordinator.graph = d.coordinator.graph :=
      still [move] (List.cons_prefix_cons.2 ⟨rfl, List.nil_prefix⟩)
    refine ih (current.make move first) fun done before => ?_
    rw [first]
    exact still (move :: done) (List.cons_prefix_cons.2 ⟨rfl, before⟩)

/-- As long as the scene stays as it is, all leases are kept. -/
theorem allKept_of_still (moves : List Move) (still : ∀ done, done <+: moves →
    ((fresh graph policy now).makeAll done).coordinator.graph = graph) :
    ((fresh graph policy now).makeAll moves).AllKept := by
  have current : (fresh graph policy now).Current := fun _ mem => absurd mem List.not_mem_nil
  refine (even_fresh.makeAll sane_fresh moves fun done first => ?_).allKept
  refine (current.makeAll done fun earlier before => ?_).allAgree
  exact still earlier (before.trans first)

/-- Alice locks the tree of `r`, adds `x` to it, locks the tree once more, and gives the first of
the two locks back. -/
def regrown : Desk :=
  let request : Request := { owner := "alice", target := ⟨["r"], true⟩ }
  (fresh .empty default 0).makeAll [.add "r" none, .acquire .write request, .add "x" (some "r"),
    .acquire .write request, .giveBack 1]

/-- The second lock is open, and was granted `x` too, but `x` is locked no longer: it went with
the first one. -/
theorem regrown_not_allKept :
    ¬regrown.AllKept ∧
      (∃ lease ∈ regrown.leases, lease.guard.owner = "alice" ∧ lease.guard.mode = .write ∧
        lease.Covers "x" (.tree "r")) ∧
      regrown.table.count "x" "alice" ⟨.write, .tree "r"⟩ = 0 ∧
      ∃ c, Coordinator.tryAcquire .write { owner := "bob", target := ⟨["x"], false⟩ }
        regrown.coordinator = .ok true c := by
  have first : (regrown.leases[0]?.map fun lease => lease.backs "x" "alice" ⟨.write, .tree "r"⟩) =
      some true := by cbv
  obtain ⟨lease, found, backs⟩ := Option.map_eq_some_iff.1 first
  have gone : regrown.table.count "x" "alice" ⟨.write, .tree "r"⟩ = 0 := by cbv
  have backed : 0 < regrown.backing "x" "alice" ⟨.write, .tree "r"⟩ :=
    List.countP_pos_iff.2 ⟨lease, List.mem_of_getElem? found, backs⟩
  have granted : Coordinator.tryAcquire .write { owner := "bob", target := ⟨["x"], false⟩ }
      regrown.coordinator = .ok true (leaves (Coordinator.tryAcquire .write
        { owner := "bob", target := ⟨["x"], false⟩ } regrown.coordinator)) := by cbv
  exact ⟨not_kept_of_count_eq_zero backed gone,
    ⟨lease, List.mem_of_getElem? found, Lease.backs_iff.1 backs⟩, gone, _, granted⟩

end Desk

end SceneLock
