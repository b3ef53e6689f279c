import Mathlib
import SceneLock.Proofs.Extensionality
import SceneLock.Proofs.Guards

/-!
Reaping: all locks of an owner are dropped at once, while guards of that owner are still open. Such
a guard is stale. It can still be given back, and what it gives back then is whatever its owner
holds under the same ids at that time.
-/

namespace SceneLock

open Std

variable {G : Type} [ObjectGraph G]

namespace Guard

/-- The two are for one owner and mode and of one shape, and have an id in common. -/
def Clashes (a b : Guard) : Prop :=
  a.owner = b.owner ∧ a.mode = b.mode ∧ a.target.tree = b.target.tree ∧
    ∃ id ∈ a.target.ids, id ∈ b.target.ids

theorem clashes_of_names {a b : Guard} {o : Owner} {m : Mode} {tree : Bool} {id : Id}
    (first : Ledger.Names a.mode a.request o m tree id)
    (second : Ledger.Names b.mode b.request o m tree id) : a.Clashes b := by
  obtain ⟨rfl, rfl, rfl, mine⟩ := first
  obtain ⟨owner, mode, shape, theirs⟩ := second
  exact ⟨owner.symm, mode, shape, id, mine, theirs⟩

end Guard

/-- The table is as the ledger says, and the ledger has no entry that none of the guards accounts
for. -/
structure Ledger.Accounted (l : Ledger) (g : G) (t : Table) (guards : List Guard) : Prop where
  sound : t.Sound
  resolved : ∀ guard ∈ guards, ∃ claims, Claims.ofTarget g guard.target = .ok claims
  describes : l.Describes g t
  accounted : ∀ o m tree id, l o m tree id ≤ ofGuards guards o m tree id

namespace Ledger.Accounted

variable {l : Ledger} {g : G} {t : Table} {guards : List Guard}

theorem granted (a : l.Accounted g t guards) {mode : Mode} {request : Request} {now : Instant}
    {claims : Claims} (resolved : Claims.ofTarget g request.target = .ok claims)
    (passed : t.stagedFault? claims request.owner mode now = none) :
    (l.enter mode request).Accounted g (t.granted claims request.owner mode now)
      (⟨request.target, request.owner, mode⟩ :: guards) where
  sound := a.sound.granted passed
  resolved := List.forall_mem_cons.2 ⟨⟨claims, resolved⟩, a.resolved⟩
  describes := a.describes.granted a.sound resolved passed
  accounted o m tree id := by
    rw [ofGuards_cons]
    exact Nat.add_le_add_right (a.accounted o m tree id) _

theorem released (a : l.Accounted g t guards) (guard : Guard) {left : List Guard}
    (kept : ∀ other ∈ left, other ∈ guards)
    (accounted : ∀ o m tree id,
      l.strike guard.mode guard.request o m tree id ≤ ofGuards left o m tree id) :
    (l.strike guard.mode guard.request).Accounted g
      (t.release guard.target.ids guard.owner guard.mode guard.target.tree).2 left where
  sound := a.sound.release _ _ _ _
  resolved other mem := a.resolved other (kept other mem)
  describes := a.describes.released a.sound guard.mode guard.request
  accounted := accounted

theorem releasedOwner (a : l.Accounted g t guards) (owner : Owner) :
    (l.clear owner).Accounted g (t.releaseOwner owner).2
      (guards.filter (·.owner ≠ owner)) where
  sound := a.sound.releaseOwner owner
  resolved guard mem := a.resolved guard (List.mem_filter.1 mem).1
  describes := a.describes.releasedOwner owner
  accounted o m tree id := by
    rw [ofGuards_filter]
    simp only [clear]
    split
    · exact Nat.le_refl 0
    · exact a.accounted o m tree id

end Ledger.Accounted

/-- A coordinator and its open guards, the latest first: those that were handed out since the locks
of their owner were last dropped, and the stale ones. -/
structure Register (G : Type) where
  coordinator : Coordinator G
  live : List Guard := []
  stale : List Guard := []

/-- An open guard, by its place. -/
inductive Pick
  | live (place : Nat)
  | stale (place : Nat)

/-- What is done. Locks are taken, given back through guards, and dropped owner by owner; and time
passes. -/
inductive Deal
  | acquire (mode : Mode) (request : Request)
  | giveBack (pick : Pick)
  | releaseOwner (owner : Owner)
  | wait (now : Instant)

namespace Register

def blank (graph : G) (policy : RetryPolicy) (now : Instant) : Register G :=
  { coordinator := { graph, policy, now } }

def table (r : Register G) : Table := r.coordinator.table

def make (r : Register G) : Deal → Register G
  | .acquire mode request =>
    match Coordinator.acquire mode request r.coordinator with
    | .ok guard coordinator => { r with coordinator, live := guard :: r.live }
    | .error _ coordinator => { r with coordinator }
  | .giveBack (.live place) =>
    match r.live[place]? with
    | some guard =>
      { r with coordinator := guard.release r.coordinator, live := r.live.eraseIdx place }
    | none => r
  | .giveBack (.stale place) =>
    match r.stale[place]? with
    | some guard =>
      { r with coordinator := guard.release r.coordinator, stale := r.stale.eraseIdx place }
    | none => r
  | .releaseOwner owner =>
    { coordinator := (r.coordinator.releaseOwner owner).2
      live := r.live.filter (·.owner ≠ owner)
      stale := r.live.filter (·.owner = owner) ++ r.stale }
  | .wait now => { r with coordinator := { r.coordinator with now } }

def makeAll (r : Register G) (deals : List Deal) : Register G := deals.foldl make r

/-- Gives back open guards, one after the other. -/
def giveBackAll (r : Register G) (picks : List Pick) : Register G :=
  r.makeAll (picks.map .giveBack)

/-- Every guard that is not stale has all that it was granted. -/
def AllKept (r : Register G) : Prop :=
  ∀ guard ∈ r.live, (guard.lease r.coordinator.graph).Kept r.table

/-- No stale guard names what a live guard of its owner names too. -/
def Apart (r : Register G) : Prop :=
  ∀ old ∈ r.stale, ∀ guard ∈ r.live, ¬old.Clashes guard

/-- The entries that a deal leaves in a ledger. -/
def book (r : Register G) (l : Ledger) : Deal → Ledger
  | .acquire mode request =>
    match Coordinator.acquire mode request r.coordinator with
    | .ok _ _ => l.enter mode request
    | .error _ _ => l
  | .giveBack (.live place) =>
    (r.live[place]?).elim l fun guard => l.strike guard.mode guard.request
  | .giveBack (.stale place) =>
    (r.stale[place]?).elim l fun guard => l.strike guard.mode guard.request
  | .releaseOwner owner => l.clear owner
  | .wait _ => l

/-- What holds in every run: the table is as the ledger says, and the ledger has no entry that no
live guard accounts for. -/
def Sane (r : Register G) (l : Ledger) : Prop :=
  l.Accounted r.coordinator.graph r.coordinator.table r.live

variable {r : Register G} {l : Ledger}

/-- Each deal does to the table what it does to the ledger. -/
theorem Sane.make (sane : r.Sane l) (deal : Deal) : (r.make deal).Sane (r.book l deal) := by
  cases deal with
  | acquire mode request =>
    cases made : Coordinator.acquire mode request r.coordinator with
    | error e d =>
      have alike := Coordinator.alike_of_refused made
      simp only [Sane, Register.make, book, made, alike.graph, alike.table]
      exact sane
    | ok guard d =>
      obtain ⟨rfl, claims, resolved, passed, alike⟩ := Coordinator.acquired made
      simp only [Sane, Register.make, book, made, alike.graph, alike.table]
      exact Ledger.Accounted.granted sane resolved passed
  | giveBack pick =>
    cases pick with
    | live place =>
      cases found : r.live[place]? with
      | none =>
        simp only [Register.make, book, found, Option.elim_none]
        exact sane
      | some guard =>
        simp only [Register.make, book, found, Option.elim_some]
        refine Ledger.Accounted.released sane guard (fun _ => List.mem_of_mem_eraseIdx) ?_
        intro o m tree id
        rw [Ledger.ofGuards_eraseIdx found]
        exact Nat.sub_le_sub_right (sane.accounted o m tree id) _
    | stale place =>
      cases found : r.stale[place]? with
      | none =>
        simp only [Register.make, book, found, Option.elim_none]
        exact sane
      | some guard =>
        simp only [Register.make, book, found, Option.elim_some]
        refine Ledger.Accounted.released sane guard (fun _ => id) fun o m tree id => ?_
        exact (Nat.sub_le _ _).trans (sane.accounted o m tree id)
  | releaseOwner owner =>
    simp only [Sane, Register.make, book, Coordinator.graph_releaseOwner,
      Coordinator.table_releaseOwner]
    exact Ledger.Accounted.releasedOwner sane owner
  | wait now => exact sane

theorem Sane.makeAll (sane : r.Sane l) (deals : List Deal) : ∃ l, (r.makeAll deals).Sane l := by
  induction deals generalizing r l with
  | nil => exact ⟨l, sane⟩
  | cons deal rest ih => exact ih (sane.make deal)

/-- Where an entry is missing, a live guard is without what it was granted. -/
theorem Sane.not_allKept (sane : r.Sane l) {o : Owner} {m : Mode} {tree : Bool} {id : Id}
    (accounted : 0 < Ledger.ofGuards r.live o m tree id) (gone : l o m tree id = 0) :
    ¬r.AllKept := by
  intro kept
  obtain ⟨guard, mem, rfl, rfl, rfl, named⟩ := Ledger.ofGuards_pos_iff.1 accounted
  have named : id ∈ guard.target.ids := named
  obtain ⟨claims, resolved⟩ := sane.resolved guard mem
  have reaches := Claims.reaches_of_ofTarget resolved id named
  have covers : (guard.lease r.coordinator.graph).Covers id (.via guard.target.tree id) := by
    simp only [Lease.Covers, Guard.lease, Guard.claims, resolved]
    exact (Claims.mem_ofTarget resolved).2 ⟨reaches, by simpa using named⟩
  have held := kept guard mem id _ covers
  have entry := sane.describes.reached id guard.owner guard.mode _ reaches
  rw [Claim.origin_via] at entry
  exact Nat.ne_of_gt held (entry.trans gone)

/-- With fewer entries than live guards, the entries can run out before the guards do. -/
theorem Sane.runs_out (sane : r.Sane l) {o : Owner} {m : Mode} {tree : Bool} {id : Id}
    (short : l o m tree id < Ledger.ofGuards r.live o m tree id) :
    ∃ picks, ¬(r.giveBackAll picks).AllKept := by
  generalize left : l o m tree id = n at short
  induction n generalizing r l with
  | zero => exact ⟨[], sane.not_allKept short left⟩
  | succ n ih =>
    obtain ⟨guard, mem, names⟩ := Ledger.ofGuards_pos_iff.1 (Nat.zero_lt_of_lt short)
    obtain ⟨place, found⟩ := List.mem_iff_getElem?.1 mem
    -- One entry and one guard that accounts for it go, so the guards stay ahead.
    have next := sane.make (.giveBack (.live place))
    have booked : r.book l (.giveBack (.live place)) = l.strike guard.mode guard.request := by
      simp only [book, found, Option.elim_some]
    have live : (r.make (.giveBack (.live place))).live = r.live.eraseIdx place := by
      simp only [Register.make, found]
    have entry : r.book l (.giveBack (.live place)) o m tree id = n := by
      rw [booked, Ledger.strike, if_pos names, left, Nat.add_sub_cancel]
    have others : n < Ledger.ofGuards (r.make (.giveBack (.live place))).live o m tree id := by
      rw [live, Ledger.ofGuards_eraseIdx found, Ledger.strike, if_pos names]
      omega
    obtain ⟨picks, gone⟩ := ih next entry others
    exact ⟨.live place :: picks, gone⟩

/-- A stale guard that clashes with a live one takes an entry that is not its own. -/
theorem Sane.runs_out_of_not_apart (sane : r.Sane l) (clash : ¬r.Apart) :
    ∃ picks, ¬(r.giveBackAll picks).AllKept := by
  simp only [Apart, Classical.not_forall, Classical.not_not] at clash
  obtain ⟨old, stale, guard, live, owner, mode, shape, id, given, kept⟩ := clash
  obtain ⟨place, found⟩ := List.mem_iff_getElem?.1 stale
  have next := sane.make (.giveBack (.stale place))
  have names : Ledger.Names guard.mode guard.request old.owner old.mode old.target.tree id :=
    ⟨owner.symm, mode, shape, kept⟩
  have accounted := Ledger.ofGuards_pos_iff.2 ⟨guard, live, names⟩
  have entry : r.book l (.giveBack (.stale place)) old.owner old.mode old.target.tree id =
      l old.owner old.mode old.target.tree id - 1 := by
    simp only [book, found, Option.elim_some, Ledger.strike]
    rw [if_pos ⟨rfl, rfl, rfl, given⟩]
  have same : (r.make (.giveBack (.stale place))).live = r.live := by
    simp only [Register.make, found]
  have before := sane.accounted old.owner old.mode old.target.tree id
  have short : r.book l (.giveBack (.stale place)) old.owner old.mode old.target.tree id <
      Ledger.ofGuards (r.make (.giveBack (.stale place))).live old.owner old.mode
        old.target.tree id := by
    rw [entry, same]
    omega
  obtain ⟨picks, gone⟩ := next.runs_out short
  exact ⟨.stale place :: picks, gone⟩

/-- The ledger has exactly the entries that the live guards account for. -/
def Even (r : Register G) : Prop := r.Sane (Ledger.ofGuards r.live)

theorem Even.allKept (even : r.Even) : r.AllKept := by
  intro guard mem x claim covers
  obtain ⟨reaches, shape, named⟩ := Guard.mem_claims covers
  have names : Ledger.Names guard.mode guard.request guard.owner guard.mode (claim.origin x).1
      (claim.origin x).2 := ⟨rfl, rfl, shape, named⟩
  have entered := Ledger.ofGuards_pos_iff.2 ⟨guard, mem, names⟩
  have entry := even.describes.reached x guard.owner guard.mode claim reaches
  exact Nat.lt_of_lt_of_eq entered entry.symm

omit [ObjectGraph G] in
/-- Nothing is entered under what a stale guard names. -/
theorem Apart.strike_stale (apart : r.Apart) {old : Guard} (stale : old ∈ r.stale) :
    (Ledger.ofGuards r.live).strike old.mode old.request = Ledger.ofGuards r.live := by
  funext o m tree id
  rw [Ledger.strike]
  split
  · next names =>
    have none : Ledger.ofGuards r.live o m tree id = 0 := by
      refine Nat.eq_zero_of_not_pos fun entered => ?_
      obtain ⟨guard, live, also⟩ := Ledger.ofGuards_pos_iff.1 entered
      exact apart old stale guard live (Guard.clashes_of_names names also)
    rw [none]
  · rfl

theorem Even.make (even : r.Even) (apart : r.Apart) (deal : Deal) : (r.make deal).Even := by
  have next := Sane.make even deal
  have booked : r.book (Ledger.ofGuards r.live) deal = Ledger.ofGuards (r.make deal).live := by
    cases deal with
    | acquire mode request =>
      cases made : Coordinator.acquire mode request r.coordinator with
      | error e d => simp only [book, Register.make, made]
      | ok guard d =>
        obtain ⟨rfl, _⟩ := Coordinator.acquired made
        simp only [book, Register.make, made, Ledger.ofGuards_cons]
        rfl
    | giveBack pick =>
      cases pick with
      | live place =>
        cases found : r.live[place]? with
        | none => simp only [book, Register.make, found, Option.elim_none]
        | some guard =>
          simp only [book, Register.make, found, Option.elim_some, Ledger.ofGuards_eraseIdx found]
      | stale place =>
        cases found : r.stale[place]? with
        | none => simp only [book, Register.make, found, Option.elim_none]
        | some old =>
          simp only [book, Register.make, found, Option.elim_some]
          exact apart.strike_stale (List.mem_of_getElem? found)
    | releaseOwner owner => exact (Ledger.ofGuards_filter _ owner).symm
    | wait now => rfl
  rw [booked] at next
  exact next

theorem Apart.giveBack (apart : r.Apart) (pick : Pick) : (r.make (.giveBack pick)).Apart := by
  intro old stale guard live
  cases pick with
  | live place =>
    simp only [Register.make] at stale live
    split at live
    · exact apart old (by simpa [*] using stale) guard (List.mem_of_mem_eraseIdx live)
    · exact apart old (by simpa [*] using stale) guard live
  | stale place =>
    simp only [Register.make] at stale live
    split at stale
    · exact apart old (List.mem_of_mem_eraseIdx stale) guard (by simpa [*] using live)
    · exact apart old stale guard (by simpa [*] using live)

theorem Even.giveBackAll (even : r.Even) (apart : r.Apart) (picks : List Pick) :
    (r.giveBackAll picks).Even := by
  induction picks generalizing r with
  | nil => exact even
  | cons pick rest ih => exact ih (even.make apart _) (apart.giveBack pick)

theorem Even.makeAll (even : r.Even) (deals : List Deal)
    (apart : ∀ done, done <+: deals → (r.makeAll done).Apart) : (r.makeAll deals).Even := by
  induction deals generalizing r with
  | nil => exact even
  | cons deal rest ih =>
    refine ih (even.make (apart [] List.nil_prefix) deal) fun done first => ?_
    exact apart (deal :: done) (List.cons_prefix_cons.2 ⟨rfl, first⟩)

/-- What was dropped with its owner cannot be given back. -/
theorem Even.table_giveBack_stale (even : r.Even) (apart : r.Apart) (place : Nat) :
    (r.make (.giveBack (.stale place))).table = r.table := by
  cases found : r.stale[place]? with
  | none => simp only [Register.make, found]
  | some old =>
    simp only [Register.make, found]
    refine even.sound.release_eq_self fun x claim shape named => ?_
    by_cases reaches : claim.Reaches r.coordinator.graph x
    · have unchanged := congrFun₃ (apart.strike_stale (List.mem_of_getElem? found))
        old.owner old.mode (claim.origin x).1
      rw [even.describes.reached x _ _ claim reaches]
      have entry := congrFun unchanged (claim.origin x).2
      rw [Ledger.strike, if_pos ⟨rfl, rfl, shape, named⟩] at entry
      omega
    · exact even.describes.beyond x _ _ claim reaches

theorem even_blank (graph : G) (policy : RetryPolicy) (now : Instant) :
    (blank graph policy now).Even where
  sound := Table.sound_empty
  resolved _ mem := absurd mem List.not_mem_nil
  describes := .blank
  accounted _ _ _ _ := Nat.le_refl 0

/-- In a run, and in whatever order its open guards may be given back, all live guards are kept
exactly if none of them clashes with a stale guard at any point of the run. A guard that is kept
shuts out all other writers. As long as there is no clash, giving back a stale guard changes
nothing. -/
theorem allKept_iff_apart (graph : G) (policy : RetryPolicy) (now : Instant) (deals : List Deal) :
    ((∀ done, done <+: deals → ∀ picks,
        (((blank graph policy now).makeAll done).giveBackAll picks).AllKept) ↔
      ∀ done, done <+: deals → ((blank graph policy now).makeAll done).Apart) ∧
    (∀ guard ∈ ((blank graph policy now).makeAll deals).live,
      (guard.lease graph).Kept ((blank graph policy now).makeAll deals).table →
      (guard.lease graph).ShutsOut ((blank graph policy now).makeAll deals).table) ∧
    ((∀ done, done <+: deals → ((blank graph policy now).makeAll done).Apart) → ∀ place,
      (((blank graph policy now).makeAll deals).make (.giveBack (.stale place))).table =
        ((blank graph policy now).makeAll deals).table) := by
  have start := even_blank graph policy now
  have sane (done : List Deal) := Sane.makeAll start done
  refine ⟨⟨fun kept done first => ?_, fun apart done first picks => ?_⟩, fun guard _ kept => ?_,
    fun apart place => ?_⟩
  · refine Classical.not_not.1 fun clash => ?_
    obtain ⟨_, sane⟩ := sane done
    obtain ⟨picks, gone⟩ := sane.runs_out_of_not_apart clash
    exact gone (kept done first picks)
  · have even := start.makeAll done fun earlier before => apart earlier (before.trans first)
    exact (even.giveBackAll (apart done first) picks).allKept
  · obtain ⟨_, sane⟩ := sane deals
    exact kept.shutsOut sane.sound
  · exact (start.makeAll deals apart).table_giveBack_stale
      (apart deals (List.prefix_refl deals)) place

theorem stale_makeAll {deals : List Deal} (none : r.stale = [])
    (spared : ∀ owner, .releaseOwner owner ∉ deals) : (r.makeAll deals).stale = [] := by
  induction deals generalizing r with
  | nil => exact none
  | cons deal rest ih =>
    refine ih ?_ fun owner mem => spared owner (List.mem_cons_of_mem _ mem)
    cases deal with
    | acquire mode request =>
      simp only [Register.make]
      split <;> exact none
    | giveBack pick =>
      cases pick with
      | live place =>
        simp only [Register.make]
        split <;> exact none
      | stale place => simp [Register.make, none]
    | releaseOwner owner => exact absurd List.mem_cons_self (spared owner)
    | wait now => exact none

/-- As long as nobody's locks are dropped, all guards are kept. -/
theorem allKept_of_spared (graph : G) (policy : RetryPolicy) (now : Instant) {deals : List Deal}
    (spared : ∀ owner, .releaseOwner owner ∉ deals) :
    ((blank graph policy now).makeAll deals).AllKept := by
  refine ((even_blank graph policy now).makeAll deals fun done first old stale => ?_).allKept
  have none : ((blank graph policy now).makeAll done).stale = [] :=
    stale_makeAll rfl fun owner mem => spared owner (first.subset mem)
  exact absurd (none ▸ stale) List.not_mem_nil

/-- Alice locks `r`, loses all her locks, and locks `r` once more. -/
def relocked : Register Adjacency :=
  let request : Request := { owner := "alice", target := ⟨["r"], false⟩ }
  (blank ⟨.ofList [("r", [])]⟩ default 0).makeAll
    [.acquire .write request, .releaseOwner "alice", .acquire .write request]

/-- Then the guard of the first lock is given back. -/
def robbed : Register Adjacency := relocked.make (.giveBack (.stale 0))

/-- The second lock was held until then. Its guard is open still, but the lock is gone. -/
theorem robbed_not_allKept :
    ¬robbed.AllKept ∧
      (∃ guard ∈ robbed.live, guard.owner = "alice" ∧ guard.mode = .write ∧
        (guard.lease robbed.coordinator.graph).Covers "r" .direct) ∧
      relocked.table.count "r" "alice" ⟨.write, .direct⟩ = 1 ∧
      robbed.table.count "r" "alice" ⟨.write, .direct⟩ = 0 ∧
      ∃ c, Coordinator.tryAcquire .write { owner := "bob", target := ⟨["r"], false⟩ }
        robbed.coordinator = .ok true c := by
  have live : robbed.live = [⟨⟨["r"], false⟩, "alice", .write⟩] := by cbv
  have mem : ⟨⟨["r"], false⟩, "alice", .write⟩ ∈ robbed.live := live ▸ List.mem_singleton.2 rfl
  have covers : (Guard.lease ⟨⟨["r"], false⟩, "alice", .write⟩ robbed.coordinator.graph).Covers "r"
      .direct := by
    have laid : ((Guard.claims ⟨⟨["r"], false⟩, "alice", .write⟩
        robbed.coordinator.graph).getD "r" ∅).contains .direct = true := by cbv
    exact laid
  have held : relocked.table.count "r" "alice" ⟨.write, .direct⟩ = 1 := by cbv
  have gone : robbed.table.count "r" "alice" ⟨.write, .direct⟩ = 0 := by cbv
  have granted : Coordinator.tryAcquire .write { owner := "bob", target := ⟨["r"], false⟩ }
      robbed.coordinator = .ok true (leaves (Coordinator.tryAcquire .write
        { owner := "bob", target := ⟨["r"], false⟩ } robbed.coordinator)) := by cbv
  refine ⟨fun kept => ?_, ⟨_, mem, rfl, rfl, covers⟩, held, gone, _, granted⟩
  exact Nat.ne_of_gt (kept _ mem "r" .direct covers) gone

end Register

end SceneLock
