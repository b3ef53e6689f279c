import Mathlib
import SceneLock.Proofs.Extensionality
import SceneLock.Proofs.Guards
import SceneLock.Proofs.Turns

/-!
No lock leaks, though the graph changes all the time. An owner holds nothing through a root that it
does not hold at the root itself, and there at most what it was granted and has not given back.
-/

namespace SceneLock

open Std

variable {G : Type} [ObjectGraph G]

namespace Turn

/-- The turns, each with the coordinator that it meets. -/
def history (c : Coordinator G) : List (Turn G) → List (Coordinator G × Turn G)
  | [] => []
  | turn :: rest => (c, turn) :: history (turn.act c) rest

/-- The acquisition that was granted, if it was one. -/
def granted? : Coordinator G × Turn G → Option (Mode × Request)
  | (c, call (.tryAcquire mode request)) =>
    match Coordinator.tryAcquire mode request c with
    | .ok true _ => some (mode, request)
    | _ => none
  | _ => none

/-- The release that was asked for, if it was one. -/
def released? : Coordinator G × Turn G → Option (Mode × Request)
  | (_, call (.release mode request)) => some (mode, request)
  | _ => none

def names (o : Owner) (m : Mode) (tree : Bool) (id : Id) : Mode × Request → Bool
  | (mode, request) => Ledger.Names mode request o m tree id

def grants (o : Owner) (m : Mode) (tree : Bool) (id : Id) (p : Coordinator G × Turn G) : Bool :=
  (granted? p).any (names o m tree id)

def releases (o : Owner) (m : Mode) (tree : Bool) (id : Id) (p : Coordinator G × Turn G) : Bool :=
  (released? p).any (names o m tree id)

/-- The release finds something to give back under the id. -/
def finds (o : Owner) (m : Mode) (tree : Bool) (id : Id) (p : Coordinator G × Turn G) : Bool :=
  releases o m tree id p && (p.1.table.releaseOne o m tree id).1 ≠ 0

/-- Each acquisition that was granted has been answered by a later release for the same owner, mode
and target, and no two by the same one. -/
def Settled (history : List (Coordinator G × Turn G)) : Prop :=
  ∃ answer : Nat → Nat,
    (∀ i mode request, history[i]?.bind granted? = some (mode, request) →
      i < answer i ∧ ∃ back : Request, history[answer i]?.bind released? = some (mode, back) ∧
        back.owner = request.owner ∧ back.target = request.target) ∧
    ∀ i j, (history[i]?.bind granted?).isSome → (history[j]?.bind granted?).isSome →
      answer i = answer j → i = j

/-- The graph makes no entries. -/
def book (c : Coordinator G) (l : Ledger) : Turn G → Ledger
  | call k => k.book c l
  | reshape _ => l

/-- The ledger that is kept along the turns. -/
def bookAll (c : Coordinator G) (l : Ledger) : List (Turn G) → Ledger
  | [] => l
  | turn :: rest => bookAll (turn.act c) (turn.book c l) rest

end Turn

/-- The table is within the ledger: no object is counted more often than the id that its claim was
made through, and that id exactly as often as it is entered. -/
structure Ledger.Bounds (l : Ledger) (t : Table) : Prop where
  within : ∀ x o m claim, t.count x o ⟨m, claim⟩ ≤ l o m (claim.origin x).1 (claim.origin x).2
  exact : ∀ o m tree id, t.count id o ⟨m, .via tree id⟩ = l o m tree id

namespace Ledger.Bounds

variable {l : Ledger} {g : G} {t : Table}

theorem blank : Ledger.blank.Bounds Table.empty where
  within _ _ _ _ := Nat.le_refl 0
  exact _ _ _ _ := rfl

theorem granted (b : l.Bounds t) (s : t.Sound) {mode : Mode} {request : Request} {now : Instant}
    {claims : Claims} (made : Claims.ofTarget g request.target = .ok claims)
    (passed : t.stagedFault? claims request.owner mode now = none) :
    (l.enter mode request).Bounds (t.granted claims request.owner mode now) where
  within x o m claim := by
    have before := b.within x o m claim
    rw [s.count_granted passed, enter]
    by_cases laid : request.owner = o ∧ m = mode ∧ claim ∈ claims.getD x ∅
    · have named : Names mode request o m (claim.origin x).1 (claim.origin x).2 :=
        ⟨laid.1, laid.2.1, ((Claims.mem_ofTarget made).1 laid.2.2).2⟩
      rw [if_pos laid, if_pos named]
      omega
    · rw [if_neg laid]
      omega
  exact o m tree id := by
    rw [s.count_granted passed, b.exact, enter]
    congr 1
    refine if_congr (and_congr_right fun _ => and_congr_right fun _ => ?_) rfl rfl
    rw [Claims.mem_ofTarget made, Claim.origin_via]
    constructor
    · exact fun laid => laid.2
    · rintro ⟨rfl, named⟩
      exact ⟨Claims.reaches_of_ofTarget made id named, rfl, named⟩

theorem released (b : l.Bounds t) (s : t.Sound) (mode : Mode) (request : Request) :
    (l.strike mode request).Bounds
      (t.release request.target.ids request.owner mode request.target.tree).2 where
  within x o m claim := by
    rw [s.count_release]
    exact Nat.sub_le_sub_right (b.within x o m claim) _
  exact o m tree id := by
    rw [s.count_release, b.exact, Claim.origin_via]
    rfl

theorem releasedOwner (b : l.Bounds t) (owner : Owner) :
    (l.clear owner).Bounds (t.releaseOwner owner).2 where
  within x o m claim := by
    rw [Table.count_releaseOwner, clear]
    split
    · exact Nat.le_refl 0
    · exact b.within x o m claim
  exact o m tree id := by
    rw [Table.count_releaseOwner, b.exact]
    rfl

/-- No turn takes the table out of the bounds, whatever the graph looks like by then. -/
theorem turn {c : Coordinator G} (b : l.Bounds c.table) (s : c.table.Sound) (turn : Turn G) :
    (turn.book c l).Bounds (turn.act c).table := by
  cases turn with
  | reshape graph => exact b
  | call k =>
    cases k with
    | tryAcquire mode request =>
      simp only [Turn.act, Turn.book, Call.act, Call.book]
      obtain ⟨claims, made, _, passed, e⟩ | ⟨_, e⟩ | ⟨_, e⟩ := c.tryAcquire_cases mode request
      · rw [e]; exact b.granted s made passed
      · rw [e]; exact b
      · rw [e]; exact b
    | release mode request => exact b.released s mode request
    | releaseOwner owner =>
      simp only [Turn.act, Turn.book, Call.act, Call.book, Coordinator.table_releaseOwner]
      exact b.releasedOwner owner
    | wait now => exact b

/-- Through a root an owner holds nothing that it does not hold at the root. -/
theorem count_le_root (b : l.Bounds t) (x : Id) (o : Owner) (m : Mode) (root : Id) :
    t.count x o ⟨m, .tree root⟩ ≤ t.count root o ⟨m, .tree root⟩ :=
  (b.within x o m (.tree root)).trans_eq (b.exact o m true root).symm

end Ledger.Bounds

namespace Table

variable {t : Table} {owner : Owner}

theorem exists_of_revoke_ne_zero {hold : Hold} {on : Id → Bool}
    (found : (t.revoke owner hold on).1 ≠ 0) : ∃ x, on x ∧ (t.tally? x owner hold).isSome := by
  let held := t.records.filter fun id record => on id && (record.tally? owner hold).isSome
  have size : held.size ≠ 0 := found
  have some_held : held ≠ ∅ := fun none => size (by rw [none]; exact ExtTreeMap.size_empty)
  obtain ⟨x, mem⟩ := ne_empty_iff_exists_mem.1 some_held
  rw [ExtTreeMap.mem_iff_isSome_getElem?, ExtTreeMap.getElem?_filter'] at mem
  refine ⟨x, ?_⟩
  rw [tally?]
  cases there : t.records[x]? with
  | none => simp [there] at mem
  | some record => simpa [there] using mem

/-- What a release finds under an id was claimed through it. -/
theorem exists_of_releaseOne_ne_zero {mode : Mode} {tree : Bool} {id : Id}
    (found : (t.releaseOne owner mode tree id).1 ≠ 0) :
    ∃ x claim, claim.origin x = (tree, id) ∧ (t.tally? x owner ⟨mode, claim⟩).isSome := by
  cases tree with
  | true =>
    obtain ⟨x, _, has⟩ := exists_of_revoke_ne_zero found
    exact ⟨x, .tree id, rfl, has⟩
  | false =>
    obtain ⟨x, here, has⟩ := exists_of_revoke_ne_zero found
    exact ⟨x, .direct, by simpa [Claim.origin] using here, has⟩

end Table

theorem mem_findIdxs_iff {α : Type} {p : α → Bool} {before after : List α} {i : Nat} :
    i ∈ after.findIdxs p before.length ↔
      before.length ≤ i ∧ (before ++ after)[i]?.any p := by
  rw [List.mem_findIdxs_iff_getElem_sub_pos]
  refine and_congr_right fun behind => ?_
  rw [List.getElem?_append_right behind, Option.any_eq_true_iff_get]
  simp

/-- If every place with `p` has a place with `q` behind it to itself, there are no fewer of these
behind a cut. -/
theorem countP_le_countP_of_answered {α : Type} {p q : α → Bool} {after : List α}
    (before : List α) (answer : Nat → Nat)
    (later : ∀ i, (before ++ after)[i]?.any p →
      i < answer i ∧ (before ++ after)[answer i]?.any q)
    (apart : ∀ i j, (before ++ after)[i]?.any p → (before ++ after)[j]?.any p →
      answer i = answer j → i = j) :
    after.countP p ≤ after.countP q := by
  let asked := after.findIdxs p before.length
  have own : (asked.map answer).Nodup := by
    refine List.Nodup.map_on (fun i hi j hj => ?_) List.nodup_findIdxs
    exact apart i j (mem_findIdxs_iff.1 hi).2 (mem_findIdxs_iff.1 hj).2
  have behind : asked.map answer ⊆ after.findIdxs q before.length := by
    intro j mem
    obtain ⟨i, hi, rfl⟩ := List.mem_map.1 mem
    obtain ⟨cut, asks⟩ := mem_findIdxs_iff.1 hi
    obtain ⟨after_i, answers⟩ := later i asks
    exact mem_findIdxs_iff.2 ⟨by omega, answers⟩
  calc after.countP p = (asked.map answer).length := by rw [List.length_map, List.length_findIdxs]
    _ ≤ (after.findIdxs q before.length).length := (own.subperm behind).length_le
    _ = after.countP q := List.length_findIdxs

namespace Turn

variable {c : Coordinator G} {l : Ledger} {o : Owner} {m : Mode} {tree : Bool} {id : Id}

omit [ObjectGraph G] in
/-- Where a release finds something, there is an entry to strike. -/
theorem entry_of_finds (b : l.Bounds c.table) (s : c.table.Sound) {turn : Turn G}
    (found : finds o m tree id (c, turn)) : 0 < l o m tree id := by
  simp only [finds, Bool.and_eq_true, decide_eq_true_eq] at found
  -- In a changed graph it may be found on any object, but the entry bounds them all.
  obtain ⟨x, claim, origin, has⟩ := Table.exists_of_releaseOne_ne_zero found.2
  have within := b.within x o m claim
  rw [origin] at within
  exact Nat.lt_of_lt_of_le (s.count_pos_iff.2 has) within

/-- A turn leaves an entry at nothing, or raises it for a grant and lowers it for a release. -/
theorem book_cases (c : Coordinator G) (l : Ledger) (turn : Turn G) (o : Owner) (m : Mode)
    (tree : Bool) (id : Id) :
    turn.book c l o m tree id = 0 ∨
      turn.book c l o m tree id + (if releases o m tree id (c, turn) then 1 else 0) ≤
        l o m tree id + if grants o m tree id (c, turn) then 1 else 0 := by
  cases turn with
  | reshape graph => exact .inr (Nat.le_refl _)
  | call k =>
    cases k with
    | tryAcquire mode request =>
      refine .inr ?_
      simp only [releases, released?, grants, granted?, book, Call.book]
      obtain ⟨_, _, _, _, e⟩ | ⟨_, e⟩ | ⟨_, e⟩ := c.tryAcquire_cases mode request
      · simp [e, Ledger.enter, names]
      · simp [e]
      · simp [e]
    | release mode request =>
      simp only [releases, released?, Option.any_some, grants, granted?, Option.any_none, names,
        book, Call.book, Ledger.strike, decide_eq_true_eq]
      split
      · simp only [Bool.false_eq_true, if_false]
        omega
      · simp
    | releaseOwner owner =>
      simp only [book, Call.book, Ledger.clear]
      split
      · exact .inl rfl
      · exact .inr (Nat.le_refl _)
    | wait now => exact .inr (Nat.le_refl _)

/-- What a release finds was entered before, so that it can be struck. -/
theorem book_add_finds_le (b : l.Bounds c.table) (s : c.table.Sound) (turn : Turn G) (o : Owner)
    (m : Mode) (tree : Bool) (id : Id) :
    turn.book c l o m tree id + (if finds o m tree id (c, turn) then 1 else 0) ≤
      l o m tree id + if grants o m tree id (c, turn) then 1 else 0 := by
  have cases := book_cases c l turn o m tree id
  split
  · next found =>
    have entry := entry_of_finds b s found
    rw [if_pos (Bool.and_eq_true_iff.1 found).1] at cases
    omega
  · omega

section Runs

variable (c) (turns : List (Turn G))

theorem takeAll_bounds (r : c.table.Reachable) (b : l.Bounds c.table) :
    (takeAll turns c).table.Reachable ∧ (bookAll c l turns).Bounds (takeAll turns c).table := by
  induction turns generalizing c l with
  | nil => exact ⟨r, b⟩
  | cons turn rest ih => exact ih (turn.act c) (reachable_act r turn) (b.turn r.sound turn)

theorem bookAll_add_finds_le (r : c.table.Reachable) (b : l.Bounds c.table) (o : Owner) (m : Mode)
    (tree : Bool) (id : Id) :
    bookAll c l turns o m tree id + (history c turns).countP (finds o m tree id) ≤
      l o m tree id + (history c turns).countP (grants o m tree id) := by
  induction turns generalizing c l with
  | nil => exact Nat.le_refl _
  | cons turn rest ih =>
    have first := book_add_finds_le b r.sound turn o m tree id
    have later := ih (turn.act c) (reachable_act r turn) (b.turn r.sound turn)
    simp only [history, bookAll, List.countP_cons]
    omega

/-- A release that has nothing to strike is lost. Since the last time that the entry was nothing,
all of them counted. -/
theorem bookAll_add_releases_le (l : Ledger) (o : Owner) (m : Mode) (tree : Bool) (id : Id) :
    bookAll c l turns o m tree id + (history c turns).countP (releases o m tree id) ≤
        l o m tree id + (history c turns).countP (grants o m tree id) ∨
      ∃ before after, history c turns = before ++ after ∧
        bookAll c l turns o m tree id + after.countP (releases o m tree id) ≤
          after.countP (grants o m tree id) := by
  induction turns generalizing c l with
  | nil => exact .inl (Nat.le_refl _)
  | cons turn rest ih =>
    simp only [history, bookAll]
    obtain counted | ⟨before, after, parts, counted⟩ := ih (turn.act c) (turn.book c l)
    · obtain nothing | first := book_cases c l turn o m tree id
      · -- After this turn nothing is entered, so the count starts anew behind it.
        refine .inr ⟨[(c, turn)], history (turn.act c) rest, rfl, ?_⟩
        rwa [nothing, Nat.zero_add] at counted
      · left
        simp only [List.countP_cons]
        omega
    · exact .inr ⟨(c, turn) :: before, after, by rw [parts, List.cons_append], counted⟩

theorem bookAll_blank_add_releases_le (o : Owner) (m : Mode) (tree : Bool) (id : Id) :
    ∃ before after, history c turns = before ++ after ∧
      bookAll c .blank turns o m tree id + after.countP (releases o m tree id) ≤
        after.countP (grants o m tree id) := by
  obtain counted | parted := bookAll_add_releases_le c turns .blank o m tree id
  · rw [Ledger.blank, Nat.zero_add] at counted
    exact ⟨[], history c turns, rfl, counted⟩
  · exact parted

end Runs

theorem any_names_iff {α : Type} {asks? : α → Option (Mode × Request)} {a? : Option α} {o : Owner}
    {m : Mode} {tree : Bool} {id : Id} :
    a?.any (fun a => (asks? a).any (names o m tree id)) ↔ ∃ mode request,
      a?.bind asks? = some (mode, request) ∧ Ledger.Names mode request o m tree id := by
  have through : a?.any (fun a => (asks? a).any (names o m tree id)) =
      (a?.bind asks?).any (names o m tree id) := Option.any_bind.symm
  rw [through, Option.any_eq_true]
  simp [names]

/-- Wherever the past is cut, there are as many releases behind the cut as grants. -/
theorem Settled.countP_le {past before after : List (Coordinator G × Turn G)}
    (settled : Settled past) (parts : past = before ++ after) (o : Owner) (m : Mode) (tree : Bool)
    (id : Id) : after.countP (grants o m tree id) ≤ after.countP (releases o m tree id) := by
  subst parts
  obtain ⟨answer, later, apart⟩ := settled
  have asked (i : Nat) (asks : (before ++ after)[i]?.any (grants o m tree id)) :
      ((before ++ after)[i]?.bind granted?).isSome := by
    obtain ⟨_, _, made, _⟩ := any_names_iff.1 asks
    rw [made, Option.isSome_some]
  refine countP_le_countP_of_answered before answer (fun i asks => ?_)
    fun i j asks_i asks_j => apart i j (asked i asks_i) (asked j asks_j)
  obtain ⟨mode, request, made, own, same, shape, mem⟩ := any_names_iff.1 asks
  obtain ⟨behind, back, released, owner, target⟩ := later i mode request made
  refine ⟨behind, any_names_iff.2 ⟨mode, back, released, owner.trans own, same, ?_, ?_⟩⟩
  · rw [target, shape]
  · rwa [target]

/-- Whatever becomes of the graph, what an owner holds through a root it holds at the root as well,
there not more often than it was granted the root and has not given it back. Once every grant has
been answered by a release, nothing is held at all. -/
theorem balanced (graph : G) (policy : RetryPolicy) (now : Instant) (turns : List (Turn G)) :
    let start : Coordinator G := { graph, policy, now }
    let t := (takeAll turns start).table
    let past := history start turns
    (∀ o m root x, t.count x o ⟨m, .tree root⟩ ≤ t.count root o ⟨m, .tree root⟩) ∧
    (∀ o m root, t.count root o ⟨m, .tree root⟩ + past.countP (finds o m true root) ≤
      past.countP (grants o m true root)) ∧
    (Settled past → t = Table.empty) := by
  intro start t past
  let l := bookAll start Ledger.blank turns
  obtain ⟨reachable, bounds⟩ : t.Reachable ∧ l.Bounds t := takeAll_bounds start turns .empty .blank
  refine ⟨fun o m root x => bounds.count_le_root x o m root, fun o m root => ?_, fun settled => ?_⟩
  · have entered := bounds.exact o m true root
    have counted := bookAll_add_finds_le start turns .empty .blank o m true root
    rw [Ledger.blank, Nat.zero_add] at counted
    exact entered ▸ counted
  · have nothing (o : Owner) (m : Mode) (tree : Bool) (id : Id) :
        bookAll start .blank turns o m tree id = 0 := by
      obtain ⟨before, after, parts, counted⟩ := bookAll_blank_add_releases_le start turns o m tree id
      have answered := settled.countP_le parts o m tree id
      omega
    exact Table.Sound.eq_empty reachable.sound fun x o hold =>
      Nat.le_zero.1 ((bounds.within x o hold.mode hold.claim).trans_eq (nothing _ _ _ _))

def aliceTree : Request := { owner := "alice", target := ⟨["r"], true⟩ }

/-- Alice locks the tree of `r` before and after `b` joins it, and gives it back twice when nothing
is below `r` any more, and then once more. -/
def outgrown : List (Turn Adjacency) :=
  [.call (.tryAcquire .write aliceTree),
    .reshape ⟨.ofList [("r", ["a", "b"]), ("a", []), ("b", [])]⟩,
    .call (.tryAcquire .write aliceTree),
    .call (.tryAcquire .write { aliceTree with owner := "bob" }),
    .reshape ⟨.ofList [("r", []), ("a", []), ("b", [])]⟩,
    .call (.release .write aliceTree),
    .call (.release .write aliceTree),
    .call (.release .write aliceTree)]

def smallTree : Coordinator Adjacency := { graph := ⟨.ofList [("r", ["a"]), ("a", [])]⟩ }

def outgrownHeld : Table := (takeAll (outgrown.take 5) smallTree).table

def outgrownGrants : List (Option (Mode × Request)) := (history smallTree outgrown).map granted?

def outgrownReleases : List (Option (Mode × Request)) := (history smallTree outgrown).map released?

theorem bind_getElem? {α β : Type} (f : α → Option β) (xs : List α) (i : Nat) :
    xs[i]?.bind f = (xs.map f)[i]?.join := by
  rw [List.getElem?_map]
  cases xs[i]? <;> rfl

theorem outgrown_settled : Settled (history smallTree outgrown) := by
  have granted : outgrownGrants =
      [some (.write, aliceTree), none, some (.write, aliceTree), none, none, none, none, none] := by
    cbv
  have released : outgrownReleases =
      [none, none, none, none, none, some (.write, aliceTree), some (.write, aliceTree),
        some (.write, aliceTree)] := by
    cbv
  have asked (i : Nat) (mode : Mode) (request : Request)
      (made : (history smallTree outgrown)[i]?.bind granted? = some (mode, request)) :
      (i = 0 ∨ i = 2) ∧ mode = .write ∧ request = aliceTree := by
    rw [bind_getElem?, ← outgrownGrants, granted] at made
    rcases i with _ | _ | _ | _ | _ | _ | _ | _ | i
    all_goals simp at made
    · exact ⟨.inl rfl, made.1.symm, made.2.symm⟩
    · exact ⟨.inr rfl, made.1.symm, made.2.symm⟩
  have answered (i : Nat) (named : i = 5 ∨ i = 6) :
      (history smallTree outgrown)[i]?.bind released? = some (.write, aliceTree) := by
    rw [bind_getElem?, ← outgrownReleases, released]
    rcases named with rfl | rfl
    all_goals rfl
  refine ⟨fun i => if i = 0 then 5 else 6, fun i mode request made => ?_, fun i j hi hj same => ?_⟩
  · obtain ⟨rfl | rfl, rfl, rfl⟩ := asked i mode request made
    · exact ⟨by decide, aliceTree, answered 5 (.inl rfl), rfl, rfl⟩
    · exact ⟨by decide, aliceTree, answered 6 (.inr rfl), rfl, rfl⟩
  · obtain ⟨_, made_i⟩ := Option.isSome_iff_exists.1 hi
    obtain ⟨_, made_j⟩ := Option.isSome_iff_exists.1 hj
    obtain ⟨rfl | rfl, _⟩ := asked i _ _ made_i
    all_goals obtain ⟨rfl | rfl, _⟩ := asked j _ _ made_j
    all_goals revert same; decide

theorem outgrown_balanced :
    outgrownHeld.count "a" "alice" ⟨.write, .tree "r"⟩ = 2 ∧
      outgrownHeld.count "b" "alice" ⟨.write, .tree "r"⟩ = 1 ∧
      Settled (history smallTree outgrown) ∧
      (takeAll outgrown smallTree).table = Table.empty :=
  ⟨by cbv, by cbv, outgrown_settled, (balanced _ _ _ outgrown).2.2 outgrown_settled⟩

end Turn

end SceneLock
