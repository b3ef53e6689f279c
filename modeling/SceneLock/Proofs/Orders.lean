import SceneLock.Proofs.Answers

/-!
Attempts one after another. An attempt makes a difference to another one only through a hold that
bars the other's owner, or by taking the last count that there was room for. So a request comes to
the same as its parts in turn, and independent requests may come in any order.
-/

namespace SceneLock

open Std

variable {G : Type} [ObjectGraph G] {g : G}

/-- The same request for other objects. -/
def Request.only (request : Request) (ids : List Id) : Request :=
  { request with target := ⟨ids, request.target.tree⟩ }

/-- No object is claimed by both targets. A target that cannot be resolved claims nothing. -/
def Target.Apart (g : G) (target other : Target) : Prop :=
  ∀ claims others : Claims, Claims.ofTarget g target = .ok claims →
    Claims.ofTarget g other = .ok others → ∀ x ∈ claims, x ∉ others

theorem Target.asks_parts_iff {ids first second : List Id}
    (parts : ∀ id, id ∈ ids ↔ id ∈ first ∨ id ∈ second) (tree : Bool) (x : Id) (claim : Claim) :
    Target.Asks ⟨ids, tree⟩ g x claim ↔
      Target.Asks ⟨first, tree⟩ g x claim ∨ Target.Asks ⟨second, tree⟩ g x claim := by
  cases claim with
  | direct => simp only [Asks, parts, and_or_left]
  | tree root => simp only [Asks, parts, or_and_right, and_or_left]

/-- Parts that share no id share no claim, even where their subtrees overlap. -/
theorem Target.not_asks_both {first second : List Id} (disjoint : ∀ id ∈ first, id ∉ second)
    {tree : Bool} {x : Id} {claim : Claim} (one : Target.Asks ⟨first, tree⟩ g x claim) :
    ¬Target.Asks ⟨second, tree⟩ g x claim := by
  intro other
  cases claim with
  | direct => exact disjoint x one.2 other.2
  | tree root => exact disjoint root one.2.1 other.2.1

theorem Request.wants_parts_iff (request : Request) {ids first second : List Id}
    (parts : ∀ id, id ∈ ids ↔ id ∈ first ∨ id ∈ second) (mode : Mode) (x : Id) (o : Owner)
    (hold : Hold) :
    (request.only ids).Wants g mode x o hold ↔
      (request.only first).Wants g mode x o hold ∨ (request.only second).Wants g mode x o hold := by
  simp only [Wants, only, Target.asks_parts_iff parts, and_or_left]

namespace Coordinator

variable {c d : Coordinator G} {mode m₁ m₂ : Mode} {request r₁ r₂ : Request}

theorem answer_of_table (s : c.table.Sound) (graph : d.graph = c.graph) (same : d.table = c.table)
    (now later : Instant) (mode : Mode) (request : Request) :
    (d.attempt later mode request).1 = (c.attempt now mode request).1 := by
  apply answer_congr s (same ▸ s) graph
  · intro x claim _
    rw [same]
  · intro x claim _
    rw [same]

/-- What an attempt is answered does not depend on another one before it, unless that one is for
holds that bar the owner, or takes the last room in a count that both ask for. -/
theorem answer_after (h : c.table.Reachable) (now later anytime : Instant)
    (free : ∀ x wanted claim, r₁.target.Asks c.graph x wanted → r₂.target.Asks c.graph x claim →
      ¬Bars r₂.owner m₂ r₁.owner ⟨m₁, wanted⟩)
    (room : ∀ x claim, r₁.target.Asks c.graph x claim → r₂.target.Asks c.graph x claim →
      r₁.owner = r₂.owner → m₁ = m₂ → c.table.count x r₁.owner ⟨m₁, claim⟩ + 2 ≠ UInt32.size) :
    ((c.attempt now m₁ r₁).2.attempt later m₂ r₂).1 = (c.attempt anytime m₂ r₂).1 := by
  have s := h.sound
  have v := (reachable_attempt h now m₁ r₁).sound
  apply answer_congr s v (c.graph_attempt now m₁ r₁)
  · intro x claim asked
    apply s.admits_congr v
    intro holder hold bars
    rw [count_attempt s, if_neg, Nat.add_zero]
    rintro ⟨_, rfl, rfl, wanted⟩
    exact free x hold.claim claim wanted asked bars
  · intro x claim asked
    rw [count_attempt s]
    split
    · next raised =>
      obtain ⟨granted, owner, same, wanted⟩ := raised
      obtain rfl : m₂ = m₁ := same
      have before := (((answer_eq_true_iff s).1 granted).2 x claim wanted).2
      have spare := room x claim wanted asked owner rfl
      rw [owner] at before spare
      omega
    · rfl

theorem answer_after_apart (h : c.table.Reachable) (now later anytime : Instant)
    (apart : Target.Apart c.graph r₁.target r₂.target) :
    ((c.attempt now m₁ r₁).2.attempt later m₂ r₂).1 = (c.attempt anytime m₂ r₂).1 := by
  obtain ⟨_, claims, resolved, meet⟩ | ⟨_, e, unresolved⟩ :=
    Claims.ofTarget_eq_ok_or_error c.graph r₁.target
  · obtain ⟨_, others, resolved', meet'⟩ | ⟨_, e, unresolved⟩ :=
      Claims.ofTarget_eq_ok_or_error c.graph r₂.target
    · have disjoint (x : Id) (wanted claim : Claim) (one : r₁.target.Asks c.graph x wanted) :
          ¬r₂.target.Asks c.graph x claim := by
        intro other
        exact apart claims others resolved resolved' x (meet.mem_iff.2 ⟨wanted, one⟩)
          (meet'.mem_iff.2 ⟨claim, other⟩)
      apply answer_after h
      · intro x wanted claim one other
        exact absurd other (disjoint x wanted claim one)
      · intro x claim one other
        exact absurd other (disjoint x claim claim one)
    · have still := (c.graph_attempt now m₁ r₁).symm ▸ unresolved
      rw [attempt_of_error unresolved, attempt_of_error still]
  · apply answer_of_table h.sound (c.graph_attempt now m₁ r₁)
    rw [attempt_of_error unresolved]

/-- In whichever order two attempts are made, each gets the same answer as the other way round, and
the same holders are left. -/
def Commute (c : Coordinator G) (m₁ : Mode) (r₁ : Request) (m₂ : Mode) (r₂ : Request) : Prop :=
  ∀ n₁ n₂ k₂ k₁ : Instant,
    let first := c.attempt n₁ m₁ r₁
    let second := first.2.attempt n₂ m₂ r₂
    let early := c.attempt k₂ m₂ r₂
    let late := early.2.attempt k₁ m₁ r₁
    second.1 = early.1 ∧ late.1 = first.1 ∧ second.2.table.SameHolders late.2.table

theorem commute_of_answers (h : c.table.Reachable)
    (forth : ∀ n₁ n₂ k₂, ((c.attempt n₁ m₁ r₁).2.attempt n₂ m₂ r₂).1 = (c.attempt k₂ m₂ r₂).1)
    (back : ∀ k₂ k₁ n₁, ((c.attempt k₂ m₂ r₂).2.attempt k₁ m₁ r₁).1 = (c.attempt n₁ m₁ r₁).1) :
    c.Commute m₁ r₁ m₂ r₂ := by
  intro n₁ n₂ k₂ k₁
  have h₁ := reachable_attempt h n₁ m₁ r₁
  have h₂ := reachable_attempt h k₂ m₂ r₂
  refine ⟨forth n₁ n₂ k₂, back k₂ k₁ n₁, ?_⟩
  apply (reachable_attempt h₁ n₂ m₂ r₂).sound.sameHolders (reachable_attempt h₂ k₁ m₁ r₁).sound
  intro x o hold
  rw [count_attempt h₁.sound, count_attempt h.sound, count_attempt h₂.sound, count_attempt h.sound,
    forth n₁ n₂ k₂, back k₂ k₁ n₁, graph_attempt, graph_attempt]
  exact Nat.add_right_comm _ _ _

/-- Two attempts come to the same in either order if they have no object in common, so that neither
can make the other one contend, or if both are for reading. The one thing that two readers can take
from each other is the room in a count: if they are the same owner and ask for one hold that can be
counted only once more, then whichever comes second finds the count at its bound. -/
theorem Reachable.independent_attempts_commute (h : c.Reachable) (m₁ m₂ : Mode)
    (r₁ r₂ : Request) :
    (Target.Apart c.graph r₁.target r₂.target → c.Commute m₁ r₁ m₂ r₂) ∧
    (c.Commute .read r₁ .read r₂ ∨ r₁.owner = r₂.owner ∧
      ∃ x claim, r₁.target.Asks c.graph x claim ∧ r₂.target.Asks c.graph x claim ∧
        c.table.count x r₁.owner ⟨.read, claim⟩ + 2 = UInt32.size) := by
  constructor
  · intro apart
    apply commute_of_answers h.table
    · intro n₁ n₂ k₂
      exact answer_after_apart h.table n₁ n₂ k₂ apart
    · intro k₂ k₁ n₁
      apply answer_after_apart h.table k₂ k₁ n₁
      intro others claims resolved' resolved x there here
      exact apart claims others resolved resolved' x here there
  · by_cases scarce : r₁.owner = r₂.owner ∧ ∃ x claim, r₁.target.Asks c.graph x claim ∧
        r₂.target.Asks c.graph x claim ∧
          c.table.count x r₁.owner ⟨.read, claim⟩ + 2 = UInt32.size
    · exact .inr scarce
    · left
      have free (o p : Owner) (claim : Claim) : ¬Bars o .read p ⟨.read, claim⟩ :=
        not_bars_read o p claim
      apply commute_of_answers h.table
      · intro n₁ n₂ k₂
        apply answer_after h.table
        · intro x wanted claim _ _
          exact free _ _ wanted
        · intro x claim one other owner _ last
          exact scarce ⟨owner, x, claim, one, other, last⟩
      · intro k₂ k₁ n₁
        apply answer_after h.table
        · intro x wanted claim _ _
          exact free _ _ wanted
        · intro x claim other one owner _ last
          exact scarce ⟨owner.symm, x, claim, one, other, owner ▸ last⟩

def bobOnBoth : Request := { owner := "bob", target := ⟨["x", "y"], false⟩ }

/-- Bob has room for one more read lock on `x`. Of two requests of his that ask for it, the first is
granted and the second is not, whichever that is. Nor does a bare name commute with a claim of the
same owner: it is granted to those who hold the object already, and fails for others. -/
theorem last_count_goes_once :
    let c := bobReads (UInt32.size - 2)
    let claimed := (∅ : Claims).lay "x" .direct
    let bare := (∅ : Claims).insert "x" ∅
    c.Reachable ∧ ¬c.Commute .read bobOnX .read bobOnBoth ∧
      (∃ t u, Table.empty.tryAcquire claimed "alice" .read 0 = .ok .granted t ∧
        t.tryAcquire bare "alice" .read 0 = .ok .granted u) ∧
      Table.empty.tryAcquire bare "alice" .read 0 =
        .error (.brokenRecord "x" (.noClaims "alice")) Table.empty := by
  intro c claimed bare
  have few : UInt32.size - 2 < UInt32.size := by decide
  have reached : c.Reachable := reachable_bobReads _
  have free (x : Id) : c.table.admits x "bob" .read := admits_bobReads few x "bob"
  obtain ⟨graph, counts⟩ : c.graph = twoObjects ∧ _ := count_bobReads few
  refine ⟨reached, fun commute => ?_, ⟨_, _, rfl, rfl⟩, rfl⟩
  have s := reached.table.sound
  have granted {ids : List Id} (some_id : ids ≠ []) (named : ∀ id ∈ ids, id ∈ ["x", "y"]) :
      (c.attempt 0 .read { owner := "bob", target := ⟨ids, false⟩ }).1 = .ok true := by
    refine (answer_eq_true_iff s).2 ⟨?_, fun x claim _ => ⟨free x, ?_⟩⟩
    · rw [graph]
      exact known_twoObjects some_id named
    · show c.table.count x "bob" ⟨.read, claim⟩ ≠ _
      rw [counts]
      split <;> decide
  have one : (c.attempt 0 .read bobOnX).1 = .ok true := granted (by decide) (by decide)
  have other : (c.attempt 0 .read bobOnBoth).1 = .ok true := granted (by decide) (by decide)
  have asked : Target.Asks bobOnX.target c.graph "x" .direct := ⟨rfl, List.mem_singleton_self _⟩
  -- after the one, the other finds no room left
  have last : (c.attempt 0 .read bobOnX).2.table.count "x" "bob" ⟨.read, .direct⟩ =
      UInt32.size - 1 := by
    rw [count_of_granted s one, counts, if_pos ⟨rfl, rfl, rfl⟩, if_pos ⟨rfl, rfl, asked⟩]
    rfl
  have late : ((c.attempt 0 .read bobOnX).2.attempt 0 .read bobOnBoth).1 = .ok true :=
    (commute 0 0 0 0).1.trans other
  have v := (reachable_attempt reached.table 0 .read bobOnX).sound
  have room := ((answer_eq_true_iff v).1 late).2 "x" .direct ⟨rfl, by simp [bobOnBoth]⟩
  exact room.2 last

/-- Two roots with one object below both. -/
def sharedChild : Coordinator Adjacency :=
  { graph := ⟨.ofList [("r", ["x"]), ("s", ["x"]), ("x", [])]⟩ }

def aliceOnTree : Request := { owner := "alice", target := ⟨["r"], true⟩ }

def bobOnTree : Request := { owner := "bob", target := ⟨["s"], true⟩ }

def bobOnRoot : Request := { owner := "bob", target := ⟨["s"], false⟩ }

theorem sharedChild_commutes :
    sharedChild.Reachable ∧
      Target.Apart sharedChild.graph aliceOnTree.target bobOnRoot.target ∧
      (sharedChild.attempt 0 .write aliceOnTree).1 = .ok true ∧
      ((sharedChild.attempt 0 .write aliceOnTree).2.attempt 1 .read bobOnRoot).1 = .ok true ∧
      sharedChild.Commute .write aliceOnTree .read bobOnRoot ∧
      sharedChild.Commute .read aliceOnTree .read bobOnTree ∧
      ((sharedChild.attempt 0 .read aliceOnTree).2.attempt 1 .read bobOnTree).1 = .ok true := by
  have reached : sharedChild.Reachable := .start _ default 0
  have apart : Target.Apart sharedChild.graph aliceOnTree.target bobOnRoot.target := by
    intro claims others resolved resolved' x mem other
    have root : x = "s" := by simpa [Claims.mem_claims_iff_named resolved', bobOnRoot] using other
    subst root
    have tree : ObjectGraph.subtree sharedChild.graph "r" = ["r", "x"] := by cbv
    simp [Claims.mem_claims_iff_named resolved, aliceOnTree, tree] at mem
  have alone := (reached.independent_attempts_commute .write .read aliceOnTree bobOnRoot).1 apart
  have readers := (reached.independent_attempts_commute .read .read aliceOnTree bobOnTree).2
  have shared : sharedChild.Commute .read aliceOnTree .read bobOnTree := by
    apply readers.resolve_right
    rintro ⟨same, _⟩
    exact absurd same (by decide)
  refine ⟨reached, apart, by cbv, ?_, alone, shared, ?_⟩
  · rw [(alone 0 1 0 0).1]
    cbv
  · rw [(shared 0 1 0 0).1]
    cbv

section

variable {ids first second : List Id}

/-- A part is told what it would have been told without the other part before it: nobody is barred
by their own grants in the same mode, and no claim is in both parts. -/
theorem answer_of_part (h : c.table.Reachable) (disjoint : ∀ id ∈ first, id ∉ second)
    (now later anytime : Instant) (mode : Mode) (request : Request) :
    ((c.attempt now mode (request.only first)).2.attempt later mode (request.only second)).1 =
      (c.attempt anytime mode (request.only second)).1 := by
  apply answer_after h
  · intro x wanted claim _ _
    exact not_bars_own request.owner mode wanted
  · intro x claim one other
    exact absurd other (Target.not_asks_both disjoint one)

variable (h : c.table.Reachable) (parts : ∀ id, id ∈ ids ↔ id ∈ first ∨ id ∈ second)
  (disjoint : ∀ id ∈ first, id ∉ second) (now earlier later : Instant) (mode : Mode)
  (request : Request)

include h parts disjoint

theorem batch_granted_iff (some_first : first ≠ []) (some_second : second ≠ []) :
    (c.attempt now mode (request.only ids)).1 = .ok true ↔
      (c.attempt earlier mode (request.only first)).1 = .ok true ∧
      ((c.attempt earlier mode (request.only first)).2.attempt later mode
        (request.only second)).1 = .ok true := by
  have s := h.sound
  have some_id : ids ≠ [] := by
    obtain ⟨id, named⟩ := List.exists_mem_of_ne_nil _ some_first
    exact List.ne_nil_of_mem ((parts id).2 (.inl named))
  rw [answer_of_part h disjoint earlier later now, answer_eq_true_iff s, answer_eq_true_iff s,
    answer_eq_true_iff s]
  simp only [Target.Known, Request.only, Target.asks_parts_iff parts, parts, or_imp, forall_and,
    some_id, some_first, some_second, ne_eq, not_false_eq_true, true_and]
  tauto

theorem batch_holders (granted : (c.attempt now mode (request.only ids)).1 = .ok true)
    (one : (c.attempt earlier mode (request.only first)).1 = .ok true)
    (other : ((c.attempt earlier mode (request.only first)).2.attempt later mode
      (request.only second)).1 = .ok true) :
    (c.attempt now mode (request.only ids)).2.table.SameHolders
      ((c.attempt earlier mode (request.only first)).2.attempt later mode
        (request.only second)).2.table := by
  have h₁ := reachable_attempt h earlier mode (request.only first)
  apply (reachable_attempt h now mode (request.only ids)).sound.sameHolders
    (reachable_attempt h₁ later mode (request.only second)).sound
  intro x o hold
  have wants := request.wants_parts_iff (g := c.graph) parts mode x o hold
  rw [count_of_granted h.sound granted, count_of_granted h₁.sound other,
    count_of_granted h.sound one, graph_attempt]
  by_cases here : (request.only first).Wants c.graph mode x o hold
  · have not_there : ¬(request.only second).Wants c.graph mode x o hold :=
      fun there => Target.not_asks_both disjoint here.2.2 there.2.2
    rw [if_pos (wants.2 (.inl here)), if_pos here, if_neg not_there]
  · by_cases there : (request.only second).Wants c.graph mode x o hold
    · rw [if_pos (wants.2 (.inr there)), if_neg here, if_pos there]
    · rw [if_neg fun some_part => (wants.1 some_part).elim here there, if_neg here, if_neg there]

end

/-- A request is granted exactly if its objects can be taken in two parts, one part after the other
and either one first, and the same holders are left then. -/
theorem Reachable.batch_is_its_parts (h : c.Reachable) (mode : Mode) (request : Request)
    {first second : List Id} (distinct : request.target.ids.Nodup)
    (cut : request.target.ids.Perm (first ++ second)) (some_first : first ≠ [])
    (some_second : second ≠ []) (now earlier later : Instant) :
    let whole := c.attempt now mode request
    let one := c.attempt earlier mode (request.only first)
    let other := one.2.attempt later mode (request.only second)
    (whole.1 = .ok true ↔ one.1 = .ok true ∧ other.1 = .ok true) ∧
    (whole.1 = .ok true → whole.2.table.SameHolders other.2.table) := by
  intro whole one other
  have parts (id : Id) : id ∈ request.target.ids ↔ id ∈ first ∨ id ∈ second := by
    rw [cut.mem_iff, List.mem_append]
  have disjoint : ∀ id ∈ first, id ∉ second := by
    intro id here there
    exact (List.nodup_append.1 (cut.nodup_iff.1 distinct)).2.2 id here id there rfl
  have granted_iff : whole.1 = .ok true ↔ one.1 = .ok true ∧ other.1 = .ok true :=
    batch_granted_iff h.table parts disjoint now earlier later mode request some_first some_second
  refine ⟨granted_iff, fun granted => ?_⟩
  obtain ⟨one_granted, other_granted⟩ := granted_iff.1 granted
  exact batch_holders h.table parts disjoint now earlier later mode request granted one_granted
    other_granted

/-- Alice reads `x`, the object that the two roots share. -/
def aliceOnShared : Coordinator Adjacency :=
  (sharedChild.attempt 0 .read { owner := "alice", target := ⟨["x"], false⟩ }).2

def aliceOnBoth : Request := { owner := "alice", target := ⟨["r", "s"], true⟩ }

theorem aliceOnShared_parts :
    let whole := aliceOnShared.attempt 1 .write aliceOnBoth
    let one := aliceOnShared.attempt 2 .write (aliceOnBoth.only ["s"])
    let other := one.2.attempt 3 .write (aliceOnBoth.only ["r"])
    aliceOnShared.Reachable ∧ aliceOnBoth.target.ids.Nodup ∧
      aliceOnBoth.target.ids.Perm (["s"] ++ ["r"]) ∧ whole.1 = .ok true ∧ one.1 = .ok true ∧
      other.1 = .ok true ∧ other.2.table.count "x" "alice" ⟨.write, .tree "r"⟩ = 1 ∧
      whole.2.table.SameHolders other.2.table := by
  intro whole one other
  have reached : aliceOnShared.Reachable := .attempt (.start _ default 0) 0 .read _
  have distinct : aliceOnBoth.target.ids.Nodup := by decide
  have cut : aliceOnBoth.target.ids.Perm (["s"] ++ ["r"]) := by decide
  obtain ⟨granted_iff, holders⟩ := reached.batch_is_its_parts .write aliceOnBoth distinct cut
    (List.cons_ne_nil _ _) (List.cons_ne_nil _ _) 1 2 3
  have granted : whole.1 = .ok true := by cbv
  obtain ⟨one_granted, other_granted⟩ := granted_iff.1 granted
  exact ⟨reached, distinct, cut, granted, one_granted, other_granted, by cbv, holders granted⟩

/-- Takes the objects of a request one at a time, each at its own time. -/
def attemptEach (mode : Mode) (request : Request) (c : Coordinator G)
    (steps : List (Id × Instant)) : Coordinator G :=
  steps.foldl (fun c (id, now) => (c.attempt now mode (request.only [id])).2) c

/-- Each of the objects is granted when its turn comes. -/
def EachGranted (mode : Mode) (request : Request) : Coordinator G → List (Id × Instant) → Prop
  | _, [] => True
  | c, (id, now) :: rest =>
    (c.attempt now mode (request.only [id])).1 = .ok true ∧
      EachGranted mode request (c.attempt now mode (request.only [id])).2 rest

theorem holders_of_time (h : c.table.Reachable) (now later : Instant) :
    (c.attempt now mode request).2.table.SameHolders (c.attempt later mode request).2.table := by
  apply (reachable_attempt h now mode request).sound.sameHolders
    (reachable_attempt h later mode request).sound
  intro x o hold
  rw [count_attempt h.sound, count_attempt h.sound,
    answer_of_table h.sound rfl rfl now later mode request]

/-- So a request comes to as many requests for one object each, in any order. -/
theorem batch_is_its_members (h : c.table.Reachable) (mode : Mode) (request : Request)
    {steps : List (Id × Instant)} (some_step : steps ≠ []) (distinct : (steps.map Prod.fst).Nodup)
    (now : Instant) :
    let whole := c.attempt now mode (request.only (steps.map Prod.fst))
    (whole.1 = .ok true ↔ c.EachGranted mode request steps) ∧
    (whole.1 = .ok true → whole.2.table.SameHolders (c.attemptEach mode request steps).table) := by
  induction steps generalizing c now with
  | nil => exact absurd rfl some_step
  | cons step rest ih =>
    obtain ⟨id, turn⟩ := step
    obtain ⟨fresh, distinct⟩ := List.nodup_cons.1 distinct
    by_cases last : rest = []
    · subst last
      have same := answer_of_table h.sound rfl rfl turn now mode (request.only [id])
      exact ⟨by simp only [List.map_cons, List.map_nil, EachGranted, and_true, same],
        fun _ => holders_of_time h now turn⟩
    · have parts (other : Id) : other ∈ id :: rest.map Prod.fst ↔
          other ∈ [id] ∨ other ∈ rest.map Prod.fst := by
        rw [List.mem_cons, List.mem_singleton]
      have disjoint : ∀ other ∈ [id], other ∉ rest.map Prod.fst := by
        intro other here
        rwa [List.mem_singleton.1 here]
      have some_rest : rest.map Prod.fst ≠ [] := mt List.map_eq_nil_iff.1 last
      obtain ⟨rest_iff, rest_holders⟩ :=
        ih (reachable_attempt h turn mode (request.only [id])) last distinct turn
      have granted_iff := batch_granted_iff h parts disjoint now turn turn mode request
        (List.cons_ne_nil _ _) some_rest
      refine ⟨granted_iff.trans (and_congr_right fun _ => rest_iff), fun granted => ?_⟩
      obtain ⟨one, other⟩ := granted_iff.1 granted
      intro x
      exact (batch_holders h parts disjoint now turn turn mode request granted one other x).trans
        (rest_holders other x)

end Coordinator

end SceneLock
