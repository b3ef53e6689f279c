import SceneLock.Request
import SceneLock.Proofs.Extensionality
import SceneLock.Proofs.Runs
import SceneLock.Proofs.Totals

/-!
What a release takes: one count of each hold that was claimed through the ids given back, whatever
the object. Neither the order of the ids nor the order of two releases makes a difference.
-/

namespace SceneLock

open Std

/-- The holds that giving back a target is about: those on the ids themselves or, with `tree`, those
through them as roots, on any object. -/
def Target.Recalls (target : Target) (x : Id) : Claim → Prop
  | .direct => target.tree = false ∧ x ∈ target.ids
  | .tree root => target.tree ∧ root ∈ target.ids

theorem Target.recalls_iff {target : Target} {x : Id} {claim : Claim} :
    target.Recalls x claim ↔
      (claim.origin x).1 = target.tree ∧ (claim.origin x).2 ∈ target.ids := by
  cases claim with
  | direct => exact and_congr_left' eq_comm
  | tree root => exact and_congr_left' (@eq_comm _ target.tree true)

theorem distinct_congr {ids others : List Id} (same : ∀ id, id ∈ others ↔ id ∈ ids) :
    distinct others = distinct ids := by
  have sets : ExtTreeSet.ofList others = ExtTreeSet.ofList ids := by
    apply ExtTreeSet.ext_mem
    simpa [ExtTreeSet.mem_ofList] using same
  rw [distinct, sets, distinct]

theorem distinct_singleton (id : Id) : distinct [id] = [id] := by
  apply List.perm_singleton.1
  apply (List.perm_ext_iff_of_nodup (nodup_distinct _) (List.pairwise_singleton _ id)).2
  intro other
  exact mem_distinct

namespace Table

/-- What is left of a table when one count is taken from each hold of an owner that is recalled.
Nothing empty is left, and nothing else is changed. -/
structure RemainsOf (left t : Table) (owner : Owner) (mode : Mode) (target : Target) : Prop where
  taken : ∀ x claim, target.Recalls x claim →
    left.count x owner ⟨mode, claim⟩ = t.count x owner ⟨mode, claim⟩ - 1
  spared : ∀ x o hold, ¬(o = owner ∧ hold.mode = mode ∧ target.Recalls x hold.claim) →
    left.count x o hold = t.count x o hold
  holds : ∀ x o hold, (left.tally? x o hold).isSome ↔ 0 < left.count x o hold
  holders : ∀ x o, (∃ record, left.records[x]? = some record ∧ o ∈ record.holders) ↔
    ∃ hold, 0 < left.count x o hold
  records : ∀ x, x ∈ left.records ↔ ∃ o hold, 0 < left.count x o hold
  dates : ∀ x ∈ left.records, left.since? x = t.since? x

/-- The numbers of the single releases, added up. -/
def revokedEach (t : Table) (owner : Owner) (mode : Mode) (tree : Bool) : List Id → Nat
  | [] => 0
  | id :: rest =>
    (t.releaseOne owner mode tree id).1 +
      (t.releaseOne owner mode tree id).2.revokedEach owner mode tree rest

/-- Releases the ids one by one, in the order given, and adds up the numbers. -/
def releaseInTurn (t : Table) (ids : List Id) (owner : Owner) (mode : Mode) (tree : Bool) :
    Nat × Table :=
  ids.foldl (fun (revoked, t) id =>
    let (n, t) := t.release [id] owner mode tree
    (revoked + n, t)) (0, t)

variable {t left : Table} {owner : Owner} {mode : Mode} {tree : Bool}

theorem releaseEach_cons (t : Table) (owner : Owner) (mode : Mode) (tree : Bool) (id : Id)
    (rest : List Id) :
    t.releaseEach owner mode tree (id :: rest) =
      (t.releaseOne owner mode tree id).2.releaseEach owner mode tree rest := rfl

theorem foldl_releaseOne (t : Table) (owner : Owner) (mode : Mode) (tree : Bool) (ids : List Id)
    (revoked : Nat) :
    ids.foldl (fun (revoked, t) id =>
      let (n, t) := t.releaseOne owner mode tree id
      (revoked + n, t)) (revoked, t) =
    (revoked + t.revokedEach owner mode tree ids, t.releaseEach owner mode tree ids) := by
  induction ids generalizing t revoked with
  | nil => rfl
  | cons id rest ih =>
    rw [List.foldl_cons, ih, revokedEach, releaseEach_cons, ← Nat.add_assoc]

theorem release_eq_each (t : Table) (ids : List Id) (owner : Owner) (mode : Mode) (tree : Bool) :
    t.release ids owner mode tree =
      (t.revokedEach owner mode tree (distinct ids),
        t.releaseEach owner mode tree (distinct ids)) := by
  rw [release, foldl_releaseOne, Nat.zero_add]

theorem release_singleton (t : Table) (id : Id) (owner : Owner) (mode : Mode) (tree : Bool) :
    t.release [id] owner mode tree = t.releaseOne owner mode tree id := by
  rw [release_eq_each, distinct_singleton]
  rfl

theorem releaseInTurn_eq_each (t : Table) (ids : List Id) (owner : Owner) (mode : Mode)
    (tree : Bool) :
    t.releaseInTurn ids owner mode tree =
      (t.revokedEach owner mode tree ids, t.releaseEach owner mode tree ids) := by
  simp only [releaseInTurn, release_singleton]
  rw [foldl_releaseOne, Nat.zero_add]

theorem Sound.total_each (s : t.Sound) (owner : Owner) (mode : Mode) (tree : Bool)
    (ids : List Id) :
    t.revokedEach owner mode tree ids + (t.releaseEach owner mode tree ids).total = t.total := by
  induction ids generalizing t with
  | nil => exact Nat.zero_add _
  | cons id rest ih =>
    have first := s.total_releaseOne owner mode tree id
    have later := ih (s.releaseOne owner mode tree id)
    rw [revokedEach, releaseEach_cons]
    omega

theorem Sound.total_release (s : t.Sound) (ids : List Id) (owner : Owner) (mode : Mode)
    (tree : Bool) :
    (t.release ids owner mode tree).1 + (t.release ids owner mode tree).2.total = t.total := by
  rw [release_eq_each]
  exact s.total_each owner mode tree _

/-- Tables with the same counts that have both kept the dates of a third are the same. -/
theorem Sound.eq_of_dates_kept {u : Table} (s : left.Sound) (v : u.Sound)
    (counts : ∀ x o hold, left.count x o hold = u.count x o hold)
    (kept : ∀ x ∈ left.records, left.since? x = t.since? x)
    (too : ∀ x ∈ u.records, u.since? x = t.since? x) : left = u := by
  apply s.ext v counts
  intro x mem
  have there : x ∈ u.records := by
    rw [s.mem_records_iff] at mem
    simp only [v.mem_records_iff, ← counts]
    exact mem
  rw [kept x mem, too x there]

/-- The order in which ids are released makes no difference. -/
theorem Sound.each_congr (s : t.Sound) (owner : Owner) (mode : Mode) (tree : Bool)
    {ids others : List Id} (nodup : ids.Nodup) (nodup' : others.Nodup)
    (same : ∀ id, id ∈ others ↔ id ∈ ids) :
    t.releaseEach owner mode tree others = t.releaseEach owner mode tree ids ∧
      t.revokedEach owner mode tree others = t.revokedEach owner mode tree ids := by
  have tables : t.releaseEach owner mode tree others = t.releaseEach owner mode tree ids := by
    have left := s.releaseEach owner mode tree others
    apply left.eq_of_dates_kept (s.releaseEach owner mode tree ids)
    · intro x o hold
      rw [count, count, tally?_releaseEach t owner o mode tree nodup',
        tally?_releaseEach t owner o mode tree nodup]
      simp only [same]
    · intro x mem
      exact since?_releaseEach mem
    · intro x mem
      exact since?_releaseEach mem
  have first := s.total_each owner mode tree others
  have second := s.total_each owner mode tree ids
  rw [tables] at first
  exact ⟨tables, by omega⟩

theorem revoke_ne_zero {hold : Hold} {on : Id → Bool} {x : Id} (there : on x)
    (has : (t.tally? x owner hold).isSome) : (t.revoke owner hold on).1 ≠ 0 := by
  obtain ⟨n, found⟩ := Option.isSome_iff_exists.1 has
  obtain ⟨record, listed, found⟩ := Option.bind_eq_some_iff.1 found
  let held := t.records.filter fun id record => on id && (record.tally? owner hold).isSome
  have mem : x ∈ held := by
    rw [ExtTreeMap.mem_iff_isSome_getElem?, ExtTreeMap.getElem?_filter', listed]
    simp [there, found]
  intro none
  have empty : held = ∅ := ExtTreeMap.eq_empty_iff_size_eq_zero.2 none
  rw [empty] at mem
  exact ExtTreeMap.not_mem_empty mem

theorem Sound.revoke_eq_self (s : t.Sound) {hold : Hold} {on : Id → Bool}
    (nothing : (t.revoke owner hold on).1 = 0) : (t.revoke owner hold on).2 = t := by
  apply (s.revoke owner hold on).ext s
  · intro x o h
    rw [count, tally?_revoke]
    split
    · next here =>
      obtain ⟨there, rfl, rfl⟩ := here
      cases has : t.tally? x owner hold with
      | none => rw [count, has]; rfl
      | some n => exact absurd nothing (revoke_ne_zero there (by simp [has]))
    · rfl
  · intro x mem
    exact since?_revoke mem

theorem Sound.releaseOne_eq_self (s : t.Sound) {id : Id}
    (nothing : (t.releaseOne owner mode tree id).1 = 0) :
    (t.releaseOne owner mode tree id).2 = t := by
  unfold Table.releaseOne at nothing ⊢
  split at nothing
  · next e => rw [if_pos e]; exact s.revoke_eq_self nothing
  · next e => rw [if_neg e]; exact s.revoke_eq_self nothing

theorem Sound.each_eq_self (s : t.Sound) {ids : List Id}
    (nothing : t.revokedEach owner mode tree ids = 0) :
    t.releaseEach owner mode tree ids = t := by
  induction ids generalizing t with
  | nil => rfl
  | cons id rest ih =>
    simp only [revokedEach, Nat.add_eq_zero_iff] at nothing
    have first := s.releaseOne_eq_self nothing.1
    rw [first] at nothing
    have later := ih s nothing.2
    rw [releaseEach_cons, first]
    exact later

theorem Sound.release_eq_zero_iff (s : t.Sound) {ids : List Id} :
    (t.release ids owner mode tree).1 = 0 ↔ (t.release ids owner mode tree).2 = t := by
  have total := s.total_release ids owner mode tree
  constructor
  · rw [release_eq_each]
    exact s.each_eq_self
  · intro same
    rw [same] at total
    omega

theorem Sound.remainsOf_release (s : t.Sound) (ids : List Id) (owner : Owner) (mode : Mode)
    (tree : Bool) :
    (t.release ids owner mode tree).2.RemainsOf t owner mode ⟨ids, tree⟩ where
  taken x claim recalled := by
    rw [s.count_release, if_pos]
    exact ⟨rfl, rfl, Target.recalls_iff.1 recalled⟩
  spared x o hold other := by
    rw [s.count_release, if_neg]
    · rfl
    · rintro ⟨rfl, rfl, recalled⟩
      exact other ⟨rfl, rfl, Target.recalls_iff.2 recalled⟩
  holds _ _ _ := (s.release ids owner mode tree).count_pos_iff.symm
  holders _ _ := (s.release ids owner mode tree).holder_iff
  records _ := (s.release ids owner mode tree).mem_records_iff
  dates _ mem := since?_release mem

theorem since?_release_release {ids others : List Id} {o : Owner} {m : Mode} {b : Bool} {x : Id}
    (mem : x ∈ ((t.release ids owner mode tree).2.release others o m b).2.records) :
    ((t.release ids owner mode tree).2.release others o m b).2.since? x = t.since? x := by
  have second := since?_release mem
  have between := mem_records_of_since?_eq mem second.symm
  rw [second, since?_release between]

/-- Two releases come to the same in either order, and to the same number in all. -/
theorem Sound.release_comm (s : t.Sound) (ids others : List Id) (owner o : Owner) (mode m : Mode)
    (tree b : Bool) :
    let first := t.release ids owner mode tree
    let other := t.release others o m b
    (first.2.release others o m b).2 = (other.2.release ids owner mode tree).2 ∧
      first.1 + (first.2.release others o m b).1 =
        other.1 + (other.2.release ids owner mode tree).1 := by
  intro first other
  have s₁ : first.2.Sound := s.release ids owner mode tree
  have s₂ : other.2.Sound := s.release others o m b
  have tables : (first.2.release others o m b).2 = (other.2.release ids owner mode tree).2 := by
    apply (s₁.release others o m b).eq_of_dates_kept (s₂.release ids owner mode tree)
    · intro x p hold
      rw [s₁.count_release, s.count_release, s₂.count_release, s.count_release, Nat.sub_right_comm]
    · intro x mem
      exact since?_release_release mem
    · intro x mem
      exact since?_release_release mem
  have total_first : first.1 + first.2.total = t.total := s.total_release ids owner mode tree
  have total_then := s₁.total_release others o m b
  have total_other : other.1 + other.2.total = t.total := s.total_release others o m b
  have total_back := s₂.total_release ids owner mode tree
  rw [tables] at total_then
  exact ⟨tables, by omega⟩

/-- A release takes one from each count that it is about, drops whatever is empty then, and changes
nothing else. It answers how much lower the counts are in all, which is nothing exactly if the table
is the same as before. So it does not matter in which order and how often the ids are given, whether
they are released together or each on its own, or which of two releases comes first. -/
theorem Reachable.release_takes_one_each {t : Table} (h : t.Reachable) (ids : List Id)
    (owner : Owner) (mode : Mode) (tree : Bool) :
    let first := t.release ids owner mode tree
    first.2.RemainsOf t owner mode ⟨ids, tree⟩ ∧
    first.1 + first.2.total = t.total ∧
    (first.1 = 0 ↔ first.2 = t) ∧
    (∀ others : List Id, (∀ id, id ∈ others ↔ id ∈ ids) →
      t.release others owner mode tree = first ∧
      (others.Nodup → t.releaseInTurn others owner mode tree = first)) ∧
    ∀ (others : List Id) (o : Owner) (m : Mode) (b : Bool),
      let other := t.release others o m b
      (first.2.release others o m b).2 = (other.2.release ids owner mode tree).2 ∧
      first.1 + (first.2.release others o m b).1 =
        other.1 + (other.2.release ids owner mode tree).1 := by
  intro first
  have s := h.sound
  refine ⟨s.remainsOf_release ids owner mode tree, s.total_release ids owner mode tree,
    s.release_eq_zero_iff, ?_, fun others o m b => s.release_comm ids others owner o mode m tree b⟩
  intro others same
  constructor
  · rw [release_eq_each, distinct_congr same, ← release_eq_each]
  · intro nodup
    have listed : ∀ id, id ∈ others ↔ id ∈ distinct ids := by
      intro id
      rw [mem_distinct, same]
    obtain ⟨tables, numbers⟩ :=
      s.each_congr owner mode tree (nodup_distinct ids) nodup listed
    rw [releaseInTurn_eq_each, tables, numbers, ← release_eq_each]

/-- Two trees that have `x` in common. -/
def twoTrees : List (Id × ExtTreeSet Claim) :=
  [("r", {.tree "r"}), ("s", {.tree "s"}), ("x", {.tree "r", .tree "s"})]

/-- Alice reads both trees, and then writes `x`. -/
def overlapping : Table :=
  leaves (tryAcquire ((∅ : Claims).insert "x" {.direct}) "alice" .write 1
    (leaves (tryAcquire (.ofList twoTrees) "alice" .read 0 empty)))

theorem overlapping_release :
    let first := overlapping.release ["s", "r", "s"] "alice" .read true
    overlapping.Reachable ∧ overlapping.total = 5 ∧ first.1 = 4 ∧ first.2.total = 1 ∧
      first.2.count "x" "alice" ⟨.read, .tree "s"⟩ = 0 ∧
      first.2.count "x" "alice" ⟨.write, .direct⟩ = 1 ∧
      overlapping.releaseInTurn ["r", "s"] "alice" .read true = first ∧
      (first.2.release ["x"] "alice" .write false).2 =
        ((overlapping.release ["x"] "alice" .write false).2.release ["s", "r", "s"]
          "alice" .read true).2 := by
  intro first
  have reached : overlapping.Reachable := .next (.next .empty (.acquire _ _ _)) (.acquire _ _ _)
  obtain ⟨left, total, _, grouped, commutes⟩ :=
    reached.release_takes_one_each ["s", "r", "s"] "alice" .read true
  have counted : overlapping.total = 5 := by cbv
  have four : first.1 = 4 := by cbv
  have held : overlapping.count "x" "alice" ⟨.read, .tree "s"⟩ = 1 := by cbv
  have written : overlapping.count "x" "alice" ⟨.write, .direct⟩ = 1 := by cbv
  have taken := left.taken "x" (.tree "s") ⟨rfl, by simp⟩
  have spared := left.spared "x" "alice" ⟨.write, .direct⟩ (by simp)
  have same : ∀ id, id ∈ ["r", "s"] ↔ id ∈ ["s", "r", "s"] := by
    intro id
    grind
  refine ⟨reached, counted, four, ?_, ?_, spared.trans written,
    (grouped ["r", "s"] same).2 (by decide), (commutes ["x"] "alice" .write false).1⟩
  · change first.1 + first.2.total = overlapping.total at total
    omega
  · rw [held] at taken
    exact taken

end Table

end SceneLock
