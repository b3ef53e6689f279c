import SceneLock.Table

/-!
How the operations change the counts: on the holds of one owner, on a record, on a table.
-/

namespace SceneLock

open Std

theorem nodup_toList {A : Type} [Ord A] [TransOrd A] [LawfulEqOrd A] (s : ExtTreeSet A) :
    s.toList.Nodup :=
  s.distinct_toList.imp fun differ e => differ (Std.compare_eq_iff_eq.2 e)

theorem eq_singleton_iff_of_nodup {A : Type} {l : List A} {a : A} (once : l.Nodup) :
    l = [a] ↔ ∀ b, b ∈ l ↔ b = a := by
  rw [← List.perm_singleton, List.perm_ext_iff_of_nodup once (List.pairwise_singleton _ a)]
  simp only [List.mem_singleton]

namespace Holds

theorem oneLess_ne_zero (n : UInt32) : oneLess n ≠ some 0 := by
  unfold oneLess
  split <;> simp_all

theorem amount_eq_zero {n : Option UInt32} (counted : n ≠ some 0) : amount n = 0 ↔ n = none := by
  cases n with
  | none => simp [amount]
  | some n =>
    have : n ≠ 0 := fun e => counted (e ▸ rfl)
    simpa [amount, ← UInt32.toNat_inj] using this

theorem toNat_sub_one {n : UInt32} (counted : n ≠ 0) : (n - 1).toNat + 1 = n.toNat := by
  have one_left : n.toNat ≠ 0 := by simpa [← UInt32.toNat_inj] using counted
  have down : (n - 1).toNat = n.toNat - 1 :=
    UInt32.toNat_sub_of_le _ _ (by
      simp only [UInt32.le_iff_toNat_le, UInt32.reduceToNat]
      omega)
  omega

theorem amount_oneLess {n : Option UInt32} (counted : n ≠ some 0) :
    amount (n.bind oneLess) = amount n - 1 := by
  cases n with
  | none => rfl
  | some n =>
    have down := toNat_sub_one (n := n) fun e => counted (e ▸ rfl)
    simp only [Option.bind_some, oneLess, amount, Option.elim_some, ← down]
    split
    · next h => simp [h]
    · simp

theorem amount_eq_toNat (n : Option UInt32) : amount n = (n.getD 0).toNat := by
  cases n <;> rfl

/-- A count that is full wraps around to zero when it is raised. -/
theorem oneMore_eq_zero_iff {n : Option UInt32} :
    n.getD 0 + 1 = 0 ↔ amount n = UInt32.size - 1 := by
  have bound := (n.getD 0).toNat_lt
  rw [amount_eq_toNat, ← UInt32.toNat_inj]
  simp only [UInt32.toNat_add, UInt32.reduceToNat, UInt32.size]
  omega

theorem amount_oneMore {n : Option UInt32} (counted : n.getD 0 + 1 ≠ 0) :
    amount (some (n.getD 0 + 1)) = amount n + 1 := by
  have bound := (n.getD 0).toNat_lt
  have room := mt oneMore_eq_zero_iff.2 counted
  rw [amount_eq_toNat] at room
  rw [amount_eq_toNat, amount_eq_toNat, Option.getD_some]
  simp only [UInt32.toNat_add, UInt32.reduceToNat, UInt32.size] at room ⊢
  omega

theorem getElem?_foldl_grant (mode : Mode) (claims : List Claim) (nodup : claims.Nodup)
    (holds : Holds) (h : Hold) :
    (claims.foldl (fun holds claim =>
      holds.alter ⟨mode, claim⟩ fun n => some (n.getD 0 + 1)) holds)[h]? =
      if h.mode = mode ∧ h.claim ∈ claims then some (holds[h]?.getD 0 + 1) else holds[h]? := by
  induction claims generalizing holds with
  | nil => simp
  | cons c cs ih =>
    obtain ⟨fresh, nodup⟩ := List.nodup_cons.1 nodup
    rw [List.foldl_cons, ih nodup]
    simp only [ExtTreeMap.getElem?_alter, Std.compare_eq_iff_eq]
    by_cases same : ⟨mode, c⟩ = h
    · subst same
      simp [fresh]
    · have other : h.mode = mode → h.claim ≠ c := fun hm hc => same (by rw [← hm, ← hc])
      rw [if_neg same]
      by_cases hm : h.mode = mode
      · simp [hm, other hm]
      · simp [hm]

theorem getElem?_grant (holds : Holds) (mode : Mode) (claims : ExtTreeSet Claim) (h : Hold) :
    (holds.grant mode claims)[h]? =
      if h.mode = mode ∧ h.claim ∈ claims then some (holds[h]?.getD 0 + 1) else holds[h]? := by
  simp only [grant, getElem?_foldl_grant mode _ (nodup_toList claims), ExtTreeSet.mem_toList]

theorem getElem?_revoke (holds : Holds) (hold h : Hold) :
    (holds.revoke hold)[h]? = if hold = h then holds[h]?.bind oneLess else holds[h]? := by
  simp only [revoke, ExtTreeMap.getElem?_alter, Std.compare_eq_iff_eq]
  split
  · next e => rw [e]
  · rfl

end Holds

namespace Record

theorem tally?_grant (r : Record) (owner o : Owner) (mode : Mode) (claims : ExtTreeSet Claim)
    (h : Hold) :
    (r.grant owner mode claims).tally? o h =
      if owner = o ∧ h.mode = mode ∧ h.claim ∈ claims then some ((r.tally? o h).getD 0 + 1)
      else r.tally? o h := by
  simp only [tally?, grant, ExtTreeMap.getElem?_alter, Std.compare_eq_iff_eq]
  by_cases e : owner = o
  · subst e
    cases r.holders[owner]? <;> simp [Holds.getElem?_grant]
  · simp [e]

theorem tally?_revoke (r : Record) (owner o : Owner) (hold h : Hold) :
    (r.revoke owner hold).tally? o h =
      if owner = o ∧ hold = h then (r.tally? o h).bind Holds.oneLess else r.tally? o h := by
  simp only [tally?, revoke, ExtTreeMap.getElem?_alter, Std.compare_eq_iff_eq]
  by_cases e : owner = o
  · subst e
    cases found : r.holders[owner]? with
    | none => simp
    | some holds =>
      simp only [true_and, Option.bind_some, ← Holds.getElem?_revoke]
      by_cases gone : holds.revoke hold = ∅ <;> simp [gone]
  · simp [e]

theorem tally?_evict (r : Record) (owner o : Owner) (h : Hold) :
    (r.evict owner).tally? o h = if owner = o then none else r.tally? o h := by
  simp only [tally?, evict, ExtTreeMap.getElem?_erase, Std.compare_eq_iff_eq]
  split <;> rfl

theorem tally?_of_isEmpty {r : Record} (h : r.isEmpty) (o : Owner) (hold : Hold) :
    r.tally? o hold = none := by
  have : r.holders = ∅ := ExtTreeMap.isEmpty_iff.1 h
  simp [tally?, this]

end Record

theorem mem_distinct {ids : List String} {id : String} : id ∈ distinct ids ↔ id ∈ ids := by
  simp [distinct, ExtTreeSet.mem_toList, ExtTreeSet.mem_ofList]

theorem nodup_distinct (ids : List String) : (distinct ids).Nodup := nodup_toList _

/-- What was named, and whether as the root of a subtree, when the claim was laid on `x`. -/
def Claim.origin (claim : Claim) (x : Id) : Bool × Id :=
  match claim with
  | direct => (false, x)
  | tree root => (true, root)

namespace Table

theorem getElem?_revoke (t : Table) (owner : Owner) (hold : Hold) (on : Id → Bool) (x : Id) :
    (t.revoke owner hold on).2.records[x]? = t.records[x]?.bind fun record =>
      if on x then
        if (record.revoke owner hold).isEmpty then none else some (record.revoke owner hold)
      else some record := by
  simp only [revoke, ExtTreeMap.getElem?_filterMap']

theorem tally?_revoke (t : Table) (owner o : Owner) (hold h : Hold) (on : Id → Bool) (x : Id) :
    (t.revoke owner hold on).2.tally? x o h =
      if on x ∧ owner = o ∧ hold = h then (t.tally? x o h).bind Holds.oneLess
      else t.tally? x o h := by
  simp only [tally?, getElem?_revoke]
  cases t.records[x]? with
  | none => simp
  | some record =>
    have left := record.tally?_revoke owner o hold h
    by_cases touched : on x
    · by_cases gone : (record.revoke owner hold).isEmpty
      · rw [Record.tally?_of_isEmpty gone] at left
        simpa [touched, gone] using left
      · simpa [touched, gone] using left
    · simp [touched]

theorem tally?_releaseOne (t : Table) (owner o : Owner) (mode : Mode) (tree : Bool) (id x : Id)
    (h : Hold) :
    (t.releaseOne owner mode tree id).2.tally? x o h =
      if owner = o ∧ h.mode = mode ∧ h.claim.origin x = (tree, id) then
        (t.tally? x o h).bind Holds.oneLess
      else t.tally? x o h := by
  cases h with | mk m claim =>
  cases tree with
  | true =>
    simp only [releaseOne, if_true, tally?_revoke]
    cases claim <;> simp [Claim.origin, eq_comm]
  | false =>
    simp only [releaseOne, Bool.false_eq_true, if_false, tally?_revoke]
    cases claim <;> simp [Claim.origin, eq_comm, and_left_comm, and_comm]

/-- The releases of one request, one id after the other. -/
def releaseEach (t : Table) (owner : Owner) (mode : Mode) (tree : Bool) (ids : List Id) : Table :=
  ids.foldl (fun t id => (t.releaseOne owner mode tree id).2) t

theorem release_eq_releaseEach (t : Table) (ids : List Id) (owner : Owner) (mode : Mode)
    (tree : Bool) :
    (t.release ids owner mode tree).2 = t.releaseEach owner mode tree (distinct ids) := by
  unfold release releaseEach
  generalize 0 = revoked
  induction distinct ids generalizing t revoked with
  | nil => rfl
  | cons id rest ih => exact ih _ _

theorem tally?_releaseEach (t : Table) (owner o : Owner) (mode : Mode) (tree : Bool)
    {ids : List Id} (nodup : ids.Nodup) (x : Id) (h : Hold) :
    (t.releaseEach owner mode tree ids).tally? x o h =
      if owner = o ∧ h.mode = mode ∧ (h.claim.origin x).1 = tree ∧ (h.claim.origin x).2 ∈ ids then
        (t.tally? x o h).bind Holds.oneLess
      else t.tally? x o h := by
  unfold releaseEach
  induction ids generalizing t with
  | nil => simp
  | cons id rest ih =>
    obtain ⟨fresh, nodup⟩ := List.nodup_cons.1 nodup
    rw [List.foldl_cons, ih _ nodup, tally?_releaseOne]
    by_cases here : (h.claim.origin x).2 = id
    · simp [Prod.ext_iff, here, fresh]
    · simp [Prod.ext_iff, here]

theorem tally?_releaseOwner (t : Table) (owner o : Owner) (x : Id) (h : Hold) :
    (t.releaseOwner owner).2.tally? x o h = if owner = o then none else t.tally? x o h := by
  simp only [tally?, releaseOwner, ExtTreeMap.getElem?_filterMap']
  cases t.records[x]? with
  | none => simp
  | some record =>
    have left := record.tally?_evict owner o h
    by_cases gone : (record.evict owner).isEmpty
    · rw [Record.tally?_of_isEmpty gone] at left
      simpa [gone] using left
    · simpa [gone] using left

/-- The record of an object after a grant, before it is checked. -/
def staged (t : Table) (owner : Owner) (mode : Mode) (now : Instant) (id : Id)
    (claims : ExtTreeSet Claim) : Record :=
  (t.records.getD id { since := now }).grant owner mode claims

/-- What the check of the staged records reports: the first fault, in order of the names. -/
def stagedFault? (t : Table) (claims : Claims) (owner : Owner) (mode : Mode) (now : Instant) :
    Option LockError :=
  claims.toList.findSome? fun (id, claims) =>
    (t.staged owner mode now id claims).fault?.map (.brokenRecord id)

/-- The table with all staged records put in place. -/
def granted (t : Table) (claims : Claims) (owner : Owner) (mode : Mode) (now : Instant) : Table :=
  { t with
    records := t.records.insertMany (claims.toList.map fun (id, claims) =>
      (id, t.staged owner mode now id claims)) }

theorem mapM_stage (t : Table) (owner : Owner) (mode : Mode) (now : Instant)
    (l : List (Id × ExtTreeSet Claim)) :
    (∀ e, (l.findSome? fun (id, claims) =>
        (t.staged owner mode now id claims).fault?.map (.brokenRecord id)) = some e →
      (l.mapM fun (id, claims) => t.stage owner mode now id claims) = .error e) ∧
    ((l.findSome? fun (id, claims) =>
        (t.staged owner mode now id claims).fault?.map (LockError.brokenRecord id)) = none →
      (l.mapM fun (id, claims) => t.stage owner mode now id claims) =
        .ok (l.map fun (id, claims) => (id, t.staged owner mode now id claims))) := by
  induction l with
  | nil => exact ⟨by simp, fun _ => rfl⟩
  | cons p rest ih =>
    obtain ⟨id, claims⟩ := p
    simp only [List.mapM_cons, List.findSome?_cons, List.map_cons]
    cases fault : (t.staged owner mode now id claims).fault? with
    | some reason =>
      have here : t.stage owner mode now id claims = .error (.brokenRecord id reason) := by
        simp only [stage, ← staged.eq_def, fault]
      simp [here, bind, Except.bind]
    | none =>
      have here : t.stage owner mode now id claims =
          .ok (id, t.staged owner mode now id claims) := by
        simp only [stage, ← staged.eq_def, fault]
      simp only [here, Option.map_none]
      refine ⟨fun e faulty => ?_, fun fine => ?_⟩
      · rw [ih.1 e faulty]; rfl
      · rw [ih.2 fine]; rfl

theorem getElem?_granted (t : Table) (claims : Claims) (owner : Owner) (mode : Mode)
    (now : Instant) (x : Id) :
    (t.granted claims owner mode now).records[x]? =
      match claims[x]? with
      | some on => some (t.staged owner mode now x on)
      | none => t.records[x]? := by
  have distinct : (claims.toList.map fun (id, claims) =>
      (id, t.staged owner mode now id claims)).Pairwise fun a b => ¬compare a.1 b.1 = .eq := by
    rw [List.pairwise_map]
    exact claims.distinct_keys_toList
  cases found : claims[x]? with
  | some on =>
    refine ExtTreeMap.getElem?_insertMany_list_of_mem (Std.compare_eq_iff_eq.2 rfl) distinct ?_
    exact List.mem_map.2 ⟨(x, on), ExtTreeMap.mem_toList_iff_getElem?_eq_some.2 found, rfl⟩
  | none =>
    refine ExtTreeMap.getElem?_insertMany_list_of_contains_eq_false ?_
    simpa [Function.comp_def] using found

theorem tally?_granted (t : Table) (claims : Claims) (owner o : Owner) (mode : Mode)
    (now : Instant) (x : Id) (h : Hold) :
    (t.granted claims owner mode now).tally? x o h =
      if owner = o ∧ h.mode = mode ∧ h.claim ∈ claims.getD x ∅ then
        some ((t.tally? x o h).getD 0 + 1)
      else t.tally? x o h := by
  simp only [tally?, getElem?_granted, ExtTreeMap.getD_eq_getD_getElem?]
  cases claims[x]? with
  | none => simp
  | some on =>
    simp only [Option.bind_some, Option.getD_some, staged, Record.tally?_grant,
      ExtTreeMap.getD_eq_getD_getElem?]
    cases t.records[x]? with
    | some record => rfl
    | none => simp [Record.tally?]

/-- The three ways an acquisition can go. -/
theorem tryAcquire_cases (t : Table) (claims : Claims) (owner : Owner) (mode : Mode)
    (now : Instant) :
    (∃ id, t.conflict? claims owner mode = some id ∧
      t.tryAcquire claims owner mode now = .ok (.conflict id) t) ∨
    (t.conflict? claims owner mode = none ∧
      ∃ e, t.stagedFault? claims owner mode now = some e ∧
        t.tryAcquire claims owner mode now = .error e t) ∨
    (t.conflict? claims owner mode = none ∧ t.stagedFault? claims owner mode now = none ∧
      t.tryAcquire claims owner mode now = .ok .granted (t.granted claims owner mode now)) := by
  unfold tryAcquire
  cases t.conflict? claims owner mode with
  | some id => exact .inl ⟨id, rfl, rfl⟩
  | none =>
    cases faulty : t.stagedFault? claims owner mode now with
    | some e =>
      have staging := (t.mapM_stage owner mode now claims.toList).1 e faulty
      exact .inr (.inl ⟨rfl, e, rfl, by simp only [staging]⟩)
    | none =>
      have staging := (t.mapM_stage owner mode now claims.toList).2 faulty
      exact .inr (.inr ⟨rfl, rfl, by simp only [staging, granted]⟩)

end Table

end SceneLock
