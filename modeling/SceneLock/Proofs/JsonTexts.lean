import Mathlib
import SceneLock.Proofs.JsonWords

/-!
JSON texts: what is written of a value on one line is read as that value, as long as its numbers are
whole and it does not nest too deep.
-/

namespace SceneLock.Json

section Reading

/-- What reading comes to when it goes on with a text. -/
def run (s : Expected) (cs : List Char) : Option Expected :=
  (tokens cs).bind fun ts => ts.foldlM Expected.step s

theorem run_nil (s : Expected) : run s [] = some s := by
  have none : tokens [] = some [] := by rw [tokens]; rfl
  simp [run, none]

/-- Words are read one after another. -/
theorem run_cons (s : Expected) {c : Char} {cs rest : List Char} {t : Token}
    (bare : isBlank c = false) (first : token (c :: cs) = some (t, rest)) :
    run s (c :: cs) = (s.step t).bind (run · rest) := by
  have all : tokens (c :: cs) = (tokens rest).map (t :: ·) :=
    tokens_of_word (List.dropWhile_cons_of_neg (by simp [bare])) first
  unfold run
  rw [all]
  cases tokens rest <;> cases e : s.step t <;> simp [e]

/-- The next word takes reading to the next state. -/
theorem run_step {s next : Expected} {c : Char} {cs rest : List Char} {t : Token}
    (bare : isBlank c = false) (first : token (c :: cs) = some (t, rest))
    (goes : s.step t = some next) : run s (c :: cs) = run next rest := by
  rw [run_cons s bare first, goes]
  rfl

theorem Node.ofChars?_of_run {cs : List Char} {n : Node}
    (read : run (.value []) cs = some (.more [] n)) : Node.ofChars? cs = some n := by
  obtain ⟨ts, words, done⟩ := Option.bind_eq_some_iff.1 read
  simp [Node.ofChars?, words, done]

/-- The text goes on with a value, to stand on top of what is open. -/
def Opens (s : Expected) (stack : List Frame) : Prop :=
  ∀ t, t ≠ .closeList → s.step t = Expected.valueStep stack t

theorem opens_value (stack : List Frame) : Opens (.value stack) stack := fun _ _ => rfl

theorem opens_firstItem (stack : List Frame) : Opens (.firstItem stack) (.items [] :: stack) := by
  intro t other
  cases t with
  | closeList => exact absurd rfl other
  | _ => rfl

/-- What is written of a value is read as the tree, wherever it stands. -/
def Reads (j : Json) (n : Node) : Prop :=
  ∀ s stack rest, Opens s stack → Ends rest → run s (j.chars ++ rest) = run (.more stack n) rest

/-- A value that is a single word. -/
theorem reads_of_token {j : Json} {n : Node} (t : Token) (other : t ≠ .closeList)
    (bare : ∃ c cs, j.chars = c :: cs ∧ isBlank c = false)
    (word : ∀ rest, Ends rest → token (j.chars ++ rest) = some (t, rest))
    (value : ∀ stack, Expected.valueStep stack t = some (.more stack n)) : Reads j n := by
  intro s stack rest opens ends
  obtain ⟨c, cs, e, bare⟩ := bare
  have first := word rest ends
  rw [e, List.cons_append] at first ⊢
  rw [run_cons s bare first, opens t other, value]
  rfl

theorem reads_null : Reads .null .null :=
  reads_of_token .null (by simp) ⟨_, _, rfl, by decide⟩ (fun _ _ => rfl) (fun _ => rfl)

theorem reads_bool (b : Bool) : Reads (.bool b) (.bool b) := by
  cases b
  all_goals exact
    reads_of_token (.bool _) (by simp) ⟨_, _, rfl, by decide⟩ (fun _ _ => rfl) (fun _ => rfl)

theorem token_quote (s : String) (rest : List Char) :
    token (quote s ++ rest) = some (.string (quoted s), rest) := by
  have body := stringBody_quoted s rest
  unfold quoted at body ⊢
  simp [quote, token, body]

theorem reads_text (s : String) : Reads (.text s) (.string (quoted s)) :=
  reads_of_token (.string _) (by simp) ⟨_, _, rfl, by decide⟩ (fun rest _ => token_quote s rest)
    (fun _ => rfl)

theorem not_blank_of_isDigit {c : Char} (digit : c.isDigit) : isBlank c = false := by
  rw [isBlank]
  by_contra blank
  simp only [Bool.not_eq_false, Bool.or_eq_true, decide_eq_true_eq] at blank
  obtain ((rfl | rfl) | rfl) | rfl := blank <;> cases digit

theorem reads_int (n : Int) : Reads (.int n) (.number (wholeNumeral n)) := by
  apply reads_of_token (.number (wholeNumeral n)) (by simp)
  · rw [chars, toList_toString_int]
    split
    · exact ⟨_, _, rfl, by decide⟩
    · obtain ⟨c, digits, e⟩ :=
        List.exists_cons_of_ne_nil (Nat.toDigits_ne_nil (n := n.natAbs) (b := 10))
      exact ⟨c, digits, e, not_blank_of_isDigit (isDigit_of_mem_toDigits (e ▸ List.mem_cons_self))⟩
  · intro rest ends
    rw [chars, token_int n ends]
  · exact fun _ => rfl

theorem ends_itemChars (items : List Json) (rest : List Char) : Ends (itemChars items ++ rest) := by
  cases items with
  | nil => exact ends_cons rest (by decide)
  | cons item items => exact ends_cons _ (by decide)

theorem ends_fieldChars (fields : List (String × Json)) (rest : List Char) :
    Ends (fieldChars fields ++ rest) := by
  cases fields with
  | nil => exact ends_cons rest (by decide)
  | cons field fields => exact ends_cons _ (by decide)

/-- The items after one that is complete are read to the end of their list. -/
theorem run_itemChars {items : List Json} {nodes : List Node}
    (read : List.Forall₂ Reads items nodes) (before : List Node) (v : Node) (stack : List Frame)
    (rest : List Char) :
    run (.more (.items before :: stack) v) (itemChars items ++ rest) =
      run (.more stack (.list ((v :: before).reverse ++ nodes))) rest := by
  induction read generalizing before v with
  | nil =>
    rw [List.append_nil]
    exact run_step (by decide) rfl rfl
  | @cons item n items nodes first _ ih =>
    have comma : run (.more (.items before :: stack) v) (itemChars (item :: items) ++ rest) =
        run (.value (.items (v :: before) :: stack)) (item.chars ++ (itemChars items ++ rest)) := by
      rw [itemChars, List.cons_append, List.cons_append, List.append_assoc]
      exact run_step (by decide) rfl rfl
    rw [comma, first _ _ _ (opens_value _) (ends_itemChars items rest), ih]
    simp

theorem reads_list {items : List Json} {nodes : List Node} (read : List.Forall₂ Reads items nodes) :
    Reads (.list items) (.list nodes) := by
  intro s stack rest opens ends
  have opened : s.step .openList = some (.firstItem stack) := opens .openList (by simp)
  cases read with
  | nil =>
    have begun : run s ((Json.list []).chars ++ rest) = run (.firstItem stack) (']' :: rest) :=
      run_step (by decide) rfl opened
    rw [begun]
    exact run_step (by decide) rfl rfl
  | @cons item n items nodes first later =>
    have begun : run s ((Json.list (item :: items)).chars ++ rest) =
        run (.firstItem stack) (item.chars ++ (itemChars items ++ rest)) := by
      rw [chars, List.cons_append, List.cons_append, List.append_assoc]
      exact run_step (by decide) rfl opened
    rw [begun, first _ _ _ (opens_firstItem stack) (ends_itemChars items rest), run_itemChars later]
    rfl

/-- What is written of a field is read as its name and its value. -/
def ReadsField (field : String × Json) (entry : List Char × Node) : Prop :=
  entry.1 = quoted field.1 ∧ Reads field.2 entry.2

/-- A name and its colon, where a name may stand. -/
theorem run_name {s : Expected} {stack : List Frame} {before : List (List Char × Node)}
    {name : String} (goes : ∀ raw, s.step (.string raw) = some (.colon stack before raw))
    (rest : List Char) :
    run s (quote name ++ ':' :: rest) =
      run (.value (.fields before (quoted name) :: stack)) rest := by
  have string : run s (quote name ++ ':' :: rest) =
      run (.colon stack before (quoted name)) (':' :: rest) :=
    run_step (by decide) (token_quote name (':' :: rest)) (goes _)
  rw [string]
  exact run_step (by decide) rfl rfl

/-- The fields after one that is complete are read to the end of their object. -/
theorem run_fieldChars {fields : List (String × Json)} {entries : List (List Char × Node)}
    (read : List.Forall₂ ReadsField fields entries) (before : List (List Char × Node))
    (raw : List Char) (v : Node) (stack : List Frame) (rest : List Char) :
    run (.more (.fields before raw :: stack) v) (fieldChars fields ++ rest) =
      run (.more stack (.object (((raw, v) :: before).reverse ++ entries))) rest := by
  induction read generalizing before raw v with
  | nil =>
    rw [List.append_nil]
    exact run_step (by decide) rfl rfl
  | @cons field entry fields entries first _ ih =>
    obtain ⟨name, value⟩ := field
    obtain ⟨raw', n⟩ := entry
    obtain ⟨rfl, read⟩ := first
    have comma : run (.more (.fields before raw :: stack) v)
          (fieldChars ((name, value) :: fields) ++ rest) =
        run (.name stack ((raw, v) :: before))
          (quote name ++ ':' :: (value.chars ++ (fieldChars fields ++ rest))) := by
      simp only [fieldChars, List.cons_append, List.append_assoc]
      exact run_step (by decide) rfl rfl
    rw [comma, run_name (fun _ => rfl), read _ _ _ (opens_value _) (ends_fieldChars fields rest),
      ih]
    simp

theorem reads_object {fields : List (String × Json)} {entries : List (List Char × Node)}
    (read : List.Forall₂ ReadsField fields entries) : Reads (.object fields) (.object entries) := by
  intro s stack rest opens ends
  have opened : s.step .openObject = some (.firstName stack) := opens .openObject (by simp)
  cases read with
  | nil =>
    have begun : run s ((Json.object []).chars ++ rest) = run (.firstName stack) ('}' :: rest) :=
      run_step (by decide) rfl opened
    rw [begun]
    exact run_step (by decide) rfl rfl
  | @cons field entry fields entries first later =>
    obtain ⟨name, value⟩ := field
    obtain ⟨raw, n⟩ := entry
    obtain ⟨rfl, read⟩ := first
    have begun : run s ((Json.object ((name, value) :: fields)).chars ++ rest) =
        run (.firstName stack)
          (quote name ++ ':' :: (value.chars ++ (fieldChars fields ++ rest))) := by
      simp only [chars, List.cons_append, List.append_assoc]
      exact run_step (by decide) rfl opened
    rw [begun, run_name (fun _ => rfl), read _ _ _ (opens_value _) (ends_fieldChars fields rest),
      run_fieldChars later]
    rfl

end Reading

section Values

open Std

/-- The names stand in order, and each stands there once. -/
def Sorted (fields : List (String × Json)) : Prop :=
  fields.Pairwise fun a b => compare a.1 b.1 = .lt

theorem sorted_toList (fields : ExtTreeMap String Json) : Sorted fields.toList :=
  ExtTreeMap.ordered_keys_toList

theorem Sorted.nodup {fields : List (String × Json)} (sorted : Sorted fields) : fields.Nodup := by
  refine sorted.imp ?_
  intro a b before same
  have self : compare a.1 b.1 = .eq := same ▸ ReflCmp.compare_self
  cases before.symm.trans self

/-- Fields that are in order already stay as they are. -/
theorem Sorted.ofFields {fields : List (String × Json)} (sorted : Sorted fields) :
    ofFields fields = .object fields := by
  have distinct : fields.Pairwise fun a b => ¬compare a.1 b.1 = .eq :=
    sorted.imp fun before same => by cases before.symm.trans same
  have listed {k : String} {v : Json} (mem : (k, v) ∈ fields) :
      (ExtTreeMap.ofList fields)[k]? = some v :=
    ExtTreeMap.getElem?_ofList_of_mem ReflCmp.compare_self distinct mem
  have mem_iff (f : String × Json) : f ∈ (ExtTreeMap.ofList fields).toList ↔ f ∈ fields := by
    obtain ⟨k, v⟩ := f
    rw [ExtTreeMap.mem_toList_iff_getElem?_eq_some]
    refine ⟨fun found => ?_, listed⟩
    have known : k ∈ ExtTreeMap.ofList fields :=
      ExtTreeMap.mem_iff_isSome_getElem?.2 (by simp [found])
    obtain ⟨⟨k', w⟩, mem, rfl⟩ : ∃ f ∈ fields, f.1 = k := by simpa using known
    rw [listed mem] at found
    cases found
    exact mem
  have same : (ExtTreeMap.ofList fields).toList = fields := by
    have perm := (List.perm_ext_iff_of_nodup (sorted_toList _).nodup sorted.nodup).2 mem_iff
    have ordered : (ExtTreeMap.ofList fields).toList.Pairwise fun a b => compare a.1 b.1 = .lt :=
      sorted_toList _
    refine perm.eq_of_pairwise ?_ ordered sorted
    intro a b _ _ before after
    have turned : compare b.1 a.1 = .gt := OrientedCmp.gt_of_lt before
    cases after.symm.trans turned
  rw [Json.ofFields, same]

/-- Values whose numbers are whole, in which lists and objects lie at most so deep inside each
other. The fields of an object stand in order of their names, as `ofFields` puts them. -/
inductive Plain : Nat → Json → Prop
  | null {depth : Nat} : Plain depth .null
  | bool {depth : Nat} (b : Bool) : Plain depth (.bool b)
  | int {depth : Nat} {n : Int} :
      -(Numeral.negativeLimit : Int) ≤ n → n ≤ Numeral.limit → Plain depth (.int n)
  | text {depth : Nat} (s : String) : Plain depth (.text s)
  | list {depth : Nat} {items : List Json} :
      (∀ item ∈ items, Plain depth item) → Plain (depth + 1) (.list items)
  | object {depth : Nat} {fields : List (String × Json)} :
      Sorted fields → (∀ field ∈ fields, Plain depth field.2) → Plain (depth + 1) (.object fields)

theorem exists_forall₂ {α β : Type} {P : α → β → Prop} {xs : List α} (each : ∀ x ∈ xs, ∃ y, P x y) :
    ∃ ys, List.Forall₂ P xs ys := by
  induction xs with
  | nil => exact ⟨[], .nil⟩
  | cons x xs ih =>
    obtain ⟨⟨y, first⟩, others⟩ := List.forall_mem_cons.1 each
    obtain ⟨ys, rest⟩ := ih others
    exact ⟨y :: ys, .cons first rest⟩

theorem listJson?_of_forall₂ {depth : Nat} {items : List Json} {nodes : List Node}
    (values : List.Forall₂ (fun j n => Node.json? depth n = some j) items nodes) :
    Node.listJson? depth nodes = some items := by
  induction values with
  | nil => rfl
  | cons first _ ih => simp [Node.listJson?, first, ih]

theorem fieldsJson?_of_forall₂ {depth : Nat} {fields : List (String × Json)}
    {entries : List (List Char × Node)}
    (values : List.Forall₂ (fun f e => e.1 = quoted f.1 ∧
      Node.json? depth e.2 = some f.2) fields entries) :
    Node.fieldsJson? depth entries = some fields := by
  induction values with
  | nil => rfl
  | cons first _ ih =>
    obtain ⟨name, value⟩ := first
    simp [Node.fieldsJson?, name, text?_quoted, value, ih]

/-- What is written of a plain value is read as a tree that has this value. -/
theorem Plain.reads {depth : Nat} {j : Json} (plain : Plain depth j) :
    ∃ n, Reads j n ∧ n.json? (depth + 1) = some j := by
  induction plain with
  | null => exact ⟨_, reads_null, rfl⟩
  | bool b => exact ⟨_, reads_bool b, rfl⟩
  | int least most => exact ⟨_, reads_int _, Numeral.json?_whole least most⟩
  | text s => exact ⟨_, reads_text s, by simp [Node.json?, text?_quoted]⟩
  | @list depth items _ ih =>
    obtain ⟨nodes, each⟩ := exists_forall₂ ih
    refine ⟨.list nodes, reads_list (each.imp fun _ _ both => both.1), ?_⟩
    have values := listJson?_of_forall₂ (each.imp fun _ _ both => both.2)
    simp [Node.json?, values]
  | @object depth fields sorted _ ih =>
    have each : ∀ field ∈ fields, ∃ entry : List Char × Node,
        ReadsField field entry ∧ entry.2.json? (depth + 1) = some field.2 := by
      intro field mem
      obtain ⟨n, reads, value⟩ := ih field mem
      exact ⟨(_, n), ⟨rfl, reads⟩, value⟩
    obtain ⟨entries, all⟩ := exists_forall₂ each
    refine ⟨.object entries, reads_object (all.imp fun _ _ both => both.1), ?_⟩
    have values := fieldsJson?_of_forall₂ (all.imp fun _ _ both => ⟨both.1.1, both.2⟩)
    simp [Node.json?, values, sorted.ofFields]

end Values

section Lines

/-- No control characters are written, and so no line breaks. -/
def Printable (cs : List Char) : Prop := ∀ c ∈ cs, 32 ≤ c.toNat

theorem printable_append {a b : List Char} (first : Printable a) (second : Printable b) :
    Printable (a ++ b) := fun c mem => (List.mem_append.1 mem).elim (first c) (second c)

theorem Printable.of_subset {a b : List Char} (all : Printable b) (within : a ⊆ b) :
    Printable a := fun c mem => all c (within mem)

theorem printable_cons {c : Char} {cs : List Char} (large : 32 ≤ c.toNat) (rest : Printable cs) :
    Printable (c :: cs) := List.forall_mem_cons.2 ⟨large, rest⟩

theorem printable_quote (s : String) : Printable (quote s) := by
  refine printable_append (printable_cons (by decide) ?_) (by simp [Printable])
  intro c mem
  obtain ⟨x, _, among⟩ := List.mem_flatMap.1 mem
  exact le_toNat_escape among

theorem printable_toDigits (n : Nat) : Printable (Nat.toDigits 10 n) := by
  intro c mem
  obtain ⟨least, _⟩ := Char.isDigit_iff_toNat.1 (isDigit_of_mem_toDigits mem)
  exact Nat.le_trans (by decide) least

theorem printable_itemChars {items : List Json} (each : ∀ item ∈ items, Printable item.chars) :
    Printable (itemChars items) := by
  induction items with
  | nil => simp [itemChars, Printable]
  | cons item items ih =>
    obtain ⟨first, others⟩ := List.forall_mem_cons.1 each
    exact printable_append (printable_cons (by decide) first) (ih others)

theorem printable_list {items : List Json} (each : ∀ item ∈ items, Printable item.chars) :
    Printable (list items).chars := by
  cases items with
  | nil => simp [chars, Printable]
  | cons item items =>
    obtain ⟨first, others⟩ := List.forall_mem_cons.1 each
    exact printable_append (printable_cons (by decide) first) (printable_itemChars others)

theorem printable_fieldChars {fields : List (String × Json)}
    (each : ∀ field ∈ fields, Printable field.2.chars) : Printable (fieldChars fields) := by
  induction fields with
  | nil => simp [fieldChars, Printable]
  | cons field fields ih =>
    obtain ⟨first, others⟩ := List.forall_mem_cons.1 each
    have name := printable_cons (c := ',') (by decide) (printable_quote field.1)
    have value := printable_cons (c := ':') (by decide) first
    exact printable_append (printable_append name value) (ih others)

theorem printable_object {fields : List (String × Json)}
    (each : ∀ field ∈ fields, Printable field.2.chars) : Printable (object fields).chars := by
  cases fields with
  | nil => simp [chars, Printable]
  | cons field fields =>
    obtain ⟨first, others⟩ := List.forall_mem_cons.1 each
    have name := printable_cons (c := '{') (by decide) (printable_quote field.1)
    have value := printable_cons (c := ':') (by decide) first
    exact printable_append (printable_append name value) (printable_fieldChars others)

theorem printable_toString_int (n : Int) : Printable (toString n).toList := by
  rw [toList_toString_int]
  split
  · exact printable_cons (by decide) (printable_toDigits _)
  · exact printable_toDigits _

theorem printable_floatChars (x : Binary64) : Printable (floatChars x) := by
  have digits : Printable (toString (Decimal.shortest x).digits).toList := by
    rw [toList_toString]
    exact printable_toDigits _
  have front (n : Nat) := digits.of_subset (List.take_subset n _)
  have back (n : Nat) := digits.of_subset (List.drop_subset n _)
  have zeros (n : Nat) : Printable (List.replicate n '0') := by
    intro c mem
    rw [List.eq_of_mem_replicate mem]
    decide
  have point {cs : List Char} (rest : Printable cs) : Printable ('.' :: cs) :=
    printable_cons (by decide) rest
  have signed {size : List Char} (all : Printable size) :
      Printable (if x.negative then '-' :: size else size) := by
    split
    · exact printable_cons (by decide) all
    · exact all
  apply signed
  -- One case for each way to place the point.
  split
  · simp [Printable]
  split
  · exact printable_append (printable_append digits (zeros _)) (point (by simp [Printable]))
  split
  · exact printable_append (front _) (point (back _))
  split
  · exact printable_append (printable_append (by simp [Printable]) (zeros _)) digits
  · refine printable_append (printable_append (front 1) ?_)
      (printable_cons (by decide) (printable_toString_int _))
    split
    · simp [Printable]
    · exact point (back 1)

theorem printable_chars : (j : Json) → Printable j.chars
  | .null => by simp [chars, Printable]
  | .bool b => by cases b <;> simp [chars, Printable]
  | .int n => printable_toString_int n
  | .float x => printable_floatChars x
  | .text s => printable_quote s
  | .list items => printable_list fun item _ => printable_chars item
  | .object fields => printable_object fun field _ => printable_chars field.2
termination_by j => sizeOf j
decreasing_by
  · have := List.sizeOf_lt_of_mem ‹item ∈ items›
    simp only [Json.list.sizeOf_spec]
    omega
  · have := List.sizeOf_lt_of_mem ‹field ∈ fields›
    obtain ⟨name, value⟩ := field
    simp only [Json.object.sizeOf_spec, Prod.mk.sizeOf_spec] at *
    omega

end Lines

section Joining

/-- Where a text that holds one value goes on with an object, it holds no value any more. -/
theorem Node.ofChars?_append_brace {cs : List Char} {n : Node} (read : Node.ofChars? cs = some n)
    (more : List Char) : Node.ofChars? (cs ++ '{' :: more) = none := by
  obtain ⟨ts, words, done⟩ := Option.bind_eq_some_iff.1 read
  have complete : ts.foldlM Expected.step (.value []) = some (.more [] n) := by
    split at done
    · next whole =>
      cases done
      exact whole
    · cases done
  rw [Node.ofChars?, tokens_append_brace words]
  cases tokens more with
  | none => rfl
  | some others => simp [List.foldlM_append, complete, Expected.step]

/-- Blanks may stand in front of an object. -/
theorem Node.ofChars?_blank_append {blanks : List Char} (blank : ∀ c ∈ blanks, isBlank c)
    (more : List Char) : Node.ofChars? (blanks ++ '{' :: more) = Node.ofChars? ('{' :: more) := by
  have opened : tokens ('{' :: more) = (tokens more).map (.openObject :: ·) :=
    tokens_of_word rfl rfl
  rw [Node.ofChars?, Node.ofChars?, tokens_append_brace (tokens_of_blank blank), opened]
  rfl

theorem Node.ofChars?_of_no_word {c : Char} {cs tail : List Char}
    (begun : cs.dropWhile isBlank = c :: tail) (first : token (c :: tail) = none) :
    Node.ofChars? cs = none := by
  rw [Node.ofChars?, tokens_of_no_word begun first]
  rfl

end Joining

end SceneLock.Json
