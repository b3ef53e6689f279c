import SceneLock.Proofs.EventLines
import SceneLock.Proofs.LogFiles

/-!
What adding events makes of a log that can be read. The reader takes a last line without a line
break for a line; the writer goes on behind it. So events are added to the end of the log if the
text of the log ends with a line break, or with blanks behind it; otherwise the first of them is
written on a line that holds something already, and the log cannot be read any more.
-/

namespace SceneLock

open Json

theorem isWhite_of_isBlank {c : Char} (blank : isBlank c) : isWhite c := by
  simp only [isBlank, Bool.or_eq_true, decide_eq_true_eq] at blank
  obtain ((rfl | rfl) | rfl) | rfl := blank <;> decide

/-- White space that is not a blank begins no word. -/
theorem token_of_isWhite {c : Char} (white : isWhite c) (cs : List Char) :
    token (c :: cs) = none := by
  have other : c.isDigit = false := by
    by_contra digit
    simp [Timestamp.Scan.not_white_of_isDigit (by simpa using digit)] at white
  unfold token
  split
  all_goals first
    | (next e =>
        cases (List.cons_eq_cons.1 e).1
        cases white)
    | simp [numeral, spanDigits, other]

namespace Event

/-- Reading the line of the event gives the event back. -/
def Survives (e : Event) : Prop := ofChars? e.line.toList = some e

theorem line_eq_cons (e : Event) : ∃ rest, e.line.toList = '{' :: rest := by
  rw [line, Json.line, String.toList_ofList]
  exact ⟨_, rfl⟩

theorem unbroken_line (e : Event) : '\n' ∉ e.line.toList :=
  fun mem => absurd (e.printable_line _ mem) (by decide)

/-- Blanks in front of its line do not hide an event. -/
theorem Survives.ofChars?_blank_append {e : Event} (survives : e.Survives) {blanks : List Char}
    (blank : ∀ c ∈ blanks, isBlank c) : ofChars? (blanks ++ e.line.toList) = some e := by
  obtain ⟨rest, brace⟩ := e.line_eq_cons
  rw [Survives, brace] at survives
  rw [brace, ofChars?, Node.ofChars?_blank_append blank]
  exact survives

/-- Behind an event no other event can stand on the same line. -/
theorem ofChars?_append_line {cs : List Char} {before : Event} (holds : ofChars? cs = some before)
    (e : Event) : ofChars? (cs ++ e.line.toList) = none := by
  obtain ⟨n, read, _⟩ := Option.bind_eq_some_iff.1 holds
  obtain ⟨rest, brace⟩ := e.line_eq_cons
  rw [brace, ofChars?, Node.ofChars?_append_brace read]
  rfl

/-- White space that JSON does not know hides an event. -/
theorem ofChars?_white_append (e : Event) {cs : List Char} (white : ∀ c ∈ cs, isWhite c)
    (unknown : ¬ ∀ c ∈ cs, isBlank c) : ofChars? (cs ++ e.line.toList) = none := by
  cases begun : cs.dropWhile isBlank with
  | nil => exact absurd (List.dropWhile_eq_nil_iff.1 begun) unknown
  | cons c tail =>
    have mem : c ∈ cs := (List.dropWhile_sublist _).subset (begun ▸ List.mem_cons_self)
    have behind : (cs ++ e.line.toList).dropWhile isBlank = c :: (tail ++ e.line.toList) := by
      rw [List.dropWhile_append, begun]
      rfl
    rw [ofChars?, Node.ofChars?_of_no_word behind (token_of_isWhite (white c mem) _)]
    rfl

end Event

namespace EventLog

section Lines

/-- What stands behind the last line break of a text. -/
def lastLine (text : String) : List Char := (text.toList.splitOn '\n').getLastD []

/-- Behind the last line break stand blanks only, as a line of JSON may have them. -/
def Ended (text : String) : Prop := ∀ c ∈ lastLine text, isBlank c

instance (text : String) : Decidable (Ended text) :=
  inferInstanceAs (Decidable (∀ c ∈ lastLine text, isBlank c))

/-- Only the last line goes on when a text goes on. -/
theorem splitOn_append (cs : List Char) : ∃ front last, cs.splitOn '\n' = front ++ [last] ∧
    '\n' ∉ last ∧ ∀ more, (cs ++ more).splitOn '\n' = front ++ (last ++ more).splitOn '\n' := by
  by_cases broken : '\n' ∈ cs
  · obtain ⟨last, front, back, unbroken⟩ :=
      List.eq_append_cons_of_mem (List.mem_reverse.2 broken)
    have e : cs = front.reverse ++ '\n' :: last.reverse := by
      rw [← List.reverse_reverse cs, back]
      simp
    have unbroken : '\n' ∉ last.reverse := by simpa using unbroken
    refine ⟨front.reverse.splitOn '\n', last.reverse, ?_, unbroken, ?_⟩
    · rw [e, List.splitOn_append_cons_self, List.splitOn_eq_singleton unbroken]
    · intro more
      rw [e, List.append_assoc, List.cons_append, List.splitOn_append_cons_self]
  · exact ⟨[], cs, List.splitOn_eq_singleton broken, broken, fun more => rfl⟩

/-- The line of an event that is added is joined to the last line. -/
theorem lines_record (text : String) : ∃ front,
    lines text = front ++ (if (lastLine text).all isWhite then [] else [lastLine text]) ∧
      ∀ e : Event, lines (text ++ record e) = front ++ [lastLine text ++ e.line.toList] := by
  obtain ⟨front, last, split, unbroken, goes⟩ := splitOn_append text.toList
  have same : lastLine text = last := by rw [lastLine, split, List.getLastD_concat]
  rw [same]
  refine ⟨front.filter fun line => !line.all isWhite, ?_, ?_⟩
  · rw [lines, split, List.filter_append]
    by_cases white : last.all isWhite <;> simp [white]
  · intro e
    obtain ⟨rest, brace⟩ := e.line_eq_cons
    have joined : '\n' ∉ last ++ e.line.toList :=
      List.not_mem_append unbroken e.unbroken_line
    have seen : (last ++ e.line.toList).all isWhite = false := by
      rw [brace, List.all_append, List.all_cons]
      simp [show isWhite '{' = false by decide]
    have pieces : (last ++ (record e).toList).splitOn '\n' = [last ++ e.line.toList, []] := by
      rw [record, String.toList_append, ← List.append_assoc]
      exact List.splitOn_append_cons_self_of_not_mem joined []
    rw [lines, String.toList_append, goes, pieces, List.filter_append]
    simp [seen]

theorem ended_record (text : String) (e : Event) : Ended (text ++ record e) := by
  have pieces : (text ++ record e).toList.splitOn '\n' =
      (text.toList ++ e.line.toList).splitOn '\n' ++ [[]] := by
    rw [record, String.toList_append, String.toList_append, ← List.append_assoc]
    exact List.splitOn_append_cons_self _ []
  rw [Ended, lastLine, pieces, List.getLastD_concat]
  simp

end Lines

section Reading

variable {path text : String} {es more : List Event}

theorem readLines_append (path : String) (n : Nat) (a b : List (List Char)) :
    readLines path n (a ++ b) =
      (readLines path n a).bind fun es => (readLines path (n + a.length) b).map (es ++ ·) := by
  induction a generalizing n with
  | nil =>
    show readLines path n b = (readLines path n b).map ([] ++ ·)
    cases readLines path n b <;> rfl
  | cons line a ih =>
    rw [List.cons_append, readLines, readLines]
    cases Event.ofChars? line with
    | none => rfl
    | some e =>
      simp only [ih, List.length_cons]
      rw [show n + (a.length + 1) = n + 1 + a.length by omega]
      cases readLines path (n + 1) a with
      | error x => rfl
      | ok es => cases readLines path (n + 1 + a.length) b <;> rfl

theorem readLines_singleton (path : String) (n : Nat) (line : List Char) :
    readLines path n [line] =
      match Event.ofChars? line with
      | none => .error (.badEvent n path)
      | some e => .ok [e] := by
  rw [readLines]
  cases Event.ofChars? line <;> rfl

/-- The event is read behind what was read before. -/
theorem ofText_record (ended : Ended text) {e : Event} (survives : e.Survives) (path : String) :
    ofText path (text ++ record e) = (ofText path text).map (· ++ [e]) := by
  obtain ⟨front, whole, joined⟩ := lines_record text
  have white : (lastLine text).all isWhite :=
    List.all_eq_true.2 fun c mem => isWhite_of_isBlank (ended c mem)
  rw [if_pos white, List.append_nil] at whole
  rw [ofText, ofText, joined, whole, readLines_append, readLines_singleton,
    survives.ofChars?_blank_append ended]
  cases readLines path 1 front <;> rfl

/-- The event shares its line with something else, and that line cannot be read. -/
theorem ofText_record_of_not_ended (old : ofText path text = .ok es) (unended : ¬ Ended text)
    (e : Event) : ∃ n, ofText path (text ++ record e) = .error (.badEvent n path) := by
  obtain ⟨front, whole, joined⟩ := lines_record text
  rw [ofText, whole, readLines_append] at old
  cases before : readLines path 1 front with
  | error x =>
    rw [before] at old
    cases old
  | ok es =>
    have bad : Event.ofChars? (lastLine text ++ e.line.toList) = none := by
      by_cases white : (lastLine text).all isWhite
      · exact e.ofChars?_white_append (List.all_eq_true.1 white) unended
      · rw [if_neg white, before, readLines_singleton] at old
        cases holds : Event.ofChars? (lastLine text) with
        | none =>
          rw [holds] at old
          cases old
        | some last => exact Event.ofChars?_append_line holds e
    refine ⟨1 + front.length, ?_⟩
    rw [ofText, joined, readLines_append, before, readLines_singleton, bad]
    rfl

/-- The text with the lines of some events behind it. -/
def extended (text : String) (more : List Event) : String :=
  more.foldl (fun text e => text ++ record e) text

/-- Events that are added are read behind what was read before, in order. What could not be read
before cannot be read then. -/
theorem ofText_extended (ended : Ended text) (survive : ∀ e ∈ more, e.Survives) (path : String) :
    ofText path (extended text more) = (ofText path text).map (· ++ more) := by
  induction more generalizing text with
  | nil =>
    show ofText path text = (ofText path text).map (· ++ [])
    cases ofText path text <;> simp [Except.map]
  | cons e more ih =>
    obtain ⟨first, others⟩ := List.forall_mem_cons.1 survive
    have rest := ih (ended_record text e) others
    rw [ofText_record ended first] at rest
    rw [extended, List.foldl_cons]
    refine rest.trans ?_
    cases ofText path text <;> simp [Except.map]

theorem ofText_extended_of_not_ended (old : ofText path text = .ok es) (unended : ¬ Ended text)
    (e : Event) (survive : ∀ e ∈ more, e.Survives) :
    ∃ n, ofText path (extended text (e :: more)) = .error (.badEvent n path) := by
  obtain ⟨n, bad⟩ := ofText_record_of_not_ended old unended e
  refine ⟨n, ?_⟩
  show ofText path (extended (text ++ record e) more) = _
  rw [ofText_extended (ended_record text e) survive, bad]
  rfl

end Reading

end EventLog

namespace Volume

variable {v w : Volume} {place q : Place} {path : String} {e : Entry}

/-- What the first volume has, the second has in the same place. -/
def Keeps (v w : Volume) : Prop := ∀ place e, v.entry? place = some e → w.entry? place = some e

theorem Keeps.refl (v : Volume) : Keeps v v := fun _ _ found => found

theorem Keeps.trans {u : Volume} (first : Keeps u v) (second : Keeps v w) : Keeps u w :=
  fun place e found => second place e (first place e found)

theorem Keeps.walk (keeps : Keeps v w) {parts : List String}
    (leads : v.walk place parts = some q) : w.walk place parts = some q := by
  induction parts generalizing place with
  | nil => exact leads
  | cons part parts ih =>
    rw [Volume.walk] at leads ⊢
    by_cases through : v.entry? place = some .directory
    · rw [if_neg (not_not_intro through)] at leads
      rw [if_neg (not_not_intro (keeps place .directory through))]
      split at leads
      · next stay =>
        rw [if_pos stay]
        exact ih leads
      · next move =>
        rw [if_neg move]
        split at leads
        · next up =>
          rw [if_pos up]
          exact ih leads
        · next down =>
          rw [if_neg down]
          exact ih leads
    · rw [if_pos through] at leads
      cases leads

theorem Keeps.find? (keeps : Keeps v w) (found : v.find? path = some e) :
    w.find? path = some e := by
  obtain ⟨place, leads, there⟩ := Option.bind_eq_some_iff.1 found
  have leads' : w.place? path = some place := by
    unfold place? at leads ⊢
    split at leads
    · next named =>
      rw [if_pos named]
      exact keeps.walk leads
    · cases leads
  rw [Volume.find?, leads']
  exact keeps place e there

theorem keeps_put (free : v.entry? place = none) (e : Entry) : Keeps v (v.put place e) := by
  intro q there found
  have other : q ≠ place := by
    rintro rfl
    cases free.symm.trans found
  rw [entry?_put (by simp [free]), if_neg other]
  exact found

theorem keeps_makeAlong (v : Volume) (place : Place) (parts : List String) :
    Keeps v (v.makeAlong place parts).2 := by
  fun_induction makeAlong v place parts with
  | case1 => exact Keeps.refl _
  | case2 v place part parts stay ih => exact ih
  | case3 v place parts other ih => exact ih
  | case4 v place part parts other down there ih => exact ih
  | case5 => exact Keeps.refl _
  | case6 v place part parts other down free named ih => exact (keeps_put free _).trans ih
  | case7 => exact Keeps.refl _

theorem keeps_makeDirectory (v : Volume) (path : String) : Keeps v (v.makeDirectory path).2 := by
  unfold makeDirectory
  split
  · exact keeps_makeAlong v _ _
  · exact Keeps.refl v

end Volume

namespace EventLog

variable {path text : String} {e : Event} {es more : List Event} {m after : Machine}

theorem keeps_prepareDirectory (path : String) (m : Machine) :
    m.volume.Keeps (prepareDirectory (m := StateM Machine) path m).2.volume := by
  unfold prepareDirectory
  cases above : Path.parent? path with
  | none => exact .refl _
  | some directory =>
    by_cases named : directory = ""
    · subst named
      exact .refl _
    · have occupied : Host.isOccupied (m := StateM Machine) directory m =
          ((m.volume.find? directory).isSome, m) := rfl
      have keeps := Volume.keeps_makeDirectory m.volume directory
      cases made : m.volume.makeDirectory directory with
      | mk success v =>
        have makes : Host.makeDirectory (m := StateM Machine) directory m =
            (success, { m with volume := v }) := Machine.update_eq made
        rw [made] at keeps
        simp only [bind, StateT.bind, occupied]
        split
        · exact .refl _
        · cases success with
          | _ =>
            unfold StateT.bind
            rw [makes]
            exact keeps

theorem read_file (file : m.volume.find? path = some (.file (some text))) :
    (read (m := StateM Machine) path m).1 = ofText path text := by
  have found : Host.readText? (m := StateM Machine) path m = (some text, m) := by
    simp only [Host.readText?, get, getThe, MonadStateOf.get, StateT.get, bind, StateT.bind, pure,
      StateT.pure, file]
  simp only [read, bind, StateT.bind, found]
  rfl

theorem append_file (file : m.volume.find? path = some (.file (some text)))
    (done : append (m := StateM Machine) path e m = (.ok (), after)) :
    after.volume.find? path = some (.file (some (text ++ record e))) := by
  have keeps := keeps_prepareDirectory path m
  unfold append at done
  simp only [bind, StateT.bind] at done
  cases prepared : prepareDirectory (m := StateM Machine) path m with
  | mk result between =>
    rw [prepared] at keeps done
    cases result with
    | error => cases done
    | ok =>
      obtain ⟨written, appended, grown, _⟩ :=
        Machine.append_file (keeps.find? file) (record e)
      simp only [StateT.bind, appended] at done
      cases done
      exact grown

/-- Adds events one after the other, as long as that works. -/
def appendAll {m : Type → Type} [Monad m] [Host m] (path : String) :
    List Event → m (Except LockError Unit)
  | [] => return .ok ()
  | e :: more => do
    match ← append path e with
    | .error failure => return .error failure
    | .ok () => appendAll path more

theorem appendAll_file (file : m.volume.find? path = some (.file (some text)))
    (done : appendAll (m := StateM Machine) path more m = (.ok (), after)) :
    after.volume.find? path = some (.file (some (extended text more))) := by
  induction more generalizing m text with
  | nil =>
    cases done
    exact file
  | cons e more ih =>
    unfold appendAll at done
    simp only [bind, StateT.bind] at done
    cases first : append (m := StateM Machine) path e m with
    | mk result between =>
      rw [first] at done
      cases result with
      | error => cases done
      | ok => exact ih (append_file file first) done

theorem Holds.appendAll (holds : Holds path text m) (more : List Event) :
    ∃ after, EventLog.appendAll (m := StateM Machine) path more m = (.ok (), after) ∧
      Holds path (extended text more) after := by
  induction more generalizing m text with
  | nil => exact ⟨m, rfl, holds⟩
  | cons e more ih =>
    obtain ⟨between, first, holds⟩ := holds.append e
    obtain ⟨after, rest, holds⟩ := ih holds
    refine ⟨after, ?_, holds⟩
    unfold EventLog.appendAll
    simp only [bind, StateT.bind, first]
    exact rest

/-- Events that are added to a log are read behind those that were read before, if the log ended
with a line break or with blanks behind it. Otherwise the log cannot be read any more. -/
theorem read_appendAll_iff (file : m.volume.find? path = some (.file (some text)))
    (old : (read (m := StateM Machine) path m).1 = .ok es) (survive : ∀ e ∈ more, e.Survives)
    (done : appendAll (m := StateM Machine) path more m = (.ok (), after)) :
    ((read (m := StateM Machine) path after).1 = .ok (es ++ more) ↔ more = [] ∨ Ended text) ∧
      (¬ (more = [] ∨ Ended text) →
        ∃ n, (read (m := StateM Machine) path after).1 = .error (.badEvent n path)) := by
  rw [read_file file] at old
  rw [read_file (appendAll_file file done)]
  by_cases ended : Ended text
  · have good := ofText_extended ended survive path
    rw [old] at good
    simp [good, Except.map, ended]
  · cases more with
    | nil => simp [extended, old]
    | cons e more =>
      obtain ⟨n, bad⟩ :=
        ofText_extended_of_not_ended old ended e (List.forall_mem_cons.1 survive).2
      simp [bad, ended]

def taken : Event where
  time := .epoch
  action := .acquire
  owner := "alice"
  ids := ["hall"]
  mode := some .write

def given : Event where
  time := ⟨1, 0⟩
  action := .release
  owner := "alice"
  ids := ["hall"]
  mode := some .write

theorem survives_of_plain (time : e.time.IsValid) (plain : e.details = .object []) :
    e.Survives := by
  refine e.ofChars?_line time ?_
  rw [plain]
  exact .object (by simp [Sorted]) (by simp)

/-- A machine with a log file. -/
def shelf (text : String) : Machine where
  volume := Volume.put {} ("log" :: Volume.home) (.file (some text))

theorem shelf_holds (text : String) : Holds "log" text (shelf text) := by
  refine ⟨by cbv, fun directory above => .inl ?_⟩
  have parent : Path.parent? "log" = some "" := by cbv
  exact Option.some.inj (above.symm.trans parent)

/-- Line ends with carriage returns, a line without an event, and a tab behind the last line. -/
theorem tabbed_read_on : ∃ after,
    appendAll (m := StateM Machine) "log" [given, taken] (shelf (taken.line ++ "\r\n\r\n\t")) =
      (.ok (), after) ∧
    (read (m := StateM Machine) "log" after).1 = .ok [taken, given, taken] := by
  have holds := shelf_holds (taken.line ++ "\r\n\r\n\t")
  have old : ofText "log" (taken.line ++ "\r\n\r\n\t") = .ok [taken] := by cbv
  have survive : ∀ e ∈ [given, taken], e.Survives := by
    intro e mem
    obtain rfl | rfl := List.mem_pair.1 mem
    · exact survives_of_plain (by decide) rfl
    · exact survives_of_plain (by decide) rfl
  obtain ⟨after, done, _⟩ := holds.appendAll [given, taken]
  have last : lastLine (taken.line ++ "\r\n\r\n\t") = ['\t'] := by cbv
  have ended : Ended (taken.line ++ "\r\n\r\n\t") := by
    simp [Ended, last, isBlank]
  exact ⟨after, done, (read_appendAll_iff holds.file ((read_file holds.file).trans old) survive
    done).1.2 (.inr ended)⟩

/-- A log of one event without a line break behind it can be read until an event is added. -/
theorem unbroken_not_read_on : ∃ after,
    (read (m := StateM Machine) "log" (shelf taken.line)).1 = .ok [taken] ∧ given.Survives ∧
    append (m := StateM Machine) "log" given (shelf taken.line) = (.ok (), after) ∧
    (read (m := StateM Machine) "log" after).1 ≠ .ok ([taken] ++ [given]) := by
  have holds := shelf_holds taken.line
  have old : ofText "log" taken.line = .ok [taken] := by cbv
  obtain ⟨after, done, after_holds⟩ := holds.append given
  have last : (lastLine taken.line).head? = some '{' := by cbv
  have unended : ¬ Ended taken.line := fun ended =>
    absurd (ended '{' (List.mem_of_head? last)) (by decide)
  obtain ⟨n, bad⟩ := ofText_record_of_not_ended old unended given
  refine ⟨after, (read_file holds.file).trans old, survives_of_plain (by decide) rfl, done, ?_⟩
  rw [read_file after_holds.file, bad]
  simp

end EventLog

end SceneLock
