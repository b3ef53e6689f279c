import Mathlib
import SceneLock.Event.Log
import SceneLock.Proofs.JsonTexts
import SceneLock.Proofs.Timestamps

/-!
The line of an event: it is one line indeed, and reading it gives the event back, field by field, at
the time that the line shows.
-/

namespace SceneLock

theorem Mode.ofText?_text (mode : Mode) : Mode.ofText? mode.text = some mode := by
  cases mode <;> decide

namespace Event

open Json

theorem Action.ofText?_text (action : Action) : Action.ofText? action.text = some action := by
  cases action <;> decide

/-- What can be told of an event: a time within the range of times, and details whose numbers are
whole and that do not nest too deep for the line. -/
structure Tellable (e : Event) : Prop where
  time : e.time.InRange
  details : Plain (depthLimit - 2) e.details

/-- The event at the time that its line shows. -/
def shown (e : Event) : Event := { e with time := e.time.shown }

/-- The tree of a text. -/
def textNode (s : String) : Node := .string (quoted s)

theorem textOf_textNode (s : String) : textOf (textNode s) = some s := text?_quoted s

theorem textsOf_textNode (texts : List String) :
    textsOf (.list (texts.map textNode)) = some texts := by
  show (texts.map textNode).mapM textOf = some texts
  induction texts with
  | nil => rfl
  | cons s texts ih => simp [List.mapM_cons, textOf_textNode, ih]

theorem reads_texts (texts : List String) :
    Reads (.list (texts.map .text)) (.list (texts.map textNode)) := by
  apply reads_list
  induction texts with
  | nil => exact .nil
  | cons s texts ih => exact .cons (reads_text s) ih

/-- The fields of an event as trees, with the tree of its details. -/
def nodes (e : Event) (details : Node) : List (String × Node) :=
  [("ts", textNode e.time.text), ("action", textNode e.action.text), ("owner", textNode e.owner)]
    ++ (if e.ids.isEmpty then [] else [("ids", .list (e.ids.map textNode))])
    ++ (match e.mode with
        | some mode => [("mode", textNode mode.text)]
        | none => [])
    ++ [("tree", .bool e.tree), ("details", details)]

/-- A named tree, with the name as it is written. -/
def rawEntry (field : String × Node) : List Char × Node := (quoted field.1, field.2)

variable {e : Event} {details : Node}

theorem readsField_fields (read : Reads e.details details) :
    List.Forall₂ ReadsField e.fields ((e.nodes details).map rawEntry) := by
  have text (name s : String) : ReadsField (name, .text s) (rawEntry (name, textNode s)) :=
    ⟨rfl, reads_text s⟩
  have ids : ReadsField ("ids", .list (e.ids.map .text))
      (rawEntry ("ids", .list (e.ids.map textNode))) := ⟨rfl, reads_texts e.ids⟩
  have tree : ReadsField ("tree", .bool e.tree) (rawEntry ("tree", .bool e.tree)) :=
    ⟨rfl, reads_bool e.tree⟩
  have more : ReadsField ("details", e.details) (rawEntry ("details", details)) := ⟨rfl, read⟩
  unfold fields nodes
  cases e.ids.isEmpty <;> cases e.mode <;> simp_all

/-- The names are read as they were written. -/
theorem mapM_rawEntry (named : List (String × Node)) :
    (named.map rawEntry).mapM (fun (raw, n) => return (← text? raw, n)) = some named := by
  induction named with
  | nil => rfl
  | cons field named ih => simp_all [List.mapM_cons, rawEntry, text?_quoted]

theorem choiceOf_textNode {α : Type} (named : String → Option α) (s : String) :
    choiceOf named (textNode s) = named s := by
  simp [choiceOf, textNode, text?_quoted]

theorem ofParts?_nodes (time : e.time.IsValid) {ids mode : Option Node}
    (readIds : orElse [] textsOf ids = some e.ids)
    (readMode : orElse none modeOf mode = some e.mode)
    (value : details.json? (depthLimit - 1) = some e.details) :
    ofParts? (textNode e.time.text) (textNode e.action.text) (textNode e.owner) ids mode
      (some (.bool e.tree)) details = some e := by
  have readTree : orElse false boolOf (some (.bool e.tree)) = some e.tree := rfl
  simp [ofParts?, textOf_textNode, Timestamp.ofText?_text time, choiceOf_textNode,
    Action.ofText?_text, readIds, readMode, readTree, value]

/-- Every field is found under its name, and what is not mentioned stands for the default. -/
theorem field?_nodes (e : Event) (details : Node) :
    ∃ ids mode, orElse [] textsOf ids = some e.ids ∧ orElse none modeOf mode = some e.mode ∧
      field? "ts" (e.nodes details) = some (some (textNode e.time.text)) ∧
      field? "action" (e.nodes details) = some (some (textNode e.action.text)) ∧
      field? "owner" (e.nodes details) = some (some (textNode e.owner)) ∧
      field? "ids" (e.nodes details) = some ids ∧ field? "mode" (e.nodes details) = some mode ∧
      field? "tree" (e.nodes details) = some (some (.bool e.tree)) ∧
      field? "details" (e.nodes details) = some (some details) := by
  refine ⟨if e.ids.isEmpty then none else some (.list (e.ids.map textNode)),
    e.mode.map fun mode => textNode mode.text, ?_, ?_, ?_⟩
  · cases e.ids with
    | nil => rfl
    | cons id ids => exact textsOf_textNode (id :: ids)
  · cases e.mode with
    | none => rfl
    | some mode =>
      show (choiceOf Mode.ofText? (textNode mode.text)).map some = some (some mode)
      rw [choiceOf_textNode, Mode.ofText?_text]
      rfl
  · unfold nodes
    cases e.ids.isEmpty <;> cases e.mode <;> simp [field?]

theorem ofNode?_nodes (time : e.time.IsValid)
    (value : details.json? (depthLimit - 1) = some e.details) :
    ofNode? (.object ((e.nodes details).map rawEntry)) = some e := by
  obtain ⟨ids, mode, readIds, readMode, found⟩ := field?_nodes e details
  have parts := ofParts?_nodes time readIds readMode value
  rw [ofNode?, mapM_rawEntry]
  simp [found, parts]

theorem ofChars?_line (time : e.time.IsValid) (plain : Plain (depthLimit - 2) e.details) :
    ofChars? e.line.toList = some e := by
  obtain ⟨details, reads, value⟩ := plain.reads
  have whole := reads_object (readsField_fields reads)
  have read := whole (.value []) [] [] (opens_value []) ends_nil
  rw [List.append_nil, run_nil] at read
  have tree : Node.ofChars? e.line.toList = some (.object ((e.nodes details).map rawEntry)) := by
    rw [line, Json.line, String.toList_ofList]
    exact Node.ofChars?_of_run read
  rw [ofChars?, tree]
  exact ofNode?_nodes time value

namespace Tellable

theorem line_shown (t : e.Tellable) : e.shown.line = e.line := by
  have same : e.shown.time.text = e.time.text := congrArg String.ofList t.time.chars_shown
  have fields : e.shown.fields = e.fields := by
    unfold fields
    rw [same]
    rfl
  rw [line, fields, line]

theorem ofChars?_line (t : e.Tellable) : ofChars? e.line.toList = some e.shown := by
  rw [← t.line_shown]
  exact Event.ofChars?_line t.time.isValid_shown t.details

theorem shown_eq_iff (t : e.Tellable) : e.shown = e ↔ e.time.IsValid := by
  rw [← t.time.shown_eq_iff]
  exact ⟨congrArg Event.time, fun same => by rw [shown, same]⟩

end Tellable

theorem printable_line (e : Event) : Printable e.line.toList := by
  rw [line, Json.line, String.toList_ofList]
  exact printable_chars _

/-- A line without line breaks that begins with a brace is the only line of its text. -/
theorem lines_of_unbroken {text : String} (unbroken : '\n' ∉ text.toList)
    (brace : text.toList.head? = some '{') : EventLog.lines text = [text.toList] := by
  have single : text.toList.splitOn '\n' = [text.toList] := by
    rw [List.splitOn_eq_splitOnP]
    apply List.splitOnP_eq_singleton
    intro c mem
    simpa using fun same : c = '\n' => unbroken (same ▸ mem)
  obtain ⟨rest, e⟩ := List.head?_eq_some_iff.1 brace
  have seen : text.toList.all isWhite = false := by
    rw [e, List.all_cons]
    rfl
  rw [EventLog.lines, single]
  simp [seen]

/-- The line of an event holds neither a line feed nor a carriage return. Read as an event, or as a
log of one event, it gives this event back at the time that it shows, which is the time of the event
unless that lies in a leap second within a minute. Two events have the same line just if they show
the same time and have all else in common. -/
theorem Tellable.line_round_trip (t : e.Tellable) :
    ('\n' ∉ e.line.toList ∧ '\r' ∉ e.line.toList) ∧ ofChars? e.line.toList = some e.shown ∧
      (e.shown = e ↔ e.time.IsValid) ∧ (∀ path, EventLog.ofText path e.line = .ok [e.shown]) ∧
      ∀ e' : Event, e'.Tellable → (e'.line = e.line ↔ e'.shown = e.shown) := by
  have read := t.ofChars?_line
  have printable := e.printable_line
  have unbroken : '\n' ∉ e.line.toList := fun mem => absurd (printable _ mem) (by decide)
  refine ⟨⟨unbroken, fun mem => absurd (printable _ mem) (by decide)⟩, read, t.shown_eq_iff, ?_, ?_⟩
  · intro path
    have brace : e.line.toList.head? = some '{' := by
      rw [line, Json.line, String.toList_ofList]
      rfl
    rw [EventLog.ofText, lines_of_unbroken unbroken brace]
    simp [EventLog.readLines, read, Except.map]
  · intro e' t'
    constructor
    · intro same
      have read' := t'.ofChars?_line
      rw [same, read] at read'
      exact (Option.some.inj read').symm
    · intro same
      rw [← t'.line_shown, same, t.line_shown]

/-- Half a second into a leap second that is said to follow the first second of 1970. -/
def midMinute : Event where
  time := ⟨0, 1500000000⟩
  action := .release
  owner := "alice"

/-- Its line is that of another event, half a second after the second that follows. And what ends a
line by the rules of Unicode alone stands in the line of an event as it is. -/
theorem midMinute_told_as_later :
    let later : Event := { midMinute with time := ⟨1, 500000000⟩ }
    let separated : Event := { midMinute with time := .epoch, owner := "a\u2028b" }
    midMinute.Tellable ∧ later.Tellable ∧ midMinute ≠ later ∧ midMinute.line = later.line ∧
      ofChars? midMinute.line.toList ≠ some midMinute ∧
      separated.Tellable ∧ '\u2028' ∈ separated.line.toList := by
  intro later separated
  have plain : Plain (depthLimit - 2) (.object []) := .object (by simp [Sorted]) (by simp)
  have told : midMinute.Tellable := ⟨by decide, plain⟩
  have told_later : later.Tellable := ⟨by decide, plain⟩
  have differ : midMinute ≠ later := fun same => absurd (congrArg time same) (by decide)
  have shows : midMinute.shown = later := rfl
  have read := told.ofChars?_line
  rw [shows] at read
  refine ⟨told, told_later, differ, ?_, ?_, ⟨by decide, plain⟩, ?_⟩
  · rw [← told.line_shown, shows]
  · rw [read]
    exact fun same => differ (Option.some.inj same).symm
  · have whole : separated.line.toList.contains '\u2028' := by cbv
    exact List.contains_iff_mem.1 whole

/-- In the leap second at the end of the year before the year 0. -/
def lateRefusal : Event where
  time := ⟨-62167219201, 1500000000⟩
  action := .acquireFailed
  owner := "\"alice\"\n"
  mode := some .write
  details := .object [("by", .list [.null, .text "bob\t"]), ("n", .int (-9223372036854775808))]

theorem lateRefusal_round_trip :
    lateRefusal.Tellable ∧ lateRefusal.time.text = "-0001-12-31T23:59:60.500Z" ∧
      ofChars? lateRefusal.line.toList = some lateRefusal ∧
      EventLog.ofText "events.ndjson" lateRefusal.line = .ok [lateRefusal] := by
  have tellable : lateRefusal.Tellable := by
    constructor
    · decide
    · refine Plain.object ?_ ?_
      · simp [Sorted]
        decide
      · intro field mem
        obtain rfl | rfl := List.mem_pair.1 mem
        · refine Plain.list ?_
          intro item mem
          obtain rfl | rfl := List.mem_pair.1 mem
          · exact .null
          · exact .text _
        · exact .int (by decide) (by decide)
  obtain ⟨_, read, shown_iff, log, _⟩ := tellable.line_round_trip
  rw [shown_iff.2 (by decide)] at read log
  exact ⟨tellable, by cbv, read, log _⟩

end Event

end SceneLock
