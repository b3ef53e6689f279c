import Mathlib
import SceneLock.Proofs.Appends

/-!
The number by which a log is told to be bad. Blank lines are taken out before the lines are
numbered, so the number is that of the line in the file only if no blank line stands before it.
-/

namespace SceneLock.EventLog

/-- The lines of a text as they stand in the file, the blank ones among them. -/
def rows (text : String) : List (List Char) := text.toList.splitOn '\n'

/-- What may stand on a line: white space, or an event. -/
def Good (row : List Char) : Prop := row.all isWhite ∨ (Event.ofChars? row).isSome

instance (row : List Char) : Decidable (Good row) :=
  inferInstanceAs (Decidable (row.all isWhite ∨ (Event.ofChars? row).isSome))

/-- The first line that holds neither, and the lines before it. -/
structure FirstBad (text : String) (before : List (List Char)) (bad : List Char) : Prop where
  found : ∃ after, rows text = before ++ bad :: after
  bad : ¬Good bad
  good : ∀ row ∈ before, Good row

/-- The lines among these that are not blank. -/
def seen (rows : List (List Char)) : List (List Char) := rows.filter fun row => !row.all isWhite

theorem lines_eq (text : String) : lines text = seen (rows text) := rfl

variable {path text : String} {before : List (List Char)} {bad : List Char} {es : List Event}

/-- Every line gives its event. -/
theorem readLines_eq_ok_iff {n : Nat} {lines : List (List Char)} :
    readLines path n lines = .ok es ↔ lines.map Event.ofChars? = es.map some := by
  induction lines generalizing n es with
  | nil => cases es <;> simp [readLines]
  | cons line rest ih =>
    rw [readLines]
    cases holds : Event.ofChars? line with
    | none => cases es <;> simp [holds]
    | some e =>
      cases es with
      | nil => cases readLines path (n + 1) rest <;> simp [Except.map]
      | cons first more =>
        rw [List.map_cons, List.map_cons, holds, List.cons_eq_cons, ← ih (n := n + 1)]
        cases readLines path (n + 1) rest <;> simp [Except.map]

theorem exists_readLines_iff {n : Nat} {lines : List (List Char)} :
    (∃ es, readLines path n lines = .ok es) ↔ ∀ line ∈ lines, (Event.ofChars? line).isSome := by
  simp only [readLines_eq_ok_iff]
  constructor
  · rintro ⟨es, given⟩ line mem
    have told : Event.ofChars? line ∈ es.map some := given ▸ List.mem_map_of_mem mem
    obtain ⟨e, _, same⟩ := List.mem_map.1 told
    exact same ▸ rfl
  · intro each
    induction lines with
    | nil => exact ⟨[], rfl⟩
    | cons line rest ih =>
      obtain ⟨first, others⟩ := List.forall_mem_cons.1 each
      obtain ⟨e, holds⟩ := Option.isSome_iff_exists.1 first
      obtain ⟨es, given⟩ := ih others
      exact ⟨e :: es, by rw [List.map_cons, List.map_cons, holds, given]⟩

theorem good_iff {rows : List (List Char)} :
    (∀ line ∈ seen rows, (Event.ofChars? line).isSome) ↔ ∀ row ∈ rows, Good row := by
  simp only [seen, Good, List.mem_filter]
  grind

theorem exists_ofText_iff (path text : String) :
    (∃ es, ofText path text = .ok es) ↔ ∀ row ∈ rows text, Good row := by
  rw [← good_iff, ← lines_eq]
  exact exists_readLines_iff

/-- A text holds events on all lines that are not blank, or there is a first line to blame. -/
theorem exists_firstBad (unread : ¬∀ row ∈ rows text, Good row) :
    ∃ before bad, FirstBad text before bad := by
  obtain ⟨bad, found⟩ : ∃ bad, (rows text).find? (¬Good ·) = some bad := by
    rw [← Option.isSome_iff_exists, List.find?_isSome]
    simpa using unread
  obtain ⟨wrong, before, after, split, good⟩ := List.find?_eq_some_iff_append.1 found
  refine ⟨before, bad, ⟨after, split⟩, by simpa using wrong, ?_⟩
  intro row mem
  simpa using good row mem

/-- The first bad line is told by its number among those that are not blank. -/
theorem FirstBad.ofText_eq (first : FirstBad text before bad) (path : String) :
    ofText path text = .error (.badEvent ((seen before).length + 1) path) := by
  obtain ⟨after, split⟩ := first.found
  obtain ⟨dark, unread⟩ := not_or.1 first.bad
  have none : Event.ofChars? bad = none := by simpa using unread
  have given : lines text = seen before ++ bad :: seen after := by
    rw [lines_eq, split, seen, List.filter_append, List.filter_cons_of_pos (by simpa using dark)]
    rfl
  obtain ⟨es, earlier⟩ : ∃ es, readLines path 1 (seen before) = .ok es :=
    exists_readLines_iff.2 (good_iff.2 first.good)
  rw [ofText, given, readLines_append, earlier, Nat.add_comm]
  simp only [Except.bind, readLines, none]
  rfl

variable {m : Machine}

/-- A log is read if every line that is not blank holds an event, and then it gives these events in
order. Otherwise the first line that does not is to blame. It is told by its number in the file
exactly if no line before it is blank. -/
theorem read_numbers_iff (file : m.volume.find? path = some (.file (some text))) :
    let answer := (read (m := StateM Machine) path m).1
    ((∃ es, answer = .ok es) ↔ ∀ row ∈ rows text, Good row) ∧
    (∀ es, answer = .ok es ↔ (seen (rows text)).map Event.ofChars? = es.map some) ∧
    ((∀ es, answer ≠ .ok es) → ∃ before bad, FirstBad text before bad) ∧
    ∀ before bad, FirstBad text before bad →
      answer = .error (.badEvent ((seen before).length + 1) path) ∧
      (answer = .error (.badEvent (before.length + 1) path) ↔
        ∀ row ∈ before, ¬row.all isWhite) := by
  intro answer
  have told : answer = ofText path text := read_file file
  rw [told]
  refine ⟨exists_ofText_iff path text, fun es => ?_, fun failed => ?_, fun before bad first => ?_⟩
  · rw [← lines_eq]
    exact readLines_eq_ok_iff
  · refine exists_firstBad (mt (exists_ofText_iff path text).2 ?_)
    rintro ⟨es, read⟩
    exact failed es read
  · refine ⟨first.ofText_eq path, ?_⟩
    rw [first.ofText_eq path]
    simp [seen]

/-- What is no event. -/
def scrap : List Char := "\x7bnot json\x7d".toList

theorem not_good_scrap : ¬Good scrap := by
  have dark : scrap.all isWhite = false := by cbv
  have unread : Event.ofChars? scrap = none := by cbv
  simp [Good, dark, unread]

/-- An event, and behind it a line that holds none. -/
def spoilt : String := record taken ++ .ofList (scrap ++ ['\n'])

theorem firstBad_spoilt : FirstBad spoilt [taken.line.toList] scrap where
  found := by
    have chars : spoilt.toList = taken.line.toList ++ '\n' :: (scrap ++ ['\n']) := by
      simp [spoilt, record]
    have last : (scrap ++ ['\n']).splitOn '\n' = [scrap, []] := by cbv
    refine ⟨[[]], ?_⟩
    rw [rows, chars, List.splitOn_append_cons_self_of_not_mem taken.unbroken_line, last]
    rfl
  bad := not_good_scrap
  good row mem := by
    have survives : taken.Survives := survives_of_plain (by decide) rfl
    rw [List.mem_singleton.1 mem]
    exact .inr (Option.isSome_iff_exists.2 ⟨taken, survives⟩)

theorem spoilt_numbered :
    (shelf spoilt).volume.find? "log" = some (.file (some spoilt)) ∧
      (read (m := StateM Machine) "log" (shelf spoilt)).1 = .error (.badEvent 2 "log") := by
  have file := (shelf_holds spoilt).file
  obtain ⟨_, _, _, number⟩ := read_numbers_iff file
  refine ⟨file, (number _ _ firstBad_spoilt).2.2 ?_⟩
  intro row mem
  obtain ⟨rest, brace⟩ := taken.line_eq_cons
  rw [List.mem_singleton.1 mem, brace, List.all_cons]
  simp [show isWhite '{' = false by decide]

/-- A blank line, and behind it a line that holds no event. -/
def gapped : String := "\n" ++ .ofList scrap ++ "\n"

theorem firstBad_gapped : FirstBad gapped [[]] scrap where
  found := ⟨[[]], by cbv⟩
  bad := not_good_scrap
  good row mem := by
    rw [List.mem_singleton.1 mem]
    exact .inl rfl

/-- The first bad line is the second of the file, and it is told as the first. -/
theorem gapped_misnumbered :
    FirstBad gapped [[]] scrap ∧
      (read (m := StateM Machine) "log" (shelf gapped)).1 = .error (.badEvent 1 "log") ∧
      (read (m := StateM Machine) "log" (shelf gapped)).1 ≠ .error (.badEvent 2 "log") := by
  rw [read_file (shelf_holds gapped).file, firstBad_gapped.ofText_eq]
  exact ⟨firstBad_gapped, rfl, by simp [seen]⟩

end SceneLock.EventLog
