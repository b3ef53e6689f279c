import SceneLock.Event.Log
import SceneLock.Host.Volume

/-!
Adding to a log file that is there already. No path leads elsewhere for it, so one event can be
added after the other.
-/

namespace SceneLock

open Std

namespace Volume

variable {v : Volume} {place : Place} {before : Option String}

/-- What is put where no directory stands is found there, and nothing else changes. -/
theorem entry?_put (solid : v.entry? place ≠ some .directory) (e : Entry) (q : Place) :
    Volume.entry? (v.put place e) q = if q = place then some e else v.entry? q := by
  have below : place.all (·.isEmpty) = false := by
    refine Bool.eq_false_iff.2 fun root => ?_
    simp [ entry?, root] at solid
  simp only [ entry?, put, ExtTreeMap.getElem?_insert, Std.compare_eq_iff_eq,
    eq_comm (a := place)]
  by_cases here : q = place
  · simp [here, below]
  · simp [here]

theorem find_put (file : v.entry? place = some (.file before)) (e : Entry) (q : Place) :
    Volume.entry? (v.put place e) q = if q = place then some e else v.entry? q :=
  entry?_put (by simp [file]) e q

theorem directory_put_iff (file : v.entry? place = some (.file before))
    (after : Option String) (q : Place) :
    Volume.entry? (v.put place (.file after)) q = some .directory ↔
      v.entry? q = some .directory := by
  rw [find_put file]
  split
  · next here => simp [here, file]
  · rfl

/-- Writing a file does not change where paths lead. -/
theorem place?_put (file : v.entry? place = some (.file before)) (after : Option String)
    (path : String) : (v.put place (.file after)).place? path = v.place? path := by
  have walks (parts : List String) (p : Place) :
      (v.put place (.file after)).walk p parts = v.walk p parts := by
    induction parts generalizing p with
    | nil => rfl
    | cons part rest ih => simp only [walk, ih, directory_put_iff file, ne_eq]
  simp only [place?, walks]

theorem isSome_find?_put (file : v.entry? place = some (.file before)) (after : Option String)
    (path : String) : ((v.put place (.file after)).find? path).isSome = (v.find? path).isSome := by
  simp only [find?, place?_put file]
  cases v.place? path with
  | none => rfl
  | some q =>
    simp only [Option.bind_some, find_put file]
    split
    · next here => simp [here, file]
    · rfl

end Volume

theorem Machine.update_eq {α : Type} {f : Volume → α × Volume} {m : Machine} {a : α} {v : Volume}
    (done : f m.volume = (a, v)) : update f m = (a, { m with volume := v }) := by
  show ((f m.volume).1, { m with volume := (f m.volume).2 }) = _
  rw [done]

/-- Writing at the end of a file adds to its text, and what there is elsewhere stays there. -/
theorem Machine.append_file {path before : String} {m : Machine}
    (file : m.volume.find? path = some (.file (some before))) (text : String) :
    ∃ after, Host.append (m := StateM Machine) path text m = (true, after) ∧
      after.volume.find? path = some (.file (some (before ++ text))) ∧
      ∀ q, (after.volume.find? q).isSome = (m.volume.find? q).isSome := by
  obtain ⟨place, leads, file⟩ := Option.bind_eq_some_iff.1 file
  have written : m.volume.append path text =
      (true, m.volume.put place (.file (some (before ++ text)))) := by
    simp only [Volume.append, leads, file, Option.map_some]
  refine ⟨_, Machine.update_eq written, ?_, Volume.isSome_find?_put file _⟩
  simp only [Volume.find?, Volume.place?_put file, leads, Option.bind_some,
    Volume.find_put file, if_true]

namespace EventLog

/-- There is a log file with this text, in a directory that is there. -/
structure Holds (path text : String) (m : Machine) : Prop where
  file : m.volume.find? path = some (.file (some text))
  housed : ∀ directory, Path.parent? path = some directory →
    directory = "" ∨ (m.volume.find? directory).isSome

theorem Holds.prepareDirectory_eq {path text : String} {m : Machine} (holds : Holds path text m) :
    prepareDirectory (m := StateM Machine) path m = (.ok (), m) := by
  unfold prepareDirectory
  cases above : Path.parent? path with
  | none => rfl
  | some directory =>
    by_cases named : directory = ""
    · subst named
      rfl
    · have found := (holds.housed directory above).resolve_left named
      have occupied : Host.isOccupied (m := StateM Machine) directory m = (true, m) :=
        congrArg (·, m) found
      simp only [bind, StateT.bind, occupied]
      rfl

/-- An event is added at the end of the text. -/
theorem Holds.append {path text : String} {m : Machine} (holds : Holds path text m) (e : Event) :
    ∃ after, EventLog.append (m := StateM Machine) path e m = (.ok (), after) ∧
      Holds path (text ++ record e) after := by
  obtain ⟨after, appended, file, same⟩ := Machine.append_file holds.file (record e)
  refine ⟨after, ?_, file, ?_⟩
  · unfold EventLog.append
    simp only [bind, StateT.bind, holds.prepareDirectory_eq, appended]
    rfl
  · intro directory above
    rw [same]
    exact holds.housed directory above

/-- The log file holds these events behind the text that it held at the start. -/
def Written (path start : String) (m : Machine) (events : List Event) : Prop :=
  Holds path (events.foldl (fun text e => text ++ record e) start) m

theorem Written.append {path start : String} {m : Machine} {events : List Event}
    (written : Written path start m events) (e : Event) :
    ∃ after, EventLog.append (m := StateM Machine) path e m = (.ok (), after) ∧
      Written path start after (events ++ [e]) := by
  obtain ⟨after, appended, holds⟩ := Holds.append written e
  refine ⟨after, appended, ?_⟩
  rw [Written, List.foldl_append]
  exact holds

end EventLog

end SceneLock
