import SceneLock.Error
import SceneLock.Event.Line
import SceneLock.Host
import SceneLock.Host.Path

/-!
Event logs: files with one event on each line, the oldest first. Lines that are blank count for
nothing.
-/

namespace SceneLock.EventLog

/-- The lines of a text that are not blank. A carriage return before the end of a line is white
space like any other. -/
def lines (text : String) : List (List Char) :=
  (text.toList.splitOn '\n').filter fun line => !line.all isWhite

/-- The events on numbered lines. The first line that holds none is reported. -/
def readLines (path : String) : Nat → List (List Char) → Except LockError (List Event)
  | _, [] => .ok []
  | n, line :: rest =>
    match Event.ofChars? line with
    | none => .error (.badEvent n path)
    | some e => (readLines path (n + 1) rest).map (e :: ·)

/-- The events in a text. Lines are numbered from one, and blank lines have no number. -/
def ofText (path text : String) : Except LockError (List Event) := readLines path 1 (lines text)

/-- What is written behind the text of a log to add an event. -/
def record (e : Event) : String := e.line ++ "\n"

variable {m : Type → Type} [Monad m] [Host m]

def read (path : String) : m (Except LockError (List Event)) := do
  match ← Host.readText? path with
  | some text => return ofText path text
  | none => return .error (.unreadable .events path)

/-- Makes the directory that a file is to stand in, if it is missing. -/
def prepareDirectory (path : String) : m (Except LockError Unit) := do
  match Path.parent? path with
  | none | some "" => return .ok ()
  | some directory =>
    if ← Host.isOccupied directory then return .ok ()
    else if ← Host.makeDirectory directory then return .ok ()
    else return .error (.directoryRefused directory)

def append (path : String) (e : Event) : m (Except LockError Unit) := do
  match ← prepareDirectory path with
  | .error e => return .error e
  | .ok () =>
    if ← Host.append path (record e) then return .ok () else return .error (.fileRefused path)

end SceneLock.EventLog
