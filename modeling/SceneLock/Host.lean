import SceneLock.Timestamp

/-!
What commands ask of the machine they run on: files, the time, and patience.
-/

namespace SceneLock

class Host (m : Type → Type) where
  /-- The text of a file. There is none if the file is missing or holds no text. -/
  readText? (path : String) : m (Option String)
  /-- Whether there is a file or a directory at the path. -/
  isOccupied (path : String) : m Bool
  /-- Makes a directory and those above it, as far as they are missing. -/
  makeDirectory (path : String) : m Bool
  /-- Writes at the end of a file, which is made if it is missing. -/
  append (path text : String) : m Bool
  now : m Timestamp
  wait (milliseconds : Nat) : m Unit

end SceneLock
