import SceneLock.Hold

/-!
The causes for which an operation is refused, with their texts and exit codes.
-/

namespace SceneLock

/-- What can be wrong with the record of a locked object. -/
inductive RecordFault
  | noHolders
  | noClaims (owner : Owner)
  | zeroCount (owner : Owner)
  | sharedWrite (owners : List Owner)
  deriving DecidableEq, Repr

def RecordFault.text : RecordFault → String
  | noHolders => "record has no holders"
  | noClaims owner => s!"holder '{owner}' has no claims"
  | zeroCount owner => s!"holder '{owner}' has a zero hold count"
  | sharedWrite owners =>
      let names := ", ".intercalate owners
      s!"write lock has {owners.length} holders: {names}"

/-- The files a command reads, by what they hold. -/
inductive FileRole
  | config
  | graph
  | script
  | events
  deriving DecidableEq, Repr

def FileRole.text : FileRole → String
  | config => "config"
  | graph => "graph"
  | script => "script"
  | events => "events"

namespace LockError

/-- The six ways to be refused that a caller can tell apart. -/
inductive Kind
  | userError
  | notFound
  | emptyRequest
  | notLocked
  | lockingFailed
  | invariantViolation
  deriving DecidableEq, Repr

end LockError

inductive LockError
  | nameMissing
  | nameTaken (name : String)
  | settingZero (setting : String)
  | unparsable (role : FileRole)
  | unreadable (role : FileRole) (path : String)
  | directoryRefused (path : String)
  | fileRefused (path : String)
  | badEvent (line : Nat) (path : String)
  | notFound (id : Id)
  | emptyRequest
  | notLocked (mode : Mode) (id : Id) (owner : Owner)
  | gaveUp (what : String) (attempts : Nat)
  | brokenRecord (id : Id) (fault : RecordFault)
  /-- An error that a caller brings along, in its own words. -/
  | stated (kind : LockError.Kind) (text : String)
  deriving DecidableEq, Repr

namespace LockError

def kind : LockError → Kind
  | nameMissing | nameTaken _ | settingZero _ | unparsable _ | unreadable _ _
  | directoryRefused _ | fileRefused _ | badEvent _ _ => .userError
  | notFound _ => .notFound
  | emptyRequest => .emptyRequest
  | notLocked _ _ _ => .notLocked
  | gaveUp _ _ => .lockingFailed
  | brokenRecord _ _ => .invariantViolation
  | stated kind _ => kind

/-- What the error says beyond its kind. -/
def text : LockError → String
  | nameMissing => "Name has to be set."
  | nameTaken name => s!"Name already exists: '{name}'."
  | settingZero setting => s!"config validation failed: {setting} must be greater than 0"
  | unparsable role => s!"failed to parse {role.text} YAML"
  | unreadable role path => s!"failed to read {role.text} file '{path}'"
  | directoryRefused path => s!"failed to create events directory '{path}'"
  | fileRefused path => s!"failed to open events file '{path}'"
  | badEvent line path => s!"invalid event on line {line} of '{path}'"
  | notFound id => id
  | emptyRequest => ""
  | notLocked mode id owner => s!"Object is not {mode.text} locked: '{id}' (owner '{owner}')."
  | gaveUp what attempts => s!"{what} (gave up after {attempts} attempts)"
  | brokenRecord id fault => s!"{id}: {fault.text}"
  | stated _ text => text

def Kind.message (text : String) : Kind → String
  | userError | notLocked => text
  | notFound => "Object not found: " ++ text
  | emptyRequest => "Lock request does not name any object"
  | lockingFailed => "Locking failed: " ++ text
  | invariantViolation => "Lock table invariant violated: " ++ text

def message (e : LockError) : String := e.kind.message e.text

/-- A command that ends with an error leaves this code; without one it leaves 0. -/
def Kind.exitCode : Kind → Nat
  | userError | emptyRequest => 1
  | notFound => 2
  | notLocked => 3
  | lockingFailed => 4
  | invariantViolation => 70

def exitCode (e : LockError) : Nat := e.kind.exitCode

/-- Whether the object was merely busy, so that trying again can help. -/
def isContention (e : LockError) : Bool := e.kind = .lockingFailed

end LockError

end SceneLock
