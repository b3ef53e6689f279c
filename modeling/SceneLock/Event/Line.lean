import SceneLock.Event
import SceneLock.Json.Node

/-!
Reading an event from its line: an object with the fields of an event in any order, or a list of
their seven values.
-/

namespace SceneLock

/-- The mode with the given name. -/
def Mode.ofText? (s : String) : Option Mode := [Mode.read, Mode.write].find? (·.text = s)

namespace Event

open Json

def textOf : Node → Option String
  | .string raw => text? raw
  | _ => none

def boolOf : Node → Option Bool
  | .bool b => some b
  | _ => none

def textsOf : Node → Option (List String)
  | .list items => items.mapM textOf
  | _ => none

/-- One of several names. It may stand as the name of a single field that holds nothing. -/
def choiceOf {α : Type} (named : String → Option α) : Node → Option α
  | .string raw => do named (← text? raw)
  | .object [(raw, .null)] => do named (← text? raw)
  | _ => none

def modeOf : Node → Option (Option Mode)
  | .null => some none
  | n => (choiceOf Mode.ofText? n).map some

/-- The value of a field that is read if it is there. -/
def orElse {α : Type} (default : α) (read : Node → Option α) : Option Node → Option α
  | some n => read n
  | none => some default

/-- An event lies one level deep in its line, so its details may nest one level less than a line. -/
def ofParts? (time action owner : Node) (ids mode tree : Option Node) (details : Node) :
    Option Event := do
  return {
    time := ← Timestamp.ofText? (← textOf time)
    action := ← choiceOf Action.ofText? action
    owner := ← textOf owner
    ids := ← orElse [] textsOf ids
    mode := ← orElse none modeOf mode
    tree := ← orElse false boolOf tree
    details := ← details.json? (depthLimit - 1) }

/-- The value of a field, which must not occur twice. -/
def field? (name : String) (fields : List (String × Node)) : Option (Option Node) :=
  match fields.filter (·.1 = name) with
  | [] => some none
  | [(_, n)] => some (some n)
  | _ => none

/-- Fields that an event does not have are passed over. -/
def ofNode? : Node → Option Event
  | .object entries => do
    let fields ← entries.mapM fun (raw, n) => return (← text? raw, n)
    ofParts? (← (← field? "ts" fields)) (← (← field? "action" fields)) (← (← field? "owner" fields))
      (← field? "ids" fields) (← field? "mode" fields) (← field? "tree" fields)
      (← (← field? "details" fields))
  | .list [time, action, owner, ids, mode, tree, details] =>
    ofParts? time action owner (some ids) (some mode) (some tree) details
  | _ => none

def ofChars? (cs : List Char) : Option Event := do ofNode? (← Node.ofChars? cs)

end Event

end SceneLock
