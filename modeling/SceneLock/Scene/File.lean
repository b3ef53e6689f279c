import SceneLock.Scene
import SceneLock.Yaml.Printer

/-!
Graph files: the list of a scene's objects, each with its parent.
-/

namespace SceneLock.Scene

open Yaml

namespace Entry

def decode (n : Node) : Decode Entry := do
  let fields ← Decode.fields n
  let id ← Decode.required "id" fields Decode.text
  let parent ← Decode.optional "parent" fields none Decode.optionalText
  return ⟨id, parent⟩

/-- The value of each line is indented below the item that it belongs to. -/
def render (e : Entry) : List Char :=
  textField "- " "id" 4 e.id ++
    match e.parent with
    | some parent => textField "  " "parent" 4 parent
    | none => []

end Entry

def decodeEntries (n : Node) : Decode (List Entry) := do
  let fields ← Decode.fields n
  Decode.optional "objects" fields [] fun n => do (← Decode.items n).mapM Entry.decode

def ofYaml (text : String) : Except LockError Scene :=
  match Decode.ofText? decodeEntries text with
  | none => .error (.unparsable .graph)
  | some entries => ofEntries entries

def renderEntries (entries : List Entry) : String :=
  if entries.isEmpty then "objects: []\n"
  else .ofList ("objects:\n".toList ++ entries.flatMap Entry.render)

def toYaml (s : Scene) : String := renderEntries s.entries

end SceneLock.Scene
