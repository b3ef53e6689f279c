/-!
The tokens of a YAML text: scalars with their style, and the marks of its structure.
-/

namespace SceneLock.Yaml

inductive Style
  | plain
  | single
  | double
  | literal
  | folded
  deriving DecidableEq, Repr

inductive Token
  | version (major minor : Nat)
  | tagDirective (handle expansion : String)
  | documentStart
  | documentEnd
  | blockListStart
  | blockMapStart
  | blockEnd
  | flowListStart
  | flowListEnd
  | flowMapStart
  | flowMapEnd
  | blockEntry
  | flowEntry
  | key
  | value
  | alias (name : String)
  | anchor (name : String)
  | tag (handle suffix : String)
  | scalar (style : Style) (text : String)
  | textEnd
  deriving DecidableEq, Repr

end SceneLock.Yaml
