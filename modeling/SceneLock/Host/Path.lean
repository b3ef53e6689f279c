/-!
Paths of files: names with slashes between them.
-/

namespace SceneLock.Path

def parts (path : String) : List String := path.splitOn "/"

/-- Takes off the parts at the end that do not lead anywhere. -/
def settle (parts : List String) : List String :=
  (parts.reverse.dropWhile fun part => part = "" || part = ".").reverse

/-- Splits off the part at the front that stands for a place: the root, or the working directory if
it is mentioned. -/
def anchored (path : String) : Option String × List String :=
  match parts path with
  | "" :: second :: rest => (some "/", second :: rest)
  | "." :: rest => (some ".", if rest.isEmpty then [] else "" :: rest)
  | parts => (none, parts)

/-- The path without its last part. The root has no parent, nor has the empty path. -/
def parent? (path : String) : Option String :=
  let (anchor, parts) := anchored path
  match settle parts, anchor with
  | [], none | [], some "/" => none
  | [], some _ => some ""
  | parts, anchor => some (anchor.getD "" ++ "/".intercalate (settle parts.dropLast))

end SceneLock.Path
