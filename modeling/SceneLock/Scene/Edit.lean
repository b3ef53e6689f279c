import SceneLock.Scene.File

/-!
Steps on a scene, one at a time: edits, and questions about its shape. An edit changes one part of
the scene after the other, and may be refused on the way.
-/

namespace SceneLock.Scene

/-- What is done to a scene in place. The scene that is left behind counts, even if it is refused. -/
abbrev Call (α : Type) := EStateM LockError Scene α

namespace Call

/-- Adds an object as the last child of its parent, or as the last root. -/
def add (id : Id) (parent : Option Id) : Call Unit := do
  if let .error e := Name.ensureUnique (← get).contains id then throw e
  match parent with
  | none => modify fun s => { s with roots := s.roots ++ [id] }
  | some parent =>
    match (← get).children[parent]? with
    | none => throw (.notFound parent)
    | some siblings =>
      modify fun s => { s with children := s.children.insert parent (siblings ++ [id]) }
      modify fun s => { s with parents := s.parents.insert id parent }
  modify fun s => { s with children := s.children.insert id [] }

/-- Adds an object under the first free name derived from the given one. -/
def addUnique (name : String) (parent : Option Id) : Call Id := do
  let id := Name.makeUnique (.ofList (← get).ids) name
  add id parent
  return id

/-- Removes an object with everything below it, and lists what was removed. -/
def remove (id : Id) : Call (List Id) := do
  unless (← get).contains id do throw (.notFound id)
  modify (·.detach id)
  modifyGet (·.discard [id] [])

end Call

inductive Step
  | add (id : Id) (parent : Option Id)
  | addUnique (name : String) (parent : Option Id)
  | remove (id : Id)
  | parentOf (id : Id)
  | childrenOf (id : Id)
  | contains (id : Id)
  | subtree (id : Id)
  | toYaml
  | reload

inductive Answer
  | added
  | addedAs (id : Id)
  | removed (ids : List Id)
  | parent (id : Option Id)
  | ids (ids : List Id)
  | flag (b : Bool)
  | yaml (text : String)
  | reloaded

namespace Step

def act : Step → Call Answer
  | add id parent => do
    Call.add id parent
    return .added
  | addUnique name parent => return .addedAs (← Call.addUnique name parent)
  | remove id => return .removed (← Call.remove id)
  | parentOf id => return .parent ((← get).parentOf id)
  | childrenOf id => return .ids ((← get).childrenOf id)
  | contains id => return .flag ((← get).contains id)
  | subtree id => return .ids (ObjectGraph.subtree (← get) id)
  | toYaml => return .yaml (← get).toYaml
  | reload => do
    match ofYaml (← get).toYaml with
    | .ok s => set s
    | .error e => throw e
    return .reloaded

/-- The answer to a step and the scene after it, unless it is refused. -/
def perform (s : Scene) (step : Step) : Except LockError (Answer × Scene) :=
  match step.act s with
  | .ok answer s => .ok (answer, s)
  | .error e _ => .error e

end Step

end SceneLock.Scene
