import SceneLock.Hold
import SceneLock.Json.Value
import SceneLock.Timestamp.Text

/-!
Events: what the audit log says about one operation on locks.
-/

namespace SceneLock

namespace Event

inductive Action
  | acquire
  | acquireFailed
  | release
  | assert
  | query
  | releaseOwner
  deriving DecidableEq, Repr

namespace Action

def text : Action → String
  | acquire => "acquire"
  | acquireFailed => "acquire_failed"
  | release => "release"
  | assert => "assert"
  | query => "query"
  | releaseOwner => "release_owner"

def all : List Action := [acquire, acquireFailed, release, assert, query, releaseOwner]

def ofText? (s : String) : Option Action := all.find? (·.text = s)

end Action

end Event

structure Event where
  time : Timestamp
  action : Event.Action
  owner : Owner
  ids : List Id := []
  mode : Option Mode := none
  /-- Whether the objects stand for the subtrees below them. -/
  tree : Bool := false
  /-- More about the operation, in a form of its own. -/
  details : Json := .object []

namespace Event

/-- The fields stand in this order. An event without objects or mode does not mention them. -/
def fields (e : Event) : List (String × Json) :=
  [("ts", .text e.time.text), ("action", .text e.action.text), ("owner", .text e.owner)]
    ++ (if e.ids.isEmpty then [] else [("ids", .list (e.ids.map .text))])
    ++ (match e.mode with
        | some mode => [("mode", .text mode.text)]
        | none => [])
    ++ [("tree", .bool e.tree), ("details", e.details)]

def line (e : Event) : String := (Json.object e.fields).line

end Event

end SceneLock
