import SceneLock.Coordinator
import SceneLock.Yaml.Decode

/-!
Scripts: sessions of several owners, written down step by step, and their files.
-/

namespace SceneLock

namespace Script

inductive Action
  | lock (mode : Mode)
  | unlock (mode : Mode)
  /-- Claims that the owner holds the objects in the mode. -/
  | check (mode : Mode)
  /-- Asks which of the objects nobody else is writing. -/
  | unlocked
  | releaseOwner
  deriving DecidableEq, Repr

namespace Action

def text : Action → String
  | lock mode => mode.text ++ "_lock"
  | unlock mode => mode.text ++ "_unlock"
  | check mode => "assert_" ++ mode.text
  | unlocked => "unlocked"
  | releaseOwner => "release_owner"

def mode? : Action → Option Mode
  | lock mode | unlock mode | check mode => some mode
  | unlocked | releaseOwner => none

def all : List Action :=
  [lock .write, lock .read, unlock .write, unlock .read, check .write, check .read, unlocked,
    releaseOwner]

def ofText? (s : String) : Option Action := all.find? (·.text = s)

end Action

structure Step where
  action : Action
  /-- A step that names no owner is done by whoever replays the script. -/
  owner : Option Owner := none
  ids : List Id := []
  tree : Bool := false
  deriving DecidableEq, Repr

open Yaml

def Step.decode (n : Node) : Decode Step := do
  let fields ← Decode.fields n
  let action ← Decode.required "action" fields (Decode.choice Action.ofText?)
  let owner ← Decode.optional "owner" fields none Decode.optionalText
  let ids ← Decode.optional "ids" fields [] fun n => do (← Decode.items n).mapM Decode.text
  let tree ← Decode.optional "tree" fields false Decode.bool
  return ⟨action, owner, ids, tree⟩

def decode (n : Node) : Decode (List Step) := do
  let fields ← Decode.fields n
  Decode.optional "steps" fields [] fun n => do (← Decode.items n).mapM Step.decode

def ofYaml (text : String) : Except LockError (List Step) :=
  match Decode.ofText? decode text with
  | none => .error (.unparsable .script)
  | some steps => .ok steps

end Script

end SceneLock
