import SceneLock.Host
import SceneLock.Host.Path
import Std.Data.ExtTreeMap

/-!
A machine in memory: a volume of files and directories, and a clock that stands still unless
somebody waits.
-/

namespace SceneLock

open Std

namespace Volume

inductive Entry
  | directory
  /-- A file, with its text if it holds one. -/
  | file (text : Option String)
  deriving DecidableEq, Repr

/-- The names that lead to a file or directory, the last one first. -/
abbrev Place := List String

/-- The working directory. It lies below directories whose names no path can spell. -/
def home : Place := ["", ""]

end Volume

structure Volume where
  entries : ExtTreeMap Volume.Place Volume.Entry := ∅

namespace Volume

def entry? (v : Volume) (place : Place) : Option Entry :=
  if place.all (·.isEmpty) then some .directory else v.entries[place]?

def put (v : Volume) (place : Place) (e : Entry) : Volume :=
  { v with entries := v.entries.insert place e }

/-- What can be a path at all. -/
def isPath (path : String) : Bool :=
  path ≠ "" && path.utf8ByteSize < 4096 && path.toList.all fun c => c.toNat ≠ 0

/-- What can be the name of a new file or directory. -/
def isName (name : String) : Bool := name.utf8ByteSize < 256

/-- Where a path begins, and the parts that lead on from there. -/
def start (path : String) : Place × List String :=
  match Path.parts path with
  | "" :: rest => ([], rest)
  | parts => (home, parts)

/-- Goes from directory to directory. What the last part names need not be there. -/
def walk (v : Volume) : Place → List String → Option Place
  | place, [] => some place
  | place, part :: parts =>
    if v.entry? place ≠ some .directory then none
    else if part = "" ∨ part = "." then v.walk place parts
    else if part = ".." then v.walk place.tail parts
    else v.walk (part :: place) parts

def place? (v : Volume) (path : String) : Option Place :=
  if isPath path then v.walk (start path).1 (start path).2 else none

def find? (v : Volume) (path : String) : Option Entry := (v.place? path).bind v.entry?

/-- Goes from directory to directory and makes those that are missing, until that fails. -/
def makeAlong (v : Volume) : Place → List String → Bool × Volume
  | _, [] => (true, v)
  | place, part :: parts =>
    if part = "" ∨ part = "." then v.makeAlong place parts
    else if part = ".." then v.makeAlong place.tail parts
    else
      match v.entry? (part :: place) with
      | some .directory => v.makeAlong (part :: place) parts
      | some (.file _) => (false, v)
      | none =>
        if isName part then (v.put (part :: place) .directory).makeAlong (part :: place) parts
        else (false, v)

def makeDirectory (v : Volume) (path : String) : Bool × Volume :=
  if isPath path then v.makeAlong (start path).1 (start path).2 else (false, v)

def append (v : Volume) (path text : String) : Bool × Volume :=
  match v.place? path with
  | none => (false, v)
  | some place =>
    match v.entry? place with
    | some .directory => (false, v)
    | some (.file before) => (true, v.put place (.file (before.map (· ++ text))))
    | none =>
      if isName (place.headD "") then (true, v.put place (.file (some text))) else (false, v)

/-- Writes a file with the directories above it. -/
def write (v : Volume) (path : String) (text : Option String) : Volume :=
  let (_, v) := v.makeDirectory ((Path.parent? path).getD "")
  match v.place? path with
  | some place => v.put place (.file text)
  | none => v

end Volume

structure Machine where
  volume : Volume := {}
  clock : Timestamp := .epoch

namespace Machine

def update {α : Type} (f : Volume → α × Volume) : StateM Machine α :=
  modifyGet fun s =>
    let (a, volume) := f s.volume
    (a, { s with volume })

instance : Host (StateM Machine) where
  readText? path := do
    match (← get).volume.find? path with
    | some (.file text) => return text
    | _ => return none
  isOccupied path := return ((← get).volume.find? path).isSome
  makeDirectory path := update (·.makeDirectory path)
  append path text := update (·.append path text)
  now := return (← get).clock
  wait milliseconds := modify fun s => { s with clock := s.clock.later milliseconds }

end Machine

end SceneLock
