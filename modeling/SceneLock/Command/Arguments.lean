import SceneLock.Command

/-!
The arguments of the command line. Options may stand anywhere behind the command that has them; a
value follows its option or is attached to it. Nothing behind `--` is an option.
-/

namespace SceneLock.Arguments

inductive Setting
  | graph
  | script
  | config
  | events
  deriving DecidableEq, Repr

/-- What an option asks for. -/
inductive Meaning
  | verbose
  | failFast
  | help
  | version
  | setting (s : Setting)
  deriving DecidableEq, Repr

/-- The options of a command, and how many other arguments it takes. -/
structure Grammar where
  short : List (Char × Meaning)
  long : List (String × Meaning)
  operands : Nat := 0

/-- The options that all commands have. -/
def Grammar.common : Grammar where
  short := [('v', .verbose), ('h', .help), ('V', .version)]
  long := [("verbose", .verbose), ("help", .help), ("version", .version)]

def Grammar.with (short : List (Char × Meaning)) (long : List (String × Meaning))
    (operands : Nat) : Grammar :=
  ⟨common.short ++ short, common.long ++ long, operands⟩

inductive Name
  | tree
  | replay
  | config
  deriving DecidableEq, Repr

namespace Name

def text : Name → String
  | tree => "tree"
  | replay => "replay"
  | config => "config"

def all : List Name := [tree, replay, config]

def ofText? (s : String) : Option Name := all.find? (·.text = s)

def grammar : Name → Grammar
  | tree => .with [('g', .setting .graph)] [("graph", .setting .graph)] 1
  | replay =>
    .with [('g', .setting .graph), ('s', .setting .script), ('c', .setting .config)]
      [("graph", .setting .graph), ("script", .setting .script), ("config", .setting .config),
        ("events", .setting .events), ("fail-fast", .failFast)] 0
  | config => .with [('c', .setting .config)] [("config", .setting .config)] 0

end Name

/-- What a command line comes to if it does not ask for a command. -/
inductive Detour
  | help
  | version
  | usage
  deriving DecidableEq, Repr

/-- The arguments of one command, as far as they are read. -/
structure Given where
  verbosity : Nat := 0
  failFast : Bool := false
  settings : List (Setting × String) := []
  operands : List String := []

namespace Given

def setting? (g : Given) (s : Setting) : Option String := g.settings.lookup s

/-- A path must not be empty, and is given once. -/
def set (g : Given) (s : Setting) (value : String) : Except Detour Given :=
  if value = "" ∨ (g.setting? s).isSome then .error .usage
  else .ok { g with settings := (s, value) :: g.settings }

def addOperand (g : Given) (limit : Nat) (operand : String) : Except Detour Given :=
  if g.operands.length < limit then .ok { g with operands := g.operands ++ [operand] }
  else .error .usage

/-- More than 255 times counts as 255 times. -/
def raise (g : Given) : Given := { g with verbosity := min 255 (g.verbosity + 1) }

end Given

/-- What comes of one argument. -/
inductive Progress
  | settled (g : Given)
  /-- The option takes the next argument as its value. -/
  | awaits (s : Setting) (g : Given)
  | operand

/-- Follows an option without a value. -/
def heed (g : Given) (meaning : Meaning) : Except Detour Progress :=
  match meaning with
  | .verbose => .ok (.settled g.raise)
  | .failFast => if g.failFast then .error .usage else .ok (.settled { g with failFast := true })
  | .help => .error .help
  | .version => .error .version
  | .setting s => .ok (.awaits s g)

def attach (g : Given) (s : Setting) (value : List Char) : Except Detour Progress :=
  match value with
  | '=' :: value => (g.set s (String.ofList value)).map .settled
  | value => (g.set s (String.ofList value)).map .settled

/-- Single letters behind one dash. The first one that takes a value takes all that follows. -/
def readShort (grammar : Grammar) (g : Given) : List Char → Except Detour Progress
  | [] => .ok (.settled g)
  | c :: rest =>
    match grammar.short.lookup c, rest with
    | none, _ => .error .usage
    | some (.setting s), [] => .ok (.awaits s g)
    | some (.setting s), rest => attach g s rest
    | some meaning, rest =>
      match heed g meaning with
      | .ok (.settled g) => readShort grammar g rest
      | other => other

/-- A word behind two dashes, perhaps with `=` and a value. -/
def readLong (grammar : Grammar) (g : Given) (word : List Char) : Except Detour Progress :=
  let name := word.takeWhile (· ≠ '=')
  match grammar.long.lookup (String.ofList name), word.drop name.length with
  | none, _ => .error .usage
  | some meaning, [] => heed g meaning
  | some (.setting s), value => attach g s value
  | some _, _ => .error .usage

def readArgument (grammar : Grammar) (g : Given) (argument : String) : Except Detour Progress :=
  match argument.toList with
  | '-' :: '-' :: word => readLong grammar g word
  | '-' :: c :: rest => readShort grammar g (c :: rest)
  | _ => .ok .operand

/-- Whether an argument cannot be the value of the option before it. -/
def isOption (argument : String) : Bool :=
  match argument.toList with
  | '-' :: _ :: _ => true
  | _ => false

def addOperands (grammar : Grammar) (g : Given) (operands : List String) : Except Detour Given :=
  operands.foldlM (fun g operand => g.addOperand grammar.operands operand) g

/-- The arguments behind the name of a command, from left to right. -/
def readAll (grammar : Grammar) (g : Given) : List String → Except Detour Given
  | [] => .ok g
  | argument :: rest =>
    if argument = "--" then addOperands grammar g rest
    else
      match readArgument grammar g argument, rest with
      | .error d, _ => .error d
      | .ok .operand, rest => do readAll grammar (← g.addOperand grammar.operands argument) rest
      | .ok (.settled g), rest => readAll grammar g rest
      | .ok (.awaits _ _), [] => .error .usage
      | .ok (.awaits s g), value :: rest =>
        if isOption value then .error .usage else do readAll grammar (← g.set s value) rest

/-- The command that the arguments describe, if they are complete. -/
def Given.command? (g : Given) : Name → Option Command
  | .tree => do
    match g.operands with
    | [root] => return .showTree (← g.setting? .graph) root
    | _ => none
  | .replay => do
    return .replay (← g.setting? .graph) (← g.setting? .script) (g.setting? .config)
      (g.setting? .events) g.failFast
  | .config => some (.showConfig (g.setting? .config))

/-- A command, and how much it is to tell about what it does. -/
structure Invocation where
  verbosity : Nat
  command : Command
  deriving DecidableEq, Repr

/-- Verbosity asked for behind the command replaces what was asked for before it. -/
def readCommand (verbosity : Nat) (name : Name) (arguments : List String) :
    Except Detour Invocation := do
  let g ← readAll name.grammar {} arguments
  match g.command? name with
  | some command => return ⟨if g.verbosity = 0 then verbosity else g.verbosity, command⟩
  | none => throw .usage

/-- What the word `help` is about: everything, or one command. -/
def readHelp : List String → Detour
  | [] => .help
  | [topic] => if topic = "help" ∨ (Name.ofText? topic).isSome then .help else .usage
  | _ => .usage

/-- The options before a command, and the command. -/
def readLine (g : Given) : List String → Except Detour Invocation
  | [] => .error .usage
  | argument :: rest =>
    if argument = "help" then .error (readHelp rest)
    else
      match Name.ofText? argument with
      | some name => readCommand g.verbosity name rest
      | none =>
        match readArgument .common g argument with
        | .ok (.settled g) => readLine g rest
        | .ok _ => .error .usage
        | .error d => .error d

/-- The meaning of a whole command line, without the name of the program. -/
def read (arguments : List String) : Except Detour Invocation := readLine {} arguments

end SceneLock.Arguments
