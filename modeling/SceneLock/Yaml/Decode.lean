import SceneLock.Yaml.Document

/-!
Reading typed values out of a document. An alias is read as the node it stands for; how often that
may happen is limited, so that a short text cannot stand for a very long one.
-/

namespace SceneLock.Yaml

/-- Counts how many aliases have been followed. -/
abbrev Decode := ReaderT Document (StateT Nat Option)

namespace Decode

def refuse {α : Type} : Decode α := fun _ _ => none

def ofOption {α : Type} (a : Option α) : Decode α := fun _ n => a.map (·, n)

/-- The node itself, or the one that it is an alias for, which cannot be an alias again. -/
def follow (n : Node) : Decode Node := fun d jumps =>
  match n with
  | .alias number =>
    if jumps + 1 > d.size * 100 then none else (d.target? number).map (·, jumps + 1)
  | n => some (n, jumps)

/-- The text of any scalar. -/
def text (n : Node) : Decode String := do
  match ← follow n with
  | .scalar _ _ text => return text
  | _ => refuse

def isNull (text : String) : Bool := text = "null" || text = "Null" || text = "NULL" || text = "~"

/-- Whether a scalar is nothing rather than a text; only a plain one can be. -/
def isNothing (props : Props) (style : Style) (text : String) : Option Bool :=
  if style ≠ .plain then some false
  else
    match props.tag with
    | some tag =>
      if tag = "tag:yaml.org,2002:null" then if isNull text then some true else none else some false
    | none => some (text = "" || isNull text)

def optionalText (n : Node) : Decode (Option String) := do
  match ← follow n with
  | .scalar props style text =>
    if ← ofOption (isNothing props style text) then return none else return some text
  | _ => refuse

/-- Whether a scalar can be read as other than a text: if it is plain, or tagged as such. -/
def isOpen (props : Props) (style : Style) (tag : String) : Bool :=
  style = .plain || (style = .literal && props.tag = some tag)

def digitValue? (base : Nat) (c : Char) : Option Nat :=
  let n := c.toNat
  let v :=
    if c.isDigit then n - 48
    else if 97 ≤ n && n ≤ 122 then n - 87
    else if 65 ≤ n && n ≤ 90 then n - 55
    else base
  if v < base then some v else none

/-- The number that the digits spell. There must be one at least. -/
def digits? (base : Nat) (cs : List Char) : Option Nat :=
  if cs.isEmpty then none
  else cs.foldlM (fun n c => (digitValue? base c).map (n * base + ·)) 0

/-- More than one digit, the first of them zero: that is a text. -/
def isZeroPadded (cs : List Char) : Bool :=
  match cs with
  | '0' :: c :: rest => (c :: rest).all (·.isDigit)
  | _ => false

def unsigned? (text : String) : Option Nat :=
  let cs := match text.toList with
    | '+' :: cs => cs
    | cs => cs
  match cs with
  | '0' :: 'x' :: rest => digits? 16 rest
  | '0' :: 'o' :: rest => digits? 8 rest
  | '0' :: 'b' :: rest => digits? 2 rest
  | cs => if isZeroPadded cs then none else digits? 10 cs

/-- A whole number below `limit`. -/
def natBelow (limit : Nat) (n : Node) : Decode Nat := do
  match ← follow n with
  | .scalar props style text =>
    if isOpen props style "tag:yaml.org,2002:int" then
      match unsigned? text with
      | some n => if n < limit then return n else refuse
      | none => refuse
    else refuse
  | _ => refuse

def bool? (text : String) : Option Bool :=
  if text = "true" || text = "True" || text = "TRUE" then some true
  else if text = "false" || text = "False" || text = "FALSE" then some false
  else none

def bool (n : Node) : Decode Bool := do
  match ← follow n with
  | .scalar props style text =>
    if isOpen props style "tag:yaml.org,2002:bool" then ofOption (bool? text) else refuse
  | _ => refuse

/-- One of several names. A tag of the document's own is the name, and leaves the scalar empty. -/
def choice {α : Type} (named : String → Option α) (n : Node) : Decode α := do
  match ← follow n with
  | .scalar props style text =>
    match props.tag.map String.toList with
    | some ('!' :: name) =>
      if style = .plain && (text = "" || isNull text) then ofOption (named (String.ofList name))
      else refuse
    | _ => ofOption (named text)
  | _ => refuse

/-- The items of a list. What is not written is an empty list. -/
def items (n : Node) : Decode (List Node) := do
  match ← follow n with
  | .list _ items => return items
  | .scalar _ _ "" => return []
  | _ => refuse

/-- The entries of a map with their names. What is not written is an empty map. -/
def fields (n : Node) : Decode (List (String × Node)) := do
  match ← follow n with
  | .map _ entries => entries.mapM fun (key, value) => return (← text key, value)
  | .scalar _ _ "" => return []
  | _ => refuse

/-- The value of a field that occurs at most once. -/
def field? (name : String) (fields : List (String × Node)) : Decode (Option Node) :=
  match fields.filter (·.1 = name) with
  | [] => return none
  | [(_, value)] => return some value
  | _ => refuse

/-- A field that may be missing, read in its own way. -/
def optional {α : Type} (name : String) (fields : List (String × Node)) (default : α)
    (read : Node → Decode α) : Decode α := do
  match ← field? name fields with
  | some value => read value
  | none => return default

def required {α : Type} (name : String) (fields : List (String × Node)) (read : Node → Decode α) :
    Decode α := do
  match ← field? name fields with
  | some value => read value
  | none => refuse

/-- Reads a whole text. One without a document reads like an empty map. -/
def ofText? {α : Type} (read : Node → Decode α) (text : String) : Option α := do
  let d ← Document.ofText? text
  let (a, _) ← (read (d.root.getD .absent)).run d |>.run 0
  return a

end Decode

end SceneLock.Yaml
