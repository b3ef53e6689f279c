import SceneLock.Yaml.Lexer

/-!
YAML documents as trees. A node may carry an anchor; an alias stands for the node that carries the
anchor's number. Only a text with a single document is read.
-/

namespace SceneLock.Yaml

structure Props where
  /-- The number of the anchor. -/
  anchor : Option Nat := none
  /-- The tag, with its handle expanded. -/
  tag : Option String := none
  deriving DecidableEq, Repr

inductive Node
  | alias (number : Nat)
  | scalar (props : Props) (style : Style) (text : String)
  | list (props : Props) (items : List Node)
  | map (props : Props) (entries : List (Node × Node))
  deriving Inhabited

/-- A value that is not written at all. -/
def Node.absent : Node := .scalar {} .plain ""

structure Parser where
  tokens : List Token
  /-- The anchors so far, each name with its number. -/
  anchors : List (String × Nat) := []
  /-- The tag handles of the document. -/
  handles : List (String × String) := []

abbrev Parse := StateT Parser Option

namespace Parse

def peek : Parse Token := do
  match (← get).tokens with
  | t :: _ => return t
  | [] => failure

def next : Parse Token := do
  match (← get).tokens with
  | t :: tokens => modify ({ · with tokens }); return t
  | [] => failure

/-- An anchor gets the number of names known before it. A name that is used again does not add to
them, so its new number may be given out twice; of two nodes with one number, the later counts. -/
def defineAnchor (name : String) : Parse Nat := do
  let p ← get
  let number := p.anchors.length
  set { p with anchors := (name, number) :: p.anchors.filter (·.1 ≠ name) }
  return number

def useAnchor (name : String) : Parse Nat := do
  match (← get).anchors.find? (·.1 = name) with
  | some (_, number) => return number
  | none => failure

/-- A tag without a handle stands for itself. -/
def expandTag (handle suffix : String) : Parse String := do
  if handle = "" then return suffix
  match (← get).handles.find? (·.1 = handle) with
  | some (_, expansion) => return expansion ++ suffix
  | none => failure

def anchor? : Parse (Option Nat) := do
  match ← peek with
  | .anchor name => let _ ← next; return some (← defineAnchor name)
  | _ => return none

def tag? : Parse (Option String) := do
  match ← peek with
  | .tag handle suffix => let _ ← next; return some (← expandTag handle suffix)
  | _ => return none

/-- An anchor and a tag, in either order. The tag is looked at first where it stands first. -/
def props : Parse Props := do
  match ← anchor? with
  | some anchor => return { anchor := some anchor, tag := ← tag? }
  | none =>
    match ← tag? with
    | some tag => return { anchor := ← anchor?, tag := some tag }
    | none => return {}

end Parse

open Parse in
mutual

/-- A node. A list without indentation can only be the key or the value of a map. -/
def node (blocks flushList : Bool) : (bound : Nat) → Parse Node
  | 0 => failure
  | bound + 1 => do
    match ← peek with
    | .alias name => let _ ← next; return .alias (← useAnchor name)
    | _ =>
      let props ← Parse.props
      match ← peek with
      | .scalar style text => let _ ← next; return .scalar props style text
      | .flowListStart => let _ ← next; return .list props (← flowItems true [] bound)
      | .flowMapStart => let _ ← next; return .map props (← flowEntries true [] bound)
      | .blockListStart =>
        if blocks then let _ ← next; return .list props (← blockItems [] bound)
        else bare props
      | .blockMapStart =>
        if blocks then let _ ← next; return .map props (← blockEntries [] bound)
        else bare props
      | .blockEntry =>
        if flushList then return .list props (← flushItems [] bound)
        else bare props
      | _ => bare props
where
  /-- Nothing is written but an anchor or a tag. -/
  bare (props : Props) : Parse Node := do
    if props.anchor.isNone && props.tag.isNone then failure
    return .scalar props .plain ""

def blockItems (items : List Node) : (bound : Nat) → Parse (List Node)
  | 0 => failure
  | bound + 1 => do
    match ← next with
    | .blockEnd => return items.reverse
    | .blockEntry =>
      match ← peek with
      | .blockEntry | .blockEnd => blockItems (.absent :: items) bound
      | _ => blockItems ((← node true false bound) :: items) bound
    | _ => failure

/-- The items of a list that is not indented. It ends with whatever is not an item. -/
def flushItems (items : List Node) : (bound : Nat) → Parse (List Node)
  | 0 => failure
  | bound + 1 => do
    match ← peek with
    | .blockEntry =>
      let _ ← next
      match ← peek with
      | .blockEntry | .key | .value | .blockEnd => flushItems (.absent :: items) bound
      | _ => flushItems ((← node true false bound) :: items) bound
    | _ => return items.reverse

def blockEntries (entries : List (Node × Node)) : (bound : Nat) → Parse (List (Node × Node))
  | 0 => failure
  | bound + 1 => do
    match ← next with
    | .blockEnd => return entries.reverse
    | .key =>
      let key ← blockPart bound
      match ← peek with
      | .value =>
        let _ ← next
        let value ← blockPart bound
        blockEntries ((key, value) :: entries) bound
      | _ => blockEntries ((key, .absent) :: entries) bound
    | _ => failure

/-- The key or the value of an entry, which may be absent. -/
def blockPart : (bound : Nat) → Parse Node
  | 0 => failure
  | bound + 1 => do
    match ← peek with
    | .key | .value | .blockEnd => return .absent
    | _ => node true true bound

def flowItems (first : Bool) (items : List Node) : (bound : Nat) → Parse (List Node)
  | 0 => failure
  | bound + 1 => do
    match ← peek with
    | .flowListEnd => let _ ← next; return items.reverse
    | _ =>
      if !first then
        match ← next with
        | .flowEntry => pure ()
        | _ => failure
      match ← peek with
      | .flowListEnd => let _ ← next; return items.reverse
      | .key =>
        let _ ← next
        flowItems false ((← flowPair bound) :: items) bound
      | _ => flowItems false ((← node false false bound) :: items) bound

/-- An entry that stands in a list is a map of its own. After an absent key one token is lost. -/
def flowPair : (bound : Nat) → Parse Node
  | 0 => failure
  | bound + 1 => do
    let key ← match ← peek with
      | .value | .flowEntry | .flowListEnd => let _ ← next; pure Node.absent
      | _ => node false false bound
    let value ← match ← peek with
      | .value =>
        let _ ← next
        match ← peek with
        | .flowEntry | .flowListEnd => pure Node.absent
        | _ => node false false bound
      | _ => pure Node.absent
    return .map {} [(key, value)]

def flowEntries (first : Bool) (entries : List (Node × Node)) :
    (bound : Nat) → Parse (List (Node × Node))
  | 0 => failure
  | bound + 1 => do
    match ← peek with
    | .flowMapEnd => let _ ← next; return entries.reverse
    | _ =>
      if !first then
        match ← next with
        | .flowEntry => pure ()
        | _ => failure
      match ← peek with
      | .flowMapEnd => let _ ← next; return entries.reverse
      | .key =>
        let _ ← next
        let key ← match ← peek with
          | .value | .flowEntry | .flowMapEnd => pure Node.absent
          | _ => node false false bound
        let value ← flowValue bound
        flowEntries false ((key, value) :: entries) bound
      | _ =>
        let key ← node false false bound
        flowEntries false ((key, .absent) :: entries) bound

/-- The value behind a key between braces, which may be absent. -/
def flowValue : (bound : Nat) → Parse Node
  | 0 => failure
  | bound + 1 => do
    match ← peek with
    | .value =>
      let _ ← next
      match ← peek with
      | .flowEntry | .flowMapEnd => return .absent
      | _ => node false false bound
    | _ => return .absent

end

structure Document where
  /-- Nothing if the text holds no document. -/
  root : Option Node
  /-- The nodes with an anchor, in order of the text. -/
  anchored : List (Nat × Node)
  /-- How many nodes there are, the end of a list or map counting again. -/
  size : Nat

mutual

def Node.anchored : Node → List (Nat × Node)
  | .alias _ => []
  | .scalar props style text => own props (.scalar props style text)
  | .list props items => own props (.list props items) ++ itemsAnchored items
  | .map props entries => own props (.map props entries) ++ entriesAnchored entries
where
  own (props : Props) (n : Node) : List (Nat × Node) :=
    match props.anchor with
    | some number => [(number, n)]
    | none => []

def itemsAnchored : List Node → List (Nat × Node)
  | [] => []
  | n :: ns => n.anchored ++ itemsAnchored ns

def entriesAnchored : List (Node × Node) → List (Nat × Node)
  | [] => []
  | (k, v) :: rest => k.anchored ++ v.anchored ++ entriesAnchored rest

end

mutual

def Node.size : Node → Nat
  | .alias _ | .scalar _ _ _ => 1
  | .list _ items => itemsSize items + 2
  | .map _ entries => entriesSize entries + 2

def itemsSize : List Node → Nat
  | [] => 0
  | n :: ns => n.size + itemsSize ns

def entriesSize : List (Node × Node) → Nat
  | [] => 0
  | (k, v) :: rest => k.size + v.size + entriesSize rest

end

namespace Document

/-- The node that an alias stands for. -/
def target? (d : Document) (number : Nat) : Option Node :=
  (d.anchored.reverse.find? (·.1 = number)).map (·.2)

/-- Reads the directives in front of a document. Of the version there is at most one, and each
handle is declared at most once. -/
def directives (version : Bool) (handles : List (String × String)) :
    List Token → Option (List (String × String) × List Token)
  | .version major minor :: tokens =>
    if version || major ≠ 1 || !(minor = 1 || minor = 2) then none
    else directives true handles tokens
  | .tagDirective handle expansion :: tokens =>
    if handles.any (·.1 = handle) then none
    else directives version (handles ++ [(handle, expansion)]) tokens
  | tokens => some (handles, tokens)

/-- What two handles stand for unless they are declared. -/
def commonHandles : List (String × String) := [("!", "!"), ("!!", "tag:yaml.org,2002:")]

/-- After the document only end markers may follow. -/
def endsText : List Token → Bool
  | [.textEnd] => true
  | .documentEnd :: tokens => endsText tokens
  | _ => false

def ofNode? (root : Node) (p : Parser) : Option Document :=
  if endsText p.tokens then some ⟨some root, root.anchored, root.size⟩ else none

/-- Reads the tokens of a text. Behind directives a document must be marked as such. -/
def ofTokens? (tokens : List Token) : Option Document := do
  let read (tokens : List Token) (handles : List (String × String)) := do
    let (root, p) ← (node true false (2 * tokens.length + 2)).run { tokens, handles }
    ofNode? root p
  match tokens with
  | [.textEnd] => some ⟨none, [], 1⟩
  | _ =>
    let (declared, rest) ← directives false [] tokens
    match rest with
    | .documentStart :: rest =>
      match rest with
      | .textEnd :: _ | .documentEnd :: _ => ofNode? .absent { tokens := rest }
      | _ => read rest (declared ++ commonHandles)
    | _ => if rest.length < tokens.length then none else read rest commonHandles

def ofText? (text : String) : Option Document := (tokens text).bind ofTokens?

end Document

end SceneLock.Yaml
