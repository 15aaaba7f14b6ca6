import Scripting.Yaml.Token

/-!
The nodes of a document: texts, lists, mappings, and references to nodes that have
an anchor. A node may refer to itself, so what is behind an anchor is kept beside
the tree and found by its number.
-/

namespace Scripting.Yaml

inductive Node where
  /-- A text. The tag is empty if none was given. -/
  | scalar (tag text : String) (plain : Bool)
  | list (items : List Node)
  | map (entries : List (Node × Node))
  /-- A reference to the anchored node of some number. -/
  | alias (name : String) (target : Nat)

/-- The node that stands where nothing is written. -/
def Node.nothing : Node := .scalar "" "" true

structure Reading where
  tokens : List Token
  /-- How many tokens were read. -/
  taken : Nat := 0
  shorthands : List (String × String) := []
  /-- The anchors by name, the latest first. -/
  anchors : List (String × Nat) := []
  /-- What is behind each anchor. -/
  shared : Array Node := #[]

abbrev Reader := StateT Reading Option

namespace Reader

def refuse {α : Type} : Reader α := fun _ => none

def peek : Reader Token := fun r =>
  match r.tokens with
  | [] => none
  | token :: _ => some (token, r)

def skip : Reader Unit := fun r =>
  match r.tokens with
  | [] => none
  | _ :: tokens => some ((), { r with tokens, taken := r.taken + 1 })

def reference (name : String) : Reader Node := do
  match (← get).anchors.lookup name with
  | some target => return .alias name target
  | none => refuse

/-- Reads a node behind an anchor. The anchor is known inside the node already. -/
def behind (anchor : Option String) (read : Reader Node) : Reader Node := do
  match anchor with
  | none => read
  | some name =>
    let target := (← get).shared.size
    modify fun r => { r with
      anchors := (name, target) :: r.anchors, shared := r.shared.push .nothing }
    let node ← read
    modify fun r => { r with shared := r.shared.setIfInBounds target node }
    return node

def usualTags : String := "tag:yaml.org,2002:"

/-- A tag in full, with the usual ones in short. The tag that is a mere mark is as
good as none. -/
def shortTag (tag : String) : String :=
  if tag = "!" then ""
  else if usualTags.toList.isPrefixOf tag.toList then
    "!!" ++ String.ofList (tag.toList.drop usualTags.length)
  else tag

def resolveTag (handle suffix : String) : Reader String := do
  if handle.isEmpty then return shortTag suffix
  match (← get).shorthands.lookup handle with
  | some meaning => return shortTag (meaning ++ suffix)
  | none => refuse

def properties : Reader (Option String × Option String) := do
  match ← peek with
  | .anchor name =>
    skip
    match ← peek with
    | .tag handle suffix =>
      skip
      return (some name, some (← resolveTag handle suffix))
    | _ => return (some name, none)
  | .tag handle suffix =>
    skip
    match ← peek with
    | .anchor name =>
      skip
      return (some name, some (← resolveTag handle suffix))
    | _ => return (none, some (← resolveTag handle suffix))
  | _ => return (none, none)

/-- Reads a node unless one of some tokens shows that there is none. -/
def orNothing (absent : List Token) (read : Reader Node) : Reader Node := do
  if absent.contains (← peek) then return .nothing else read

/-- Reads the value of an entry, if a colon comes next. -/
def valueOf (absent : List Token) (read : Reader Node) : Reader Node := do
  match ← peek with
  | .value => skip; orNothing absent read
  | _ => return .nothing

/-- The node that holds nothing. Something has to stand there, an anchor or a tag. -/
def unwritten (marked : Bool) (tag : String) : Reader Node :=
  if marked then pure (.scalar tag "" true) else refuse

/-- The token that begins the next part of a collection in brackets, or ends it.
Commas stand between the parts. -/
def part (ending : Token) (first : Bool) : Reader Token := do
  let token ← peek
  if token = ending || first then return token
  else if token = .comma then do skip; peek
  else refuse

mutual

/-- A node. Collections of lines stand only where lines are counted, and a list
that is not indented only as the key or the value of an entry. -/
def node : (fuel : Nat) → (lines unindented : Bool) → Reader Node
  | 0, _, _ => refuse
  | fuel + 1, lines, unindented => do
    match ← peek with
    | .alias name => skip; reference name
    | _ =>
      let (anchor, tag) ← properties
      behind anchor (content fuel lines unindented (anchor.isSome || tag.isSome) (tag.getD ""))

/-- What a node holds. A node with an anchor or a tag may hold nothing. -/
def content : (fuel : Nat) → (lines unindented marked : Bool) → (tag : String) → Reader Node
  | 0, _, _, _, _ => refuse
  | fuel + 1, lines, unindented, marked, tag => do
    match ← peek with
    | .scalar text plain => skip; return .scalar tag text plain
    | .flowList => skip; return .list (← flowItems fuel true)
    | .flowMap => skip; return .map (← flowEntries fuel true)
    | .blockList =>
      if lines then do skip; return .list (← blockItems fuel) else unwritten marked tag
    | .blockMap =>
      if lines then do skip; return .map (← blockEntries fuel) else unwritten marked tag
    | .dash => if unindented then return .list (← dashedItems fuel) else unwritten marked tag
    | _ => unwritten marked tag

def blockItems : (fuel : Nat) → Reader (List Node)
  | 0 => refuse
  | fuel + 1 => do
    match ← peek with
    | .dash =>
      skip
      let item ← orNothing [.dash, .blockEnd] (node fuel true false)
      return item :: (← blockItems fuel)
    | .blockEnd => skip; return []
    | _ => refuse

def dashedItems : (fuel : Nat) → Reader (List Node)
  | 0 => refuse
  | fuel + 1 => do
    match ← peek with
    | .dash =>
      skip
      let item ← orNothing [.dash, .key, .value, .blockEnd] (node fuel true false)
      return item :: (← dashedItems fuel)
    | _ => return []

def blockEntries : (fuel : Nat) → Reader (List (Node × Node))
  | 0 => refuse
  | fuel + 1 => do
    match ← peek with
    | .key =>
      skip
      let absent := [.key, .value, .blockEnd]
      let key ← orNothing absent (node fuel true true)
      let value ← valueOf absent (node fuel true true)
      return (key, value) :: (← blockEntries fuel)
    | .blockEnd => skip; return []
    | _ => refuse

/-- The items of a list in brackets. An item with a colon is a mapping of one
entry. -/
def flowItems : (fuel : Nat) → (first : Bool) → Reader (List Node)
  | 0, _ => refuse
  | fuel + 1, first => do
    match ← part .flowListEnd first with
    | .flowListEnd => skip; return []
    | .key =>
      skip
      let key ← match ← peek with
        | .value | .comma | .flowListEnd => do skip; pure .nothing
        | _ => node fuel false false
      let value ← valueOf [.comma, .flowListEnd] (node fuel false false)
      return .map [(key, value)] :: (← flowItems fuel false)
    | _ =>
      let item ← node fuel false false
      return item :: (← flowItems fuel false)

/-- The entries of a mapping in braces. A node without a colon is a key with no
value. -/
def flowEntries : (fuel : Nat) → (first : Bool) → Reader (List (Node × Node))
  | 0, _ => refuse
  | fuel + 1, first => do
    match ← part .flowMapEnd first with
    | .flowMapEnd => skip; return []
    | .key =>
      skip
      let absent := [.comma, .flowMapEnd]
      let key ← orNothing (.value :: absent) (node fuel false false)
      let value ← valueOf absent (node fuel false false)
      return (key, value) :: (← flowEntries fuel false)
    | _ =>
      let key ← node fuel false false
      return (key, .nothing) :: (← flowEntries fuel false)

end

/-- The directives before a document. The shorthands that are not given are the
usual ones. -/
def directives : (fuel : Nat) → (versioned : Bool) → Reader Unit
  | 0, _ => refuse
  | fuel + 1, versioned => do
    match ← peek with
    | .version major minor =>
      if versioned || major != 1 || minor != 1 then refuse
      skip
      directives fuel true
    | .shorthand handle meaning =>
      if ((← get).shorthands.lookup handle).isSome then refuse
      modify fun r => { r with shorthands := r.shorthands ++ [(handle, meaning)] }
      skip
      directives fuel versioned
    | _ =>
      modify fun r => { r with shorthands := r.shorthands ++ [("!", "!"), ("!!", usualTags)] }

/-- The first document. Nothing follows the last one. -/
def document (fuel : Nat) : Reader (Option Node) := do
  match ← peek with
  | .streamEnd => return none
  | .version _ _ | .shorthand _ _ | .documentStart =>
    directives fuel false
    if (← peek) != .documentStart then refuse
    skip
    match ← peek with
    | .version _ _ | .shorthand _ _ | .documentStart | .documentEnd | .streamEnd =>
      return some .nothing
    | _ => return some (← node fuel true false)
  | _ =>
    directives fuel false
    return some (← node fuel true false)

end Reader

/-- A document: its node, if there is one, and what is behind its anchors. -/
structure Document where
  root : Option Node
  shared : Array Node
  /-- The number of its tokens, which bounds that of its nodes. -/
  size : Nat

/-- The first document of some tokens. What follows it does not count, as long as it
is certain where the document ends. -/
def Document.ofScan? (s : Scan) : Option Document := do
  let (root, after) ←
    (Reader.document (3 * s.tokens.size + 3)).run { tokens := s.tokens.toList }
  if s.settled after.taken then some { root, shared := after.shared, size := s.tokens.size }
  else none

end Scripting.Yaml
