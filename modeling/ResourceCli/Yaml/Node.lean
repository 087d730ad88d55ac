import ResourceCli.Yaml.Token

/-!
# The nodes of a document

The tokens of a YAML text as the tree they describe: scalars, lists, mappings and references to
anchored nodes.  A text is accepted only as a whole and only if it holds at most one document.

A reference keeps the number of its anchor, not the node, because a node may refer to one that
contains it.  An anchor's number is the count of the names anchored before; the node of a number
is the one that was anchored under it last.
-/

namespace ResourceCli.Yaml

/-- A node of a document. -/
inductive Node
  /-- A scalar with its tag. -/
  | scalar (tag : Option String) (text : String) (style : Style)
  /-- A list with its tag. -/
  | list (tag : Option String) (items : List Node)
  /-- A mapping with its tag, its entries in order. -/
  | map (tag : Option String) (entries : List (Node × Node))
  /-- A reference to an anchored node. -/
  | reference (anchor : Nat)
  deriving Inhabited

/-- The node that stands where nothing is written. -/
def Node.empty : Node := .scalar none "" .plain

/-- A node that was anchored. -/
structure Anchored where
  /-- How many nodes were anchored before. -/
  order : Nat
  /-- The number of its anchor. -/
  anchor : Nat
  /-- The node. -/
  node : Node

/-- The state of building nodes. -/
structure Build where
  /-- The tokens that are left. -/
  tokens : List Token
  /-- The start of tags by their handle. -/
  handles : List (String × String) := []
  /-- The number of each anchored name. -/
  names : List (String × Nat) := []
  /-- How many nodes were anchored so far. -/
  count : Nat := 0
  /-- The anchored nodes. -/
  anchored : List Anchored := []

/-- A step of building nodes; it is none where the tokens describe none. -/
abbrev BuildM := StateT Build Option

namespace Build

/-- The next token. -/
def peek : BuildM Token := do return ((← get).tokens.head?).getD .streamEnd

/-- Drops the next token. -/
def drop : BuildM Unit := modify fun b => { b with tokens := b.tokens.tail }

/-- Takes the next token if it satisfies a condition. -/
def take? (t : Token) : BuildM Bool := do
  if (← peek) == t then
    drop
    return true
  else return false

/-- The full tag of a handle and a suffix. -/
def fullTag (handle suffix : String) : BuildM String := do
  if handle == "" then return suffix
  else
    match (← get).handles.lookup handle with
    | some start => return start ++ suffix
    | none => failure

/-- The anchor and the tag before a node, in either order. -/
def properties : BuildM (Option String × Option String) := do
  let anchor ← anchor?
  let tag ← tag?
  match anchor with
  | some a => return (some a, tag)
  | none => return (← if tag.isSome then anchor? else pure none, tag)
where
  /-- An anchor, if one comes next. -/
  anchor? : BuildM (Option String) := do
    match ← peek with
    | .anchor name =>
      drop
      return some name
    | _ => return none
  /-- A tag, if one comes next. -/
  tag? : BuildM (Option String) := do
    match ← peek with
    | .tag handle suffix =>
      drop
      return some (← fullTag handle suffix)
    | _ => return none

/-- Gives a name to the node that starts here; gives back its order and its number. -/
def nameNode (name : String) : BuildM (Nat × Nat) := do
  let b ← get
  let id := b.names.length
  let names := (name, id) :: b.names.filter (·.1 != name)
  set { b with names, count := b.count + 1 }
  return (b.count, id)

/-- Whether a token ends a value in a mapping of the block. -/
def endsBlockValue (t : Token) : Bool := t == .key || t == .value || t == .blockEnd

mutual

/-- Builds a node; `block` allows collections of the block, `indentless` a list whose items stand
in the column of the mapping around it. -/
def node (block indentless : Bool) : (fuel : Nat) → BuildM Node
  | 0 => failure
  | fuel + 1 => do
    match ← peek with
    | .reference name =>
      drop
      match (← get).names.lookup name with
      | some id => return .reference id
      | none => failure
    | _ =>
      let (anchor, tag) ← properties
      match anchor with
      | none => body block indentless (anchor.isSome || tag.isSome) tag fuel
      | some name =>
        let (order, id) ← nameNode name
        let n ← body block indentless true tag fuel
        modify fun b => { b with anchored := ⟨order, id, n⟩ :: b.anchored }
        return n

/-- Builds what follows the properties of a node. -/
def body (block indentless hasProperties : Bool) (tag : Option String) :
    (fuel : Nat) → BuildM Node
  | 0 => failure
  | fuel + 1 => do
    match ← peek with
    | .scalar text style =>
      drop
      return .scalar tag text style
    | .flowListStart =>
      drop
      return .list tag (← flowItems true fuel)
    | .flowMapStart =>
      drop
      return .map tag (← flowEntries true fuel)
    | t =>
      if indentless && t == .blockEntry then return .list tag (← indentlessItems fuel)
      else if block && t == .blockListStart then
        drop
        return .list tag (← blockItems fuel)
      else if block && t == .blockMapStart then
        drop
        return .map tag (← blockEntries fuel)
      else if hasProperties then return .scalar tag "" .plain
      else failure

/-- Builds the items of a list of the block, and its end. -/
def blockItems : (fuel : Nat) → BuildM (List Node)
  | 0 => failure
  | fuel + 1 => do
    if ← take? .blockEntry then
      let t ← peek
      let n ← if t == .blockEntry || t == .blockEnd then pure .empty else node true false fuel
      return n :: (← blockItems fuel)
    else if ← take? .blockEnd then return []
    else failure

/-- Builds the items of a list in the column of the mapping around it. -/
def indentlessItems : (fuel : Nat) → BuildM (List Node)
  | 0 => failure
  | fuel + 1 => do
    if ← take? .blockEntry then
      let t ← peek
      let n ← if t == .blockEntry || endsBlockValue t then pure .empty else node true false fuel
      return n :: (← indentlessItems fuel)
    else return []

/-- Builds the entries of a mapping of the block, and its end. -/
def blockEntries : (fuel : Nat) → BuildM (List (Node × Node))
  | 0 => failure
  | fuel + 1 => do
    if ← take? .key then
      let k ← if endsBlockValue (← peek) then pure .empty else node true true fuel
      let v ←
        if ← take? .value then
          if endsBlockValue (← peek) then pure .empty else node true true fuel
        else pure .empty
      return (k, v) :: (← blockEntries fuel)
    else if ← take? .blockEnd then return []
    else failure

/-- Builds the items of a flow list, and its end. -/
def flowItems (first : Bool) : (fuel : Nat) → BuildM (List Node)
  | 0 => failure
  | fuel + 1 => do
    if ← take? .flowListEnd then return []
    unless first do
      if !(← take? .flowEntry) then failure
    if ← take? .flowListEnd then return []
    let n ←
      if ← take? .key then
        let (k, v) ← flowPair fuel
        pure (.map none [(k, v)])
      else node false false fuel
    return n :: (← flowItems false fuel)

/-- Builds the one entry of a mapping that stands in a flow list without braces. -/
def flowPair : (fuel : Nat) → BuildM (Node × Node)
  | 0 => failure
  | fuel + 1 => do
    let t ← peek
    let k ←
      if t == .value || t == .flowEntry || t == .flowListEnd then
        drop
        pure .empty
      else node false false fuel
    let v ←
      if ← take? .value then
        let t ← peek
        if t == .flowEntry || t == .flowListEnd then pure .empty else node false false fuel
      else pure .empty
    return (k, v)

/-- Builds the entries of a flow mapping, and its end. -/
def flowEntries (first : Bool) : (fuel : Nat) → BuildM (List (Node × Node))
  | 0 => failure
  | fuel + 1 => do
    if ← take? .flowMapEnd then return []
    unless first do
      if !(← take? .flowEntry) then failure
    if ← take? .flowMapEnd then return []
    if ← take? .key then
      let t ← peek
      let k ←
        if t == .value || t == .flowEntry || t == .flowMapEnd then pure .empty
        else node false false fuel
      let v ←
        if ← take? .value then
          let t ← peek
          if t == .flowEntry || t == .flowMapEnd then pure .empty else node false false fuel
        else pure .empty
      return (k, v) :: (← flowEntries false fuel)
    else
      let k ← node false false fuel
      return (k, .empty) :: (← flowEntries false fuel)

end

/-- Reads the directives before a document. -/
def directives (version : Bool) (handles : List (String × String)) :
    (fuel : Nat) → BuildM Unit
  | 0 => failure
  | fuel + 1 => do
    match ← peek with
    | .version major minor =>
      if version || major != 1 || !(minor == 1 || minor == 2) then failure
      drop
      directives true handles fuel
    | .tagDirective handle start =>
      if (handles.lookup handle).isSome then failure
      drop
      directives version ((handle, start) :: handles) fuel
    | _ =>
      modify fun b =>
        { b with handles := handles ++ [("!", "!"), ("!!", "tag:yaml.org,2002:")] }

/-- Whether a token belongs to the frame of documents and not to their content. -/
def framesDocument : Token → Bool
  | .version _ _ | .tagDirective _ _ | .documentStart | .documentEnd | .streamEnd => true
  | _ => false

/-- Drops the marks that end a document. -/
def dropEnds : (fuel : Nat) → BuildM Unit
  | 0 => failure
  | fuel + 1 => do if ← take? .documentEnd then dropEnds fuel else pure ()

/-- Builds the root of the only document; it is empty where there is no document. -/
def root (fuel : Nat) : BuildM Node := do
  let t ← peek
  if t == .streamEnd then return .empty
  let n ←
    if framesDocument t && t != .documentEnd then
      directives false [] fuel
      if !(← take? .documentStart) then failure
      if framesDocument (← peek) then pure .empty else node true false fuel
    else
      directives false [] fuel
      node true false fuel
  dropEnds fuel
  if (← peek) == .streamEnd then return n else failure

end Build

/-- A document: its root and its anchored nodes. -/
structure Tree where
  /-- The root. -/
  root : Node
  /-- The anchored nodes. -/
  anchored : List Anchored
  /-- How many tokens the text has. -/
  size : Nat

/-- The node of an anchor. -/
def Tree.target? (t : Tree) (anchor : Nat) : Option Node :=
  let all := t.anchored.filter (·.anchor == anchor)
  (all.foldl (fun best a =>
    match best with
    | some (b : Anchored) => if b.order < a.order then some a else some b
    | none => some a) none).map Anchored.node

/-- The document of a text, if it is YAML. -/
def read? (text : String) : Option Tree := do
  let tokens ← tokenize? text
  let (n, b) ← (Build.root (3 * tokens.length + 8)).run { tokens }
  return ⟨n, b.anchored, tokens.length⟩

end ResourceCli.Yaml
