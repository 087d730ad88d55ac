import ResourceCli.Yaml.Scalar

/-!
# Tokens

A YAML text as tokens.  Most tokens are seen where they stand; two kinds are not.  That a text is
the key of a mapping shows only at the colon after it, so a place where a key may have started is
remembered and the key token is put there later.  And the collections of a block begin and end by
indentation alone, so their tokens come from comparing columns.
-/

namespace ResourceCli.Yaml

/-- How a scalar was written. -/
inductive Style
  /-- Without marks of its own. -/
  | plain
  /-- In quotes. -/
  | quoted
  /-- As a literal block. -/
  | literal
  /-- As a folded block. -/
  | folded
  deriving DecidableEq, Inhabited

/-- A token. -/
inductive Token
  /-- The version directive. -/
  | version (major minor : Nat)
  /-- A tag directive. -/
  | tagDirective (handle start : String)
  /-- The mark that starts a document. -/
  | documentStart
  /-- The mark that ends a document. -/
  | documentEnd
  /-- The end of the text. -/
  | streamEnd
  /-- A list by indentation starts. -/
  | blockListStart
  /-- A mapping by indentation starts. -/
  | blockMapStart
  /-- A collection by indentation ends. -/
  | blockEnd
  /-- `[` -/
  | flowListStart
  /-- `]` -/
  | flowListEnd
  /-- The opening brace. -/
  | flowMapStart
  /-- The closing brace. -/
  | flowMapEnd
  /-- `-` before an item. -/
  | blockEntry
  /-- `,` -/
  | flowEntry
  /-- A key follows. -/
  | key
  /-- A value follows. -/
  | value
  /-- `*` and a name. -/
  | reference (name : String)
  /-- `&` and a name. -/
  | anchor (name : String)
  /-- `!` and a tag. -/
  | tag (handle suffix : String)
  /-- A scalar. -/
  | scalar (text : String) (style : Style)
  deriving DecidableEq, Inhabited

/-- A place where the key of a mapping may have started. -/
structure PendingKey where
  /-- Whether nothing else than a key can stand there. -/
  required : Bool
  /-- The number of tokens before it. -/
  place : Nat
  /-- Where it is in the text. -/
  index : Nat
  /-- Its line. -/
  line : Nat
  /-- Its column. -/
  column : Nat

/-- The state of reading tokens. -/
structure Scan where
  /-- Where reading goes on. -/
  cursor : Cursor
  /-- The tokens so far. -/
  tokens : Array Token := #[]
  /-- For the block and for each open flow collection, innermost first, the key that may have
  started. -/
  pending : List (Option PendingKey) := [none]
  /-- Whether a key may start here. -/
  keyAllowed : Bool := true
  /-- The column of the innermost collection of the block; `-1` outside of all. -/
  indent : Int := -1
  /-- The columns of the collections around it. -/
  indents : List Int := []

/-- A step of reading tokens; it is none where the text is no YAML. -/
abbrev ScanM := StateT Scan Option

namespace Scan

/-- Whether reading is inside a flow collection. -/
def inFlow (s : Scan) : Bool := 1 < s.pending.length

/-- Appends a token. -/
def push (t : Token) : ScanM Unit := modify fun s => { s with tokens := s.tokens.push t }

/-- Moves on. -/
def moveTo (c : Cursor) : ScanM Unit := modify fun s => { s with cursor := c }

/-- Says whether a key may start next. -/
def allowKey (b : Bool) : ScanM Unit := modify fun s => { s with keyAllowed := b }

/-- Forgets the innermost pending key, which must not be one that is required. -/
def dropKey : ScanM Unit := do
  match (← get).pending with
  | some k :: outer =>
    if k.required then failure else modify fun s => { s with pending := none :: outer }
  | _ => pure ()

/-- Remembers that a key may start here. -/
def saveKey : ScanM Unit := do
  let s ← get
  if s.keyAllowed then
    dropKey
    let c := s.cursor
    let key : PendingKey :=
      ⟨!s.inFlow && s.indent == c.column, s.tokens.size, c.index, c.line, c.column⟩
    modify fun s => { s with pending := some key :: s.pending.tail }

/-- Forgets the pending keys that the text has run away from: a key stays on one line and within
1024 characters. -/
def dropStaleKeys : ScanM Unit := do
  let s ← get
  let stale (k : PendingKey) : Bool :=
    k.line < s.cursor.line || k.index + 1024 < s.cursor.index
  if s.pending.any (Option.any fun k => stale k && k.required) then failure
  else set { s with pending := s.pending.map (Option.filter fun k => !stale k) }

/-- Opens a collection of the block at a column, if it is further in than the current one; its
token goes to `place`, or to the end. -/
def rollIndent (column : Nat) (place : Option Nat) (t : Token) : ScanM Unit :=
  modify fun s =>
    if s.inFlow || (column : Int) ≤ s.indent then s
    else
      { s with
        indents := s.indent :: s.indents
        indent := column
        tokens := match place with
          | some n => s.tokens.insertIdxIfInBounds n t
          | none => s.tokens.push t }

/-- Ends the collections of the block that are further in than a column. -/
def closeTo (column : Int) (tokens : Array Token) (indent : Int) :
    List Int → Array Token × Int × List Int
  | [] => (tokens, indent, [])
  | outer :: rest =>
    if column < indent then closeTo column (tokens.push .blockEnd) outer rest
    else (tokens, indent, outer :: rest)

/-- Ends the collections of the block that are further in than a column, outside of flow
collections. -/
def unrollIndent (column : Int) : ScanM Unit :=
  modify fun s =>
    if s.inFlow then s
    else
      let (tokens, indent, indents) := closeTo column s.tokens s.indent s.indents
      { s with tokens, indent, indents }

/-- Passes over blanks, comments and line breaks. -/
def skipToToken (s : Scan) : (fuel : Nat) → Scan
  | 0 => s
  | fuel + 1 =>
    let c := s.cursor
    let c := if c.index == 0 && c.sees '\uFEFF' then c.skip else c
    let tabs := s.inFlow || !s.keyAllowed
    let c := c.skipWhile fun x => x == ' ' || (tabs && x == '\t')
    let c := if c.sees '#' then c.skipWhile (!isBreak ·) else c
    if (c.peek 0).any isBreak then
      skipToToken { s with cursor := c.skipBreak, keyAllowed := s.keyAllowed || !s.inFlow } fuel
    else { s with cursor := c }

/-! ## Names, tags and directives -/

/-- The number written by up to nine digits, and the place after it. -/
def versionNumber (c : Cursor) : Option (Nat × Cursor) :=
  let (ds, c) := c.takeWhile Char.isDigit
  if ds.isEmpty || 9 < ds.length then none
  else some (ds.foldl (fun n d => 10 * n + (d.toNat - '0'.toNat)) 0, c)

/-- Whether a character may stand in a tag; some only inside of angle brackets. -/
def isTagChar (bracketed : Bool) (x : Char) : Bool :=
  isWordChar x || [';', '/', '?', ':', '@', '&', '=', '+', '$', '.', '!', '~', '*', '\'', '(',
    ')', '%'].contains x || (bracketed && [',', '[', ']'].contains x)

/-- The bytes of escapes by `%`, at most `n` of them. -/
def escapedBytes (cs : List Char) : (n : Nat) → Option (List Nat)
  | 0 => some []
  | n + 1 =>
    match cs with
    | '%' :: a :: b :: rest =>
      match Text.hexValue? a, Text.hexValue? b with
      | some a, some b => (escapedBytes rest n).map fun bytes => (16 * a + b) :: bytes
      | _, _ => none
    | _ => none

/-- The number of bytes of a character, from its first one. -/
def byteCount? (lead : Nat) : Option Nat :=
  if lead < 0x80 then some 1
  else if lead / 32 == 6 then some 2
  else if lead / 16 == 14 then some 3
  else if lead / 8 == 30 then some 4
  else none

/-- The character written by escapes, and how many escapes it took. -/
def escapedChar? (cs : List Char) : Option (Char × Nat) := do
  let first ← (← escapedBytes cs 1).head?
  let count ← byteCount? first
  let tail := (← escapedBytes cs count).tail
  if tail.any (· / 64 != 2) then none
  else
    let head := if count == 1 then first else first % Nat.pow 2 (7 - count)
    some (Char.ofNat (tail.foldl (fun n b => n * 64 + b % 64) head), count)

/-- The characters of a tag, and the place after them. -/
def tagChars (bracketed : Bool) (done : List Char) (c : Cursor) :
    (fuel : Nat) → Option (List Char × Cursor)
  | 0 => none
  | fuel + 1 =>
    match c.peek 0 with
    | some '%' =>
      match escapedChar? c.rest with
      | some (x, n) => tagChars bracketed (x :: done) (c.skipN (3 * n)) fuel
      | none => none
    | some x =>
      if isTagChar bracketed x then tagChars bracketed (x :: done) c.skip fuel
      else some (done.reverse, c)
    | none => some (done.reverse, c)

/-- A tag's characters after a head, which counts towards there being any; its exclamation mark
is not part of the text. -/
def tagUri (bracketed : Bool) (head : List Char) (c : Cursor) : Option (String × Cursor) :=
  match tagChars bracketed [] c (c.rest.length + 1) with
  | none => none
  | some (cs, c') =>
    if head.isEmpty && cs.isEmpty then none
    else some (String.ofList (head.tail ++ cs), c')

/-- A handle: an exclamation mark, a name, and perhaps another mark. -/
def tagHandle (c : Cursor) : Option (List Char × Cursor) :=
  if !c.sees '!' then none
  else
    let (name, c) := c.skip.takeWhile isWordChar
    if c.sees '!' then some ('!' :: (name ++ ['!']), c.skip) else some ('!' :: name, c)

/-- A tag: its handle and its suffix. -/
def scanTag (c : Cursor) : Option (String × String × Cursor) :=
  if c.sees '<' 1 then
    match tagUri true [] (c.skipN 2) with
    | some (suffix, c) => if c.sees '>' then some ("", suffix, c.skip) else none
    | none => none
  else
    match tagHandle c with
    | none => none
    | some (handle, c) =>
      if 2 ≤ handle.length && handle.getLast? == some '!' then
        (tagUri false [] c).map fun (suffix, c) => (String.ofList handle, suffix, c)
      else
        (tagUri false handle c).map fun (suffix, c) =>
          if suffix == "" then ("", "!", c) else ("!", suffix, c)

/-- A directive, from its percent sign on: its token and the place after its line. -/
def scanDirective (c : Cursor) : Option (Token × Cursor) := do
  let (name, c) := c.skip.takeWhile isWordChar
  if !isBlankOrEnd (c.peek 0) then none
  let (token, c) ← (
    if name == ['Y', 'A', 'M', 'L'] then do
      let (major, c) ← versionNumber (c.skipWhile isBlank)
      if !c.sees '.' then none
      let (minor, c) ← versionNumber c.skip
      return (Token.version major minor, c)
    else if name == ['T', 'A', 'G'] then do
      let (handle, c) ← tagHandle (c.skipWhile isBlank)
      if handle != ['!'] && (handle.length < 2 || handle.getLast? != some '!') then none
      if !(c.peek 0).any isBlank then none
      let (start, c) ← tagUri true [] (c.skipWhile isBlank)
      if !isBlankOrEnd (c.peek 0) then none
      return (Token.tagDirective (String.ofList handle) start, c)
    else none)
  let c := c.skipWhile isBlank
  let c := if c.sees '#' then c.skipWhile (!isBreak ·) else c
  if !isBreakOrEnd (c.peek 0) then none
  return (token, c.skipBreak)

/-- The name after an indicator. -/
def scanName (c : Cursor) : Option (String × Cursor) :=
  let (name, c) := c.skip.takeWhile isWordChar
  let ends := isBlankOrEnd (c.peek 0) ||
    (c.peek 0).any fun x => ['?', ':', ',', ']', '}', '%', '@', '`'].contains x
  if name.isEmpty || !ends then none else some (String.ofList name, c)

/-! ## One token -/

/-- Reads an indicator of one character. -/
def indicator (t : Token) : ScanM Unit := do
  moveTo (← get).cursor.skip
  push t

/-- Opens a flow collection. -/
def openFlow (t : Token) : ScanM Unit := do
  saveKey
  modify fun s => { s with pending := none :: s.pending }
  allowKey true
  indicator t

/-- Closes a flow collection. -/
def closeFlow (t : Token) : ScanM Unit := do
  dropKey
  modify fun s =>
    { s with pending := match s.pending with
        | _ :: k :: outer => k :: outer
        | pending => pending }
  allowKey false
  indicator t

/-- Opens a collection of the block at the current column, where a key may start. -/
def openBlock (t : Token) : ScanM Unit := do
  let s ← get
  if !s.inFlow then
    if !s.keyAllowed then failure
    rollIndent s.cursor.column none t

/-- Reads the colon of a value; the key before it gets its token. -/
def valueIndicator : ScanM Unit := do
  let s ← get
  match s.pending with
  | some k :: outer =>
    set { s with tokens := s.tokens.insertIdxIfInBounds k.place .key, pending := none :: outer }
    rollIndent k.column (some k.place) .blockMapStart
    allowKey false
  | _ =>
    openBlock .blockMapStart
    allowKey (!s.inFlow)
  indicator .value

/-- Reads the mark of a document. -/
def documentMark (t : Token) : ScanM Unit := do
  unrollIndent (-1)
  dropKey
  allowKey false
  moveTo ((← get).cursor.skipN 3)
  push t

/-- Ends the text. -/
def finish : ScanM Unit := do
  unrollIndent (-1)
  dropKey
  allowKey false
  push .streamEnd

/-- Reads a name after an indicator. -/
def named (t : String → Token) : ScanM Unit := do
  saveKey
  allowKey false
  let (name, c) ← scanName (← get).cursor
  moveTo c
  push (t name)

/-- Reads a block scalar. -/
def blockScalar (literal : Bool) : ScanM Unit := do
  dropKey
  allowKey true
  let s ← get
  let (text, c) ← block literal s.indent s.cursor
  moveTo c
  push (.scalar text (if literal then .literal else .folded))

/-- Reads a quoted scalar. -/
def quoted (single : Bool) : ScanM Unit := do
  saveKey
  allowKey false
  let (text, c) ← quotedScalar single (← get).cursor
  moveTo c
  push (.scalar text .quoted)

/-- Whether a plain scalar may start with a character. -/
def startsPlain (inFlow : Bool) (x : Char) (next : Option Char) : Bool :=
  let special := ['-', '?', ':', ',', '[', ']', '{', '}', '#', '&', '*', '!', '|', '>', '\'',
    '"', '%', '@', '`']
  !(isBlank x || isBreak x || special.contains x) ||
    (x == '-' && !next.any isBlank) ||
    (!inFlow && (x == '?' || x == ':') && !isBlankOrEnd next)

/-- Reads a plain scalar. -/
def plainScalar : ScanM Unit := do
  saveKey
  allowKey false
  let s ← get
  let c := s.cursor
  let (text, broken, c) ← plain s.inFlow (s.indent + 1).toNat {} c (c.rest.length + 1)
  moveTo c
  if broken then allowKey true
  push (.scalar text .plain)

/-- Reads a directive. -/
def directive : ScanM Unit := do
  unrollIndent (-1)
  dropKey
  allowKey false
  let (t, c) ← scanDirective (← get).cursor
  moveTo c
  push t

/-- Reads a tag. -/
def tagged : ScanM Unit := do
  saveKey
  allowKey false
  let s ← get
  let (handle, suffix, c) ← scanTag s.cursor
  if !isBlankOrEnd (c.peek 0) && !(s.inFlow && c.sees ',') then failure
  moveTo c
  push (.tag handle suffix)

/-- Reads the comma before an item of a flow collection. -/
def itemComma : ScanM Unit := do
  dropKey
  allowKey true
  indicator .flowEntry

/-- Reads the dash before an item of the block. -/
def itemDash : ScanM Unit := do
  openBlock .blockListStart
  dropKey
  allowKey true
  indicator .blockEntry

/-- Reads the question mark before a key. -/
def keyMark : ScanM Unit := do
  openBlock .blockMapStart
  dropKey
  allowKey (!(← get).inFlow)
  indicator .key

/-- What reads the token at a place, where the character `x` stands; none if no token starts with
it. -/
def reader? (inFlow : Bool) (c : Cursor) (x : Char) : Option (ScanM Unit) :=
  let lone := isBlankOrEnd (c.peek 1)
  if c.column == 0 && x == '%' then some directive
  else if c.seesMark '-' then some (documentMark .documentStart)
  else if c.seesMark '.' then some (documentMark .documentEnd)
  else if x == '[' then some (openFlow .flowListStart)
  else if x == '{' then some (openFlow .flowMapStart)
  else if x == ']' then some (closeFlow .flowListEnd)
  else if x == '}' then some (closeFlow .flowMapEnd)
  else if x == ',' then some itemComma
  else if x == '-' && lone then some itemDash
  else if x == '?' && (inFlow || lone) then some keyMark
  else if x == ':' && (inFlow || lone) then some valueIndicator
  else if x == '*' then some (named .reference)
  else if x == '&' then some (named .anchor)
  else if x == '!' then some tagged
  else if x == '|' && !inFlow then some (blockScalar true)
  else if x == '>' && !inFlow then some (blockScalar false)
  else if x == '\'' then some (quoted true)
  else if x == '"' then some (quoted false)
  else if startsPlain inFlow x (c.peek 1) then some plainScalar
  else none

/-- Gets ready for the next token: passes over what lies before it, forgets the keys that it has run
away from, and ends the collections that it stands outside of. -/
def settle : ScanM Unit := do
  modify fun s => skipToToken s (s.cursor.rest.length + 1)
  dropStaleKeys
  unrollIndent (← get).cursor.column

/-- Reads the token that starts here; gives back whether the text has ended. -/
def token : ScanM Bool := do
  let s ← get
  match s.cursor.peek 0 with
  | none =>
    finish
    return true
  | some x =>
    match reader? s.inFlow s.cursor x with
    | none => failure
    | some read =>
      read
      return false

/-- Reads the next token; gives back whether the text has ended. -/
def next : ScanM Bool := do
  settle
  token

/-- Reads all tokens. -/
def all : (fuel : Nat) → ScanM Unit
  | 0 => failure
  | fuel + 1 => do
    if ← next then pure () else all fuel

end Scan

/-- Where the reading of a text starts. -/
def Scan.start (text : String) : Scan where
  cursor := {
    rest := match text.toList with
      | '\uFEFF' :: cs => cs
      | cs => cs }

/-- The tokens of a text, if it has any reading as tokens. -/
def tokenize? (text : String) : Option (List Token) :=
  let start := Scan.start text
  if !start.cursor.rest.all isAllowed then none
  else
    ((Scan.all (start.cursor.rest.length + 2)).run start).map fun (_, s) => s.tokens.toList

end ResourceCli.Yaml
