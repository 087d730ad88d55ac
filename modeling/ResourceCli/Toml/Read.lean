import ResourceCli.Toml.Scalar

/-!
# Reading TOML

A TOML text as a table.  A text is well formed if every line is one that may stand there and its
sections can be put together (`Toml.ofSections`); otherwise it has no value.
-/

namespace ResourceCli.Toml

/-- How deep lists and tables may be nested in values. -/
def maxDepth : Nat := 80

mutual

/-- Reads a value; `depth` more levels of nesting are allowed. -/
def value (fuel depth : Nat) : Reader Toml :=
  match fuel with
  | 0 => failure
  | fuel + 1 => do
    if ← accept "\"\"\"" then text <$> overLines '"'
    else if ← accept "\"" then text <$> quoted
    else if ← accept "'''" then text <$> overLines '\''
    else if ← accept "'" then text <$> literal
    else if ← accept "[" then
      guard (0 < depth)
      list <$> items fuel (depth - 1)
    else if ← accept "\x7b" then
      guard (0 < depth)
      table .inline <$> members fuel (depth - 1) []
    else bareValue

/-- Reads the items of a list to its end. -/
def items (fuel depth : Nat) : Reader (List Toml) :=
  match fuel with
  | 0 => failure
  | fuel + 1 => do
    skipGaps
    if ← accept "]" then return []
    else
      let v ← value fuel depth
      skipGaps
      if ← accept "," then return v :: (← items fuel depth)
      else
        expect "]"
        return [v]

/-- Reads the entries of a table that is a value, onto those read so far. -/
def members (fuel depth : Nat) (done : Entries) : Reader Entries :=
  match fuel with
  | 0 => failure
  | fuel + 1 => do
    skipGaps
    if ← accept "\x7d" then return done
    else
      let path ← dottedKey
      expect "="
      skipBlanks
      let v ← value fuel depth
      let done ← (putEntry v none path done : Option Entries)
      skipGaps
      if ← accept "," then members fuel depth done
      else
        expect "\x7d"
        return done

end

/-- Reads a key and its value on a line. -/
def entryLine : Reader (List String × Toml) := do
  let path ← dottedKey
  expect "="
  skipBlanks
  let fuel := 2 * (← get).length + 2
  let v ← value fuel maxDepth
  endLine
  return (path, v)

/-- Reads a header on a line; the first bracket is consumed already. -/
def headerLine : Reader Section := do
  let isListed ← accept "["
  skipBlanks
  let path ← dottedKey
  expect (if isListed then "]]" else "]")
  endLine
  return ⟨path, isListed, []⟩

/-- Reads the entries up to the next header or the end. -/
def entryLines (fuel : Nat) : Reader (List (List String × Toml)) :=
  match fuel with
  | 0 => failure
  | fuel + 1 => do
    skipGaps
    match ← peek with
    | none => return []
    | some '[' => return []
    | some _ => do
      let entry ← entryLine
      return entry :: (← entryLines fuel)

/-- Reads sections to the end. -/
def sections (fuel : Nat) : Reader (List Section) :=
  match fuel with
  | 0 => failure
  | fuel + 1 => do
    if ← accept "[" then
      let header ← headerLine
      let entries ← entryLines fuel
      return { header with entries := entries } :: (← sections fuel)
    else return []

/-- Reads a whole text: entries without a header, then sections. -/
def document : Reader Entries := do
  discard (accept "\ufeff")
  let fuel := (← get).length + 2
  let top ← entryLines fuel
  let rest ← sections fuel
  (ofSections top rest : Option Entries)

/-- Reads a text. -/
def read? (text : String) : Option Toml :=
  match document text.toList with
  | some (entries, []) => some (.table .stated entries)
  | _ => none

end ResourceCli.Toml
