import ResourceCli.Json.Scan

/-!
# Reading free JSON

A JSON text as a value.  Free data has no order of its own: the members of an object are sorted by
key, and of a key given twice the last value counts.
-/

namespace ResourceCli.Json

mutual

/-- Reads a value; `depth` more levels of nesting are allowed. -/
def value (fuel depth : Nat) : Reader Json :=
  match fuel with
  | 0 => failHere .eofValue
  | fuel + 1 => do
    match ← skipSpace with
    | none => failAhead .eofValue
    | some 'n' =>
      eat
      word ['u', 'l', 'l']
      return .null
    | some 't' =>
      eat
      word ['r', 'u', 'e']
      return .bool true
    | some 'f' =>
      eat
      word ['a', 'l', 's', 'e']
      return .bool false
    | some '-' =>
      eat
      return .num (← number false)
    | some '"' =>
      eat
      return .str (← string)
    | some '[' =>
      enter depth
      .arr <$> closing (items fuel (depth - 1) true) endArray
    | some '{' =>
      enter depth
      .obj <$> closing (members fuel (depth - 1) true []) endObject
    | some c =>
      if c.isDigit then return .num (← number true) else failAhead .expectedValue

/-- Reads the items of an array. -/
def items (fuel depth : Nat) (first : Bool) : Reader (List Json) :=
  match fuel with
  | 0 => failHere .eofValue
  | fuel + 1 => do
    if ← hasItem first then
      let v ← value fuel depth
      return v :: (← items fuel depth false)
    else return []

/-- Reads the members of an object onto those read so far. -/
def members (fuel depth : Nat) (first : Bool) (done : List (String × Json)) :
    Reader (List (String × Json)) :=
  match fuel with
  | 0 => failHere .eofValue
  | fuel + 1 => do
    if ← hasMember first then
      let key ← string
      colon
      let v ← value fuel depth
      members fuel depth false (insertSorted key v done)
    else return done

end

/-- Requires that nothing but white space is left. -/
def atEnd : Reader Unit := do
  match ← skipSpace with
  | some _ => failAhead .trailingText
  | none => pure ()

/-- Runs a reader on a whole text. -/
def readAll {α : Type} (r : Reader α) (text : String) : Except Defect α :=
  let cs := text.toList
  match (do
    let a ← r
    atEnd
    return a : Reader α) cs with
  | .ok a _ => .ok a
  | .error f _ => .error (f.locate cs)

/-- Reads a text as a value. -/
def read (text : String) : Except Defect Json :=
  readAll (fun rest => value (2 * rest.length + 2) maxDepth rest) text

end ResourceCli.Json
