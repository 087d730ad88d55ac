import ResourceCli.Json.Read

/-!
# Typed data from JSON

Reads a JSON text by a shape.  A value of another kind, a missing or repeated field, and a
malformed text are all met in the order of the text, and the first one is reported; what comes
after a field that nobody asked for is only checked for form.
-/

namespace ResourceCli.Shape

open Json

/-- What kind of value comes next; scalars are read, containers are left where they are. -/
def foundAhead : Reader Found := do
  match ← peek with
  | some 'n' =>
    eat
    word ['u', 'l', 'l']
    return .unit
  | some 't' =>
    eat
    word ['r', 'u', 'e']
    return .bool true
  | some 'f' =>
    eat
    word ['a', 'l', 's', 'e']
    return .bool false
  | some '-' =>
    eat
    ofNumeral <$> number false
  | some '"' =>
    eat
    Found.str <$> string
  | some '[' => return .seq
  | some '{' => return .map
  | some c => if c.isDigit then ofNumeral <$> number true else failAhead .expectedValue
  | none => failAhead .expectedValue
where
  /-- A number as something found. -/
  ofNumeral : Numeral → Found
    | .int i => .int i
    | .double x => .double x

/-- Refuses the next value, wherever it ends. -/
def refuse {α : Type} (wanted : String) : Reader α :=
  placed do failShape (.kind (← foundAhead) wanted)

/-- The next character after white space, which has to be there. -/
def valueAhead : Reader Char := do
  match ← skipSpace with
  | some c => return c
  | none => failAhead .eofValue

/-- A free value as one text or a list of texts. -/
def oneOrMore? : Json → Option Tree
  | .str s => some (.text s)
  | .arr items =>
    (items.mapM fun | Json.str s => some (Tree.text s) | _ => none).map .list
  | _ => none

/-- Requires the required fields of a record that was read as a mapping. -/
def complete (r : RecordName) (values : List (Option Tree)) : Reader Tree :=
  match (r.fields.zip values).find? fun (f, v) => f.required && v.isNone with
  | some (f, _) => failShape (.missingField f.key)
  | none => pure (.record values)

mutual

/-- Reads a value of a shape; `depth` more levels of nesting are allowed. -/
def readJson (fuel depth : Nat) (shape : Shape) : Reader Tree :=
  match fuel with
  | 0 => failHere .eofValue
  | fuel + 1 =>
    match shape with
    | .text => do
      if (← valueAhead) == '"' then
        eat
        Tree.text <$> string
      else refuse "a string"
    | .flag => do
      match ← valueAhead with
      | 't' =>
        eat
        word ['r', 'u', 'e']
        return .flag true
      | 'f' =>
        eat
        word ['a', 'l', 's', 'e']
        return .flag false
      | _ => refuse "a boolean"
    | .optional s => do
      match ← skipSpace with
      | some 'n' =>
        eat
        word ['u', 'l', 'l']
        return .absent
      | _ => readJson fuel depth s
    | .list s => do
      if (← valueAhead) == '[' then
        enter depth
        Tree.list <$> placed (closing (readItems fuel (depth - 1) true s) endArray)
      else refuse "a sequence"
    | .table s => do
      if (← valueAhead) == '{' then
        enter depth
        Tree.table <$> placed (closing (readEntries fuel (depth - 1) true s []) endObject)
      else refuse "a map"
    | .record r => do
      match ← valueAhead with
      | '[' =>
        enter depth
        Tree.record <$> placed (closing (readListed fuel (depth - 1) r 0 r.fields) endArray)
      | '{' =>
        enter depth
        let unset := r.fields.map fun _ => none
        placed (closing (readMembers fuel (depth - 1) true r unset) endObject)
      | _ => refuse ("struct " ++ r.title)
    | .oneOrMore => do
      match oneOrMore? (← Json.value fuel depth) with
      | some t => return t
      | none => failShape .noVariant

/-- Reads the items of a list. -/
def readItems (fuel depth : Nat) (first : Bool) (s : Shape) : Reader (List Tree) :=
  match fuel with
  | 0 => failHere .eofValue
  | fuel + 1 => do
    if ← hasItem first then
      let v ← readJson fuel depth s
      return v :: (← readItems fuel depth false s)
    else return []

/-- Reads the entries of a table onto those read so far. -/
def readEntries (fuel depth : Nat) (first : Bool) (s : Shape) (done : List (String × Tree)) :
    Reader (List (String × Tree)) :=
  match fuel with
  | 0 => failHere .eofValue
  | fuel + 1 => do
    if ← hasMember first then
      let key ← string
      colon
      let v ← readJson fuel depth s
      readEntries fuel depth false s (Tree.insert key v done)
    else return done

/-- Reads a record written as the list of its fields' values. -/
def readListed (fuel depth : Nat) (r : RecordName) (index : Nat) :
    List Field → Reader (List (Option Tree))
  | [] => pure []
  | f :: fields =>
    match fuel with
    | 0 => failHere .eofValue
    | fuel + 1 => do
      if ← hasItem (index == 0) then
        let v ← readJson fuel depth f.shape
        return some v :: (← readListed fuel depth r (index + 1) fields)
      else if f.required then failShape (.tooShort index r)
      else return none :: (← readListed fuel depth r (index + 1) fields)

/-- Reads the members of a record onto the values read so far. -/
def readMembers (fuel depth : Nat) (first : Bool) (r : RecordName)
    (values : List (Option Tree)) : Reader Tree :=
  match fuel with
  | 0 => failHere .eofValue
  | fuel + 1 => do
    if ← hasMember first then
      let key ← string
      match r.fieldIndex? key with
      | some i =>
        if (values[i]?.join).isSome then failShape (.duplicateField key)
        else
          colon
          let v ← readJson fuel depth ((r.fields[i]?.map Field.shape).getD .text)
          readMembers fuel depth false r (values.set i (some v))
      | none =>
        colon
        skip
        readMembers fuel depth false r values
    else complete r values

end

/-- Reads a whole JSON text as data of a shape. -/
def ofJson (shape : Shape) (text : String) : Except Defect Tree :=
  readAll (fun rest => readJson (3 * rest.length + 64) maxDepth shape rest) text

/-- Reads a whole JSON text that is an object of free data, as its members. -/
def membersOf (text : String) : Except Defect (List (String × Json)) :=
  readAll (fun rest => object (2 * rest.length + 2) rest) text
where
  /-- Reads an object. -/
  object (fuel : Nat) : Reader (List (String × Json)) := do
    if (← valueAhead) == '{' then
      enter maxDepth
      placed (closing (Json.members fuel (maxDepth - 1) true []) endObject)
    else refuse "a map"

end ResourceCli.Shape
