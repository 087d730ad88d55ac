import ResourceCli.Number.Text
import ResourceCli.Text.Hex

/-!
# JSON values and their texts

A JSON value as data, with its objects as lists of members in order, and the two texts of it: the
compact one, and the indented one with two spaces a level.  Free data keeps its members sorted by
key (`insertSorted`); documents keep theirs in the order of their fields.
-/

namespace ResourceCli.Json

open Number

/-- A number: an integer as such, anything else as a double. -/
inductive Numeral
  /-- An integer. -/
  | int (i : Int)
  /-- A number with a fraction or an exponent, or too large for an integer. -/
  | double (x : Binary64)
  deriving DecidableEq, Inhabited

end ResourceCli.Json

namespace ResourceCli

/-- A JSON value. -/
inductive Json
  /-- The value `null`. -/
  | null
  /-- `true` or `false`. -/
  | bool (b : Bool)
  /-- A number. -/
  | num (n : Json.Numeral)
  /-- A string. -/
  | str (s : String)
  /-- An array. -/
  | arr (items : List Json)
  /-- An object, its members in order. -/
  | obj (members : List (String × Json))
  deriving Inhabited

namespace Json

open Number

/-- Puts a member among members sorted by key; a member of that key is replaced. -/
def insertSorted {α : Type} (key : String) (value : α) :
    List (String × α) → List (String × α)
  | [] => [(key, value)]
  | (k, v) :: rest =>
    if key < k then (key, value) :: (k, v) :: rest
    else if key == k then (key, value) :: rest
    else (k, v) :: insertSorted key value rest

/-- A character inside a JSON string. -/
def escapeChar (c : Char) : List Char :=
  if c == '"' then ['\\', '"']
  else if c == '\\' then ['\\', '\\']
  else if c.toNat == 8 then ['\\', 'b']
  else if c.toNat == 12 then ['\\', 'f']
  else if c == '\n' then ['\\', 'n']
  else if c == '\r' then ['\\', 'r']
  else if c == '\t' then ['\\', 't']
  else if c.toNat < 0x20 then
    ['\\', 'u', '0', '0', Text.hexDigit (c.toNat / 16), Text.hexDigit (c.toNat % 16)]
  else [c]

/-- A JSON string. -/
def stringText (s : String) : List Char := '"' :: (s.toList.flatMap escapeChar ++ ['"'])

/-- The text of a number. -/
def Numeral.text : Numeral → List Char
  | .int i => intText i
  | .double x => x.text

/-- The text of a truth value. -/
def boolText (b : Bool) : List Char := (if b then "true" else "false").toList

mutual

/-- The compact text of a value. -/
def compactChars : Json → List Char
  | null => ['n', 'u', 'l', 'l']
  | bool b => boolText b
  | num n => n.text
  | str s => stringText s
  | arr items => '[' :: (compactItems items ++ [']'])
  | obj members => '{' :: (compactMembers members ++ ['}'])

/-- The items of an array, with commas between them. -/
def compactItems : List Json → List Char
  | [] => []
  | [v] => compactChars v
  | v :: rest => compactChars v ++ ',' :: compactItems rest

/-- The members of an object, with commas between them. -/
def compactMembers : List (String × Json) → List Char
  | [] => []
  | [(k, v)] => stringText k ++ ':' :: compactChars v
  | (k, v) :: rest => stringText k ++ ':' :: (compactChars v ++ ',' :: compactMembers rest)

end

/-- A line break and the indentation of a level. -/
def indent (level : Nat) : List Char := '\n' :: List.replicate (2 * level) ' '

mutual

/-- The indented text of a value that starts at a level of nesting. -/
def prettyChars (level : Nat) : Json → List Char
  | null => ['n', 'u', 'l', 'l']
  | bool b => boolText b
  | num n => n.text
  | str s => stringText s
  | arr [] => ['[', ']']
  | arr items => '[' :: (prettyItems (level + 1) items ++ (indent level ++ [']']))
  | obj [] => ['{', '}']
  | obj members => '{' :: (prettyMembers (level + 1) members ++ (indent level ++ ['}']))

/-- The items of an array, each on lines of its own. -/
def prettyItems (level : Nat) : List Json → List Char
  | [] => []
  | [v] => indent level ++ prettyChars level v
  | v :: rest => indent level ++ (prettyChars level v ++ ',' :: prettyItems level rest)

/-- The members of an object, each on lines of its own. -/
def prettyMembers (level : Nat) : List (String × Json) → List Char
  | [] => []
  | [(k, v)] => indent level ++ (stringText k ++ ':' :: ' ' :: prettyChars level v)
  | (k, v) :: rest =>
    indent level ++ (stringText k ++ ':' :: ' ' ::
      (prettyChars level v ++ ',' :: prettyMembers level rest))

end

/-- The compact text of a value. -/
def compact (v : Json) : String := String.ofList v.compactChars

/-- The indented text of a value. -/
def pretty (v : Json) : String := String.ofList (v.prettyChars 0)

end Json

end ResourceCli
