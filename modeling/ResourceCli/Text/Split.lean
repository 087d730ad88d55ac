/-!
# Cutting and joining texts

A path, a pattern or a list of settings is a text cut at one character.  Cutting is done on the
list of characters: `fields` gives the stretches between the separators, always at least one, and
`join` puts them together again.
-/

namespace ResourceCli.Text

/-- The stretches of `cs` between the occurrences of `sep`; there is always at least one. -/
def fields (sep : Char) : List Char → List (List Char)
  | [] => [[]]
  | c :: cs =>
    if c == sep then [] :: fields sep cs
    else
      match fields sep cs with
      | f :: fs => (c :: f) :: fs
      | [] => [[c]]

/-- The texts between the occurrences of a character; there is always at least one. -/
def splitAt (sep : Char) (s : String) : List String :=
  (fields sep s.toList).map String.ofList

/-- The texts joined with a separator between neighbours. -/
def join (sep : String) (parts : List String) : String := sep.intercalate parts

/-- The part before the first `sep` and the part after it, if there is one. -/
def cutFirst (sep : Char) : List Char → Option (List Char × List Char)
  | [] => none
  | c :: cs =>
    if c == sep then some ([], cs)
    else (cutFirst sep cs).map fun (before, after) => (c :: before, after)

/-- The part before the last `sep` and the part after it, if there is one. -/
def cutLast (sep : Char) : List Char → Option (List Char × List Char)
  | [] => none
  | c :: cs =>
    match cutLast sep cs with
    | some (before, after) => some (c :: before, after)
    | none => if c == sep then some ([], cs) else none

/-- What is left of `cs` after `start`, if `cs` starts with it. -/
def stripStart? (start : List Char) (cs : List Char) : Option (List Char) :=
  match start, cs with
  | [], cs => some cs
  | _ :: _, [] => none
  | a :: start, c :: cs => if a == c then stripStart? start cs else none

/-- What is left of the text after `start`, if it starts with it. -/
def stripStart (start s : String) : Option String :=
  (stripStart? start.toList s.toList).map String.ofList

/-- What is left of the text before `tail`, if it ends with it. -/
def stripEnd (tail s : String) : Option String :=
  (stripStart? tail.toList.reverse s.toList.reverse).map fun cs => String.ofList cs.reverse

/-- The text without the occurrences of `c` at its start. -/
def dropStartChar (c : Char) (s : String) : String :=
  String.ofList (s.toList.dropWhile (· == c))

/-- The text without the occurrences of `c` at its end. -/
def dropEndChar (c : Char) (s : String) : String :=
  String.ofList (s.toList.reverse.dropWhile (· == c)).reverse

/-- The lines of a text: cut after every newline, a carriage return before the newline belonging
to the cut, and no empty line after the last one. -/
def lines (s : String) : List String :=
  let all := fields '\n' s.toList
  let kept := if all.getLast? == some [] then all.dropLast else all
  kept.map fun line =>
    String.ofList (if line.getLast? == some '\r' then line.dropLast else line)

/-- The first line of a text. -/
def firstLine (s : String) : String := (lines s).headD ""

/-- Whether `needle` occurs somewhere in the list. -/
def occurs (needle : List Char) : List Char → Bool
  | [] => needle.isEmpty
  | c :: cs => (stripStart? needle (c :: cs)).isSome || occurs needle cs

end ResourceCli.Text
