import ResourceCli.Text.Blank
import ResourceCli.Text.Split
import ResourceCli.Text.Word

/-!
# Flags written as numbers

Some documents write the flags `readOnly` and `required` as `0` and `1`.  Before such a document
is read, those numbers are replaced by truth values, in the text itself and only where the word is
a key: in JSON after a brace or a comma, in YAML at the start of a line of its own.  What stands
inside a longer text is left alone.
-/

namespace ResourceCli.Document

open Text

/-- The keys of flags. -/
def flagKeys : List String := ["readOnly", "required"]

/-- The truth value of a digit, as text. -/
def flagText : Char → Option (List Char)
  | '0' => some "false".toList
  | '1' => some "true".toList
  | _ => none

/-- Whether a word ends before these characters. -/
def wordEnds : List Char → Bool
  | [] => true
  | c :: _ => !isWordChar c

/-- The flag that stands as a member of a JSON object after a brace or comma: its text with a
truth value, and what follows it. -/
def jsonFlag? (cs : List Char) : Option (List Char × List Char) := do
  let blanks := cs.takeWhile isBlank
  let key ← flagKeys.find? fun key =>
    (stripStart? ('"' :: key.toList ++ ['"']) (cs.dropWhile isBlank)).isSome
  let quotedKey := '"' :: key.toList ++ ['"']
  match ((cs.dropWhile isBlank).drop quotedKey.length).dropWhile isBlank with
  | ':' :: rest =>
    match rest.dropWhile isBlank with
    | digit :: rest => do
      let value ← flagText digit
      if wordEnds rest then some (blanks ++ quotedKey ++ ':' :: value, rest) else none
    | [] => none
  | _ => none

/-- The text with its numeric JSON flags replaced; `skip` characters belong to a flag that was
replaced already. -/
def replaceJsonFlags : (skip : Nat) → List Char → List Char
  | _, [] => []
  | skip + 1, _ :: cs => replaceJsonFlags skip cs
  | 0, c :: cs =>
    if c == '{' || c == ',' then
      match jsonFlag? cs with
      | some (text, rest) => c :: (text ++ replaceJsonFlags (cs.length - rest.length) cs)
      | none => c :: replaceJsonFlags 0 cs
    else c :: replaceJsonFlags 0 cs

/-- Whether a character is a blank within a line. -/
def isLineBlank (c : Char) : Bool := c == ' ' || c == '\t'

/-- The blanks at the start of a line, and with them the dash of a list item. -/
def lineStart (cs : List Char) : List Char :=
  let blanks := cs.takeWhile isLineBlank
  match cs.dropWhile isLineBlank with
  | '-' :: rest =>
    match rest.takeWhile isLineBlank with
    | [] => blanks
    | more => blanks ++ '-' :: more
  | _ => blanks

/-- The line with a truth value, if it is a numeric YAML flag. -/
def yamlFlag? (line : List Char) : Option (List Char) := do
  let start := lineStart line
  let rest := line.drop start.length
  let key ← flagKeys.find? fun key => (stripStart? (key.toList ++ [':']) rest).isSome
  match (rest.drop (key.length + 1)).dropWhile isLineBlank with
  | digit :: rest => do
    let value ← flagText digit
    if rest.all isLineBlank then some (start ++ key.toList ++ ':' :: ' ' :: value) else none
  | [] => none

/-- The text with its numeric YAML flags replaced. -/
def replaceYamlFlags (cs : List Char) : List Char :=
  ['\n'].intercalate ((fields '\n' cs).map fun line => (yamlFlag? line).getD line)

/-- Whether a text looks like JSON: it starts with a brace. -/
def looksJson (text : String) : Bool :=
  (text.toList.dropWhile isBlank).head? == some '{'

/-- The text of a document with truth values for its numeric flags. -/
def normalizeFlags (text : String) : String :=
  let cs := replaceJsonFlags 0 text.toList
  String.ofList (if looksJson text then cs else replaceYamlFlags cs)

end ResourceCli.Document
