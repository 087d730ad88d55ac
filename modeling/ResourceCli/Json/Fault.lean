import ResourceCli.Shape.Basic
import ResourceCli.Text.Utf8

/-!
# What can be wrong with a JSON text

A reader stops at the first thing that is wrong and says what it is and where: the line, from
one, and the column, in bytes.  While reading, a place is the number of bytes still ahead, which
needs no running count; `Fault.locate` turns it into a line and a column of the whole text.

Some faults are noticed before their place is known: a missing field belongs to the record, and
the record's place is where it ends.  Such a fault carries no place until the enclosing record,
list or mapping gives it one.
-/

namespace ResourceCli.Json

/-- What is wrong. -/
inductive Cause
  /-- The text ends inside an array. -/
  | eofArray
  /-- The text ends inside an object. -/
  | eofObject
  /-- The text ends inside a string. -/
  | eofString
  /-- The text ends where a value belongs. -/
  | eofValue
  /-- A colon is missing after a key. -/
  | expectedColon
  /-- An item is followed by neither comma nor bracket. -/
  | expectedItemEnd
  /-- A member is followed by neither comma nor brace. -/
  | expectedMemberEnd
  /-- A word that starts like `null`, `true` or `false` and goes on otherwise. -/
  | expectedWord
  /-- A character that starts no value. -/
  | expectedValue
  /-- A backslash that escapes nothing. -/
  | badEscape
  /-- A malformed number. -/
  | badNumber
  /-- A number beyond the largest double. -/
  | numberRange
  /-- A control character inside a string. -/
  | controlCharacter
  /-- A key that is no string. -/
  | keyNotString
  /-- Half of a pair of escapes. -/
  | loneSurrogate
  /-- A comma with nothing after it. -/
  | trailingComma
  /-- Something after the end. -/
  | trailingText
  /-- The second half of a pair of escapes is missing. -/
  | pairCutShort
  /-- Too many levels of nesting. -/
  | tooDeep
  /-- A value of another shape than the wanted one. -/
  | mismatch (m : Mismatch)

/-- The wording of a cause. -/
def Cause.message : Cause → String
  | eofArray => "EOF while parsing a list"
  | eofObject => "EOF while parsing an object"
  | eofString => "EOF while parsing a string"
  | eofValue => "EOF while parsing a value"
  | expectedColon => "expected `:`"
  | expectedItemEnd => "expected `,` or `]`"
  | expectedMemberEnd => "expected `,` or `\x7d`"
  | expectedWord => "expected ident"
  | expectedValue => "expected value"
  | badEscape => "invalid escape"
  | badNumber => "invalid number"
  | numberRange => "number out of range"
  | controlCharacter =>
    "control character (\\u0000-\\u001F) found while parsing a string"
  | keyNotString => "key must be a string"
  | loneSurrogate => "lone leading surrogate in hex escape"
  | trailingComma => "trailing comma"
  | trailingText => "trailing characters"
  | pairCutShort => "unexpected end of hex escape"
  | tooDeep => "recursion limit exceeded"
  | mismatch m => m.message

/-- A fault met while reading: its cause and, once known, how many bytes lie ahead of its
place. -/
structure Fault where
  /-- What is wrong. -/
  cause : Cause
  /-- The bytes ahead of the place, if the place is known. -/
  ahead : Option Nat

/-- A fault with its place in the text. -/
structure Defect where
  /-- What is wrong. -/
  cause : Cause
  /-- The line, from one. -/
  line : Nat
  /-- The number of bytes of the line up to the place. -/
  column : Nat

/-- The line and column that lie `offset` bytes into a text, counting on from a line and a
column. -/
def position (line column : Nat) : List Char → (offset : Nat) → Nat × Nat
  | [], _ => (line, column)
  | c :: cs, offset =>
    if offset < c.utf8Size then (line, column + offset)
    else if c == '\n' then position (line + 1) 0 cs (offset - c.utf8Size)
    else position line (column + c.utf8Size) cs (offset - c.utf8Size)

/-- A fault with its place in `text`. -/
def Fault.locate (f : Fault) (text : List Char) : Defect :=
  let total := Text.utf8Length text
  let (line, column) := position 1 0 text (total - f.ahead.getD 0)
  ⟨f.cause, line, column⟩

/-- The cause and the place, as one line. -/
def Defect.message (d : Defect) : String :=
  s!"{d.cause.message} at line {d.line} column {d.column}"

end ResourceCli.Json
