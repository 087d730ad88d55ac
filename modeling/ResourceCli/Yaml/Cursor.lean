/-!
# A place in a YAML text

The characters that are left, and where they start: how many characters lie before, on which line
and in which column.  A line break is one of several characters, and a carriage return with the
newline after it is one break.
-/

namespace ResourceCli.Yaml

/-- A place in a text. -/
structure Cursor where
  /-- The characters that are left. -/
  rest : List Char
  /-- The number of characters before. -/
  index : Nat := 0
  /-- The number of lines before. -/
  line : Nat := 0
  /-- The number of characters before on this line. -/
  column : Nat := 0

/-- Whether a character breaks the line. -/
def isBreak (c : Char) : Bool :=
  c == '\n' || c == '\r' || c == '\u0085' || c == '\u2028' || c == '\u2029'

/-- Whether a character is a blank within a line. -/
def isBlank (c : Char) : Bool := c == ' ' || c == '\t'

/-- Whether the text ends or a line ends. -/
def isBreakOrEnd : Option Char → Bool
  | none => true
  | some c => isBreak c

/-- Whether the text ends, or a line, or a blank stands there. -/
def isBlankOrEnd : Option Char → Bool
  | none => true
  | some c => isBreak c || isBlank c

/-- Whether a character may stand in a name. -/
def isWordChar (c : Char) : Bool := c.isAlphanum || c == '_' || c == '-'

/-- Whether a text may hold a character at all. -/
def isAllowed (c : Char) : Bool :=
  let n := c.toNat
  n == 9 || n == 10 || n == 13 || (0x20 ≤ n && n ≤ 0x7E) || n == 0x85 ||
    (0xA0 ≤ n && n ≤ 0xD7FF) || (0xE000 ≤ n && n ≤ 0xFFFD) || 0x10000 ≤ n

namespace Cursor

/-- The character that lies `n` places on. -/
def peek (c : Cursor) (n : Nat) : Option Char := c.rest[n]?

/-- Whether the character that lies `n` places on is the given one. -/
def sees (c : Cursor) (x : Char) (n : Nat := 0) : Bool := c.peek n == some x

/-- The place after the next character of the line. -/
def skip (c : Cursor) : Cursor :=
  match c.rest with
  | [] => c
  | _ :: rest => ⟨rest, c.index + 1, c.line, c.column + 1⟩

/-- The place after the next `n` characters of the line. -/
def skipN (c : Cursor) : Nat → Cursor
  | 0 => c
  | n + 1 => c.skip.skipN n

/-- The place after a line break, and the break as it counts in a text. -/
def takeBreak (c : Cursor) : List Char × Cursor :=
  match c.rest with
  | '\r' :: '\n' :: rest => (['\n'], ⟨rest, c.index + 2, c.line + 1, 0⟩)
  | x :: rest =>
    if isBreak x then
      let shown := if x == '\u2028' || x == '\u2029' then x else '\n'
      ([shown], ⟨rest, c.index + 1, c.line + 1, 0⟩)
    else ([], c)
  | [] => ([], c)

/-- The place after a line break. -/
def skipBreak (c : Cursor) : Cursor := c.takeBreak.2

/-- The place after the characters that satisfy `p`, and those characters. -/
def takeWhile (p : Char → Bool) (c : Cursor) : List Char × Cursor :=
  let taken := c.rest.takeWhile p
  let n := taken.length
  (taken, ⟨c.rest.drop n, c.index + n, c.line, c.column + n⟩)

/-- The place after the characters that satisfy `p`. -/
def skipWhile (p : Char → Bool) (c : Cursor) : Cursor := (c.takeWhile p).2

/-- Whether a line starts here with three `x` and a blank. -/
def seesMark (c : Cursor) (x : Char) : Bool :=
  c.column == 0 && c.sees x && c.sees x 1 && c.sees x 2 && isBlankOrEnd (c.peek 3)

end Cursor

end ResourceCli.Yaml
