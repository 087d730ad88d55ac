/-!
# Printable text

A text that comes from outside may hold control characters, and sequences of characters by which a
terminal is controlled.  What is printed leaves them out: `printable` keeps the other characters,
and of the control characters the ASCII blanks.

A sequence starts with an escape character.  What follows it says how long it is: until a letter or
a sign like one, or, for the sequences that hold a text, until the next escape character.  A blank
ends every sequence but is kept.
-/

namespace ResourceCli.Text

/-- Where in a control sequence a reader is. -/
inductive Sequence
  /-- In none. -/
  | outside
  /-- Behind the escape character. -/
  | opened
  /-- Behind the escape character and signs that lengthen the sequence. -/
  | lengthened
  /-- In a sequence that lasts until a letter or a sign like one. -/
  | control
  /-- In a sequence that holds a text and ends with a bell. -/
  | title
  /-- In another sequence that holds a text. -/
  | text
  deriving DecidableEq, Repr

/-- Whether a control character is kept: the horizontal tab, the line and form feeds, and the
carriage return. -/
def isKeptControl (c : Char) : Bool := c == '\t' || c == '\n' || c == '\x0c' || c == '\r'

/-- Whether a character stands for nothing that can be seen. -/
def isControl (c : Char) : Bool := c.toNat < 0x20 || c.toNat == 0x7F

/-- Whether the character lies between two others. -/
def within (first last : Char) (c : Char) : Bool := first ≤ c && c ≤ last

/-- Where a reader is behind a character of a sequence. -/
def Sequence.after (c : Char) : Sequence → Sequence
  | outside => outside
  | opened =>
    if c == '[' then control
    else if c == ']' then title
    else if c == 'P' || c == 'X' || c == '^' || c == '_' then text
    else if within ' ' '/' c then lengthened
    else if within '0' '~' c then outside
    else opened
  | lengthened => if within '0' '~' c then outside else lengthened
  | control => if within '@' '~' c then outside else control
  | title => if c == '\x07' then outside else title
  | text => text

/-- The characters that are printed. -/
def printableFrom (place : Sequence) : List Char → List Char
  | [] => []
  | c :: cs =>
    if c == '\x1b' then printableFrom .opened cs
    else if c == '\x18' || c == '\x1a' then printableFrom .outside cs
    else if place == .outside then
      if isControl c && !isKeptControl c then printableFrom .outside cs
      else c :: printableFrom .outside cs
    else if isKeptControl c && place != .title && place != .text then
      c :: printableFrom .outside cs
    else printableFrom (place.after c) cs

/-- What of a text is printed. -/
def printable (s : String) : String := String.ofList (printableFrom .outside s.toList)

end ResourceCli.Text
