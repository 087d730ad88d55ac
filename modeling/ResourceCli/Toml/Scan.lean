import ResourceCli.Toml.Basic
import ResourceCli.Text.Hex
import ResourceCli.Text.Split

/-!
# The characters of a TOML text

Reads what the values and keys of a TOML text are made of: blanks and comments, texts in quotes,
and keys.  A reader has no value where the text is malformed; why it is does not matter.
-/

namespace ResourceCli.Toml

/-- Reads from the front of a text. -/
abbrev Reader := StateT (List Char) Option

/-- The next character, if there is one; it is not consumed. -/
def peek : Reader (Option Char) := do return (← get).head?

/-- Consumes one character. -/
def eat : Reader Unit := modify List.tail

/-- Consumes a text if it comes next, and tells whether it did. -/
def accept (text : String) : Reader Bool := do
  match Text.stripStart? text.toList (← get) with
  | some rest =>
    set rest
    return true
  | none => return false

/-- Consumes the first of some texts that comes next, and tells whether one did. -/
def acceptAny : List String → Reader Bool
  | [] => return false
  | first :: others => do
    if ← accept first then return true
    acceptAny others

/-- Consumes a text, which has to come next. -/
def expect (text : String) : Reader Unit := do
  unless ← accept text do failure

/-- Consumes the characters at the front that are of a class. -/
def spanOf (p : Char → Bool) : Reader (List Char) := do
  let (taken, rest) := (← get).span p
  set rest
  return taken

/-- Whether a character may stand in a text or a comment: control characters other than the tab
may not. -/
def isPlain (c : Char) : Bool := c == '\t' || (0x20 ≤ c.toNat && c.toNat != 0x7F)

/-- Passes over spaces and tabs. -/
def skipBlanks : Reader Unit := do discard (spanOf fun c => c == ' ' || c == '\t')

/-- Passes over a comment, if there is one. -/
def skipComment : Reader Unit := do
  if (← peek) == some '#' then discard (spanOf isPlain)

/-- Passes over a line break, if there is one, and tells whether there was. -/
def acceptBreak : Reader Bool := acceptAny ["\n", "\x0d\n"]

/-- Passes over what may follow on a line, which has to end there. -/
def endLine : Reader Unit := do
  skipBlanks
  skipComment
  unless (← get).isEmpty do
    unless ← acceptBreak do failure

/-- Passes over blanks, comments and line breaks. -/
def skipGap (fuel : Nat) : Reader Unit :=
  match fuel with
  | 0 => failure
  | fuel + 1 => do
    skipBlanks
    skipComment
    if ← acceptBreak then skipGap fuel

/-- Passes over all blanks, comments and line breaks. -/
def skipGaps : Reader Unit := fun cs => skipGap (cs.length + 1) cs

/-- The value of hexadecimal digits, of which there have to be `count`. -/
def hexDigits (count : Nat) : Reader Nat := do
  let cs ← get
  let digits ← ((cs.take count).mapM Text.hexValue? : Option (List Nat))
  guard (digits.length == count)
  set (cs.drop count)
  return digits.foldl (fun n d => 16 * n + d) 0

/-- The character with a code, which has to be one of a character. -/
def charOf (code : Nat) : Reader Char := do
  guard (code < 0xD800 || (0xDFFF < code && code < 0x110000))
  return Char.ofNat code

/-- The character that an escape stands for; the backslash is consumed already. -/
def escape : Reader Char := do
  let some c ← peek | failure
  eat
  match c with
  | 'b' => return '\x08'
  | 't' => return '\t'
  | 'n' => return '\n'
  | 'f' => return '\x0c'
  | 'r' => return '\x0d'
  | 'e' => return '\x1b'
  | '"' => return '"'
  | '\\' => return '\\'
  | 'x' => charOf (← hexDigits 2)
  | 'u' => charOf (← hexDigits 4)
  | 'U' => charOf (← hexDigits 8)
  | _ => failure

/-- The rest of a text in double quotes on one line. -/
def quotedRest (fuel : Nat) (done : List Char) : Reader String :=
  match fuel with
  | 0 => failure
  | fuel + 1 => do
    let some c ← peek | failure
    eat
    if c == '"' then return String.ofList done.reverse
    else if c == '\\' then quotedRest fuel ((← escape) :: done)
    else if isPlain c then quotedRest fuel (c :: done)
    else failure

/-- A text in double quotes on one line; the first quote is consumed already. -/
def quoted : Reader String := fun cs => quotedRest (cs.length + 1) [] cs

/-- A text in single quotes on one line; the first quote is consumed already. -/
def literal : Reader String := do
  let cs ← spanOf fun c => isPlain c && c != '\''
  expect "'"
  return String.ofList cs

/-- What quotes at the end of a text over several lines come to: how many of them belong to it, if
it ends there. -/
def closing? (count : Nat) : Option Nat := if count < 3 then none else some (count - 3)

/-- What is left after the blanks and line breaks at the front. -/
def dropBlankLines : List Char → List Char
  | ' ' :: cs | '\t' :: cs | '\n' :: cs => dropBlankLines cs
  | '\x0d' :: '\n' :: cs => dropBlankLines cs
  | cs => cs

/-- Passes over a backslash at the end of a line, with all blanks and line breaks after it, and
tells whether there was one. -/
def acceptFold : Reader Bool := fun cs =>
  match cs with
  | '\\' :: rest =>
    let after := rest.dropWhile fun c => c == ' ' || c == '\t'
    let isBreak := match after with
      | '\n' :: _ => true
      | '\x0d' :: '\n' :: _ => true
      | _ => false
    if isBreak then some (true, dropBlankLines after) else some (false, cs)
  | _ => some (false, cs)

/-- The rest of a text over several lines between threefold quotes; only in one between double
quotes are there escapes. -/
def linesRest (quote : Char) (fuel : Nat) (done : List Char) : Reader String :=
  match fuel with
  | 0 => failure
  | fuel + 1 => do
    let quotes ← spanOf (· == quote)
    match closing? quotes.length with
    | some inside =>
      guard (inside ≤ 2)
      return String.ofList (List.replicate inside quote ++ done).reverse
    | none =>
      let done := quotes ++ done
      let folds ← if quote == '"' then acceptFold else pure false
      if folds then linesRest quote fuel done
      else
        let some c ← peek | failure
        if c == '\x0d' then
          expect "\x0d\n"
          linesRest quote fuel ('\n' :: '\x0d' :: done)
        else
          eat
          if c == '\\' && quote == '"' then linesRest quote fuel ((← escape) :: done)
          else if isPlain c || c == '\n' then linesRest quote fuel (c :: done)
          else failure

/-- A text over several lines; the first three quotes are consumed already, and a line break right
after them does not belong to it. -/
def overLines (quote : Char) : Reader String := do
  discard acceptBreak
  let fuel := (← get).length + 1
  linesRest quote fuel []

/-- A key without dots. -/
def simpleKey : Reader String := do
  if ← accept "\"" then quoted
  else if ← accept "'" then literal
  else
    let cs ← spanOf isKeyChar
    guard (!cs.isEmpty)
    return String.ofList cs

/-- The keys that follow dots. -/
def keysRest (fuel : Nat) : Reader (List String) :=
  match fuel with
  | 0 => failure
  | fuel + 1 => do
    skipBlanks
    if ← accept "." then
      skipBlanks
      let key ← simpleKey
      return key :: (← keysRest fuel)
    else return []

/-- A key, dotted or not, with the blanks after it. -/
def dottedKey : Reader (List String) := do
  let key ← simpleKey
  let fuel := (← get).length + 1
  return key :: (← keysRest fuel)

end ResourceCli.Toml
