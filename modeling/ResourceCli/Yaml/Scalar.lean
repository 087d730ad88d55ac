import ResourceCli.Text.Hex
import ResourceCli.Yaml.Cursor

/-!
# Scalars

The three ways to write a text in YAML: plain, in quotes, and as a block of lines.  All of them
may run over several lines, and all but the literal block fold a single line break into a space
while several breaks keep all but the first.
-/

namespace ResourceCli.Yaml

/-- The text of a scalar while it is put together, its characters in reverse, and what has been
read since its last character: blanks on the line, the first line break, and the breaks after
it. -/
structure Folding where
  /-- The text so far, in reverse. -/
  text : List Char := []
  /-- The blanks since the last character. -/
  blanks : List Char := []
  /-- The first line break since the last character. -/
  firstBreak : List Char := []
  /-- The line breaks after the first one. -/
  moreBreaks : List Char := []
  /-- Whether a line has been broken since the last character. -/
  broken : Bool := false

namespace Folding

/-- Adds characters at the end. -/
def add (f : Folding) (cs : List Char) : Folding := { f with text := cs.reverse ++ f.text }

/-- Settles what lies between the last character and the next one: blanks stay, one newline
becomes a space, of several the first is dropped, and any other break stays. -/
def join (f : Folding) : Folding :=
  let between :=
    if f.broken then
      if f.firstBreak == ['\n'] then
        if f.moreBreaks.isEmpty then [' '] else f.moreBreaks
      else f.firstBreak ++ f.moreBreaks
    else f.blanks
  { text := between.reverse ++ f.text }

/-- Takes in the blanks and line breaks ahead. -/
def takeSpace (f : Folding) (c : Cursor) : (fuel : Nat) → Folding × Cursor
  | 0 => (f, c)
  | fuel + 1 =>
    match c.peek 0 with
    | none => (f, c)
    | some x =>
      if isBlank x then
        if f.broken then takeSpace f c.skip fuel
        else takeSpace { f with blanks := f.blanks ++ [x] } c.skip fuel
      else if isBreak x then
        let (b, c') := c.takeBreak
        if f.broken then takeSpace { f with moreBreaks := f.moreBreaks ++ b } c' fuel
        else takeSpace { f with blanks := [], firstBreak := b, broken := true } c' fuel
      else (f, c)

end Folding

/-! ## Plain scalars -/

/-- Whether a plain scalar ends before the characters ahead. -/
def endsPlain (inFlow : Bool) (c : Cursor) : Bool :=
  (c.sees ':' && isBlankOrEnd (c.peek 1)) ||
    (inFlow && (c.sees ',' || c.sees '[' || c.sees ']' || c.sees '{' || c.sees '}'))

/-- Whether a colon stands where no plain scalar in a flow collection may hold one. -/
def badColon (inFlow : Bool) (c : Cursor) : Bool :=
  inFlow && c.sees ':' &&
    (c.sees ',' 1 || c.sees '?' 1 || c.sees '[' 1 || c.sees ']' 1 || c.sees '{' 1 ||
      c.sees '}' 1)

/-- Reads the characters of a plain scalar up to a blank, a break or its end. -/
def plainWord (inFlow : Bool) (f : Folding) (c : Cursor) :
    (fuel : Nat) → Option (Folding × Cursor)
  | 0 => some (f, c)
  | fuel + 1 =>
    match c.peek 0 with
    | none => some (f, c)
    | some x =>
      if isBreak x || isBlank x then some (f, c)
      else if badColon inFlow c then none
      else if endsPlain inFlow c then some (f, c)
      else plainWord inFlow ((if f.broken || !f.blanks.isEmpty then f.join else f).add [x])
        c.skip fuel

/-- Whether the blanks ahead hold a tab before the column that the scalar's lines need. -/
def tabInIndent (indent : Nat) (c : Cursor) (broken : Bool) : (fuel : Nat) → Bool
  | 0 => false
  | fuel + 1 =>
    match c.peek 0 with
    | none => false
    | some x =>
      if isBlank x then
        (broken && c.column < indent && x == '\t') || tabInIndent indent c.skip broken fuel
      else if isBreak x then tabInIndent indent c.skipBreak true fuel
      else false

/-- A plain scalar: its text, whether a line was broken after its last character, and the place
after it.  In a block its lines have to reach the column `indent`. -/
def plain (inFlow : Bool) (indent : Nat) (f : Folding) (c : Cursor) :
    (fuel : Nat) → Option (String × Bool × Cursor)
  | 0 => none
  | fuel + 1 =>
    let finish (f : Folding) (c : Cursor) :=
      some (String.ofList f.text.reverse, f.broken, c)
    if c.seesMark '-' || c.seesMark '.' || c.sees '#' then finish f c
    else
      match plainWord inFlow f c (c.rest.length + 1) with
      | none => none
      | some (f, c) =>
        match c.peek 0 with
        | none => finish f c
        | some x =>
          if !(isBlank x || isBreak x) then finish f c
          else if tabInIndent indent c f.broken (c.rest.length + 1) then none
          else
            let (f, c) := f.takeSpace c (c.rest.length + 1)
            if !inFlow && c.column < indent then finish f c
            else plain inFlow indent f c fuel

/-! ## Quoted scalars -/

/-- The character of an escape by letter. -/
def letterEscape? : Char → Option Char
  | '0' => some (Char.ofNat 0)
  | 'a' => some (Char.ofNat 7)
  | 'b' => some (Char.ofNat 8)
  | 't' | '\t' => some '\t'
  | 'n' => some '\n'
  | 'v' => some (Char.ofNat 11)
  | 'f' => some (Char.ofNat 12)
  | 'r' => some '\r'
  | 'e' => some (Char.ofNat 27)
  | ' ' => some ' '
  | '"' => some '"'
  | '/' => some '/'
  | '\\' => some '\\'
  | 'N' => some '\u0085'
  | '_' => some '\u00A0'
  | 'L' => some '\u2028'
  | 'P' => some '\u2029'
  | _ => none

/-- The number of hexadecimal digits after an escape by number. -/
def escapeWidth? : Char → Option Nat
  | 'x' => some 2
  | 'u' => some 4
  | 'U' => some 8
  | _ => none

/-- The value of hexadecimal digits, if there are `n` of them. -/
def hexNumber? (cs : List Char) (n : Nat) : Option Nat :=
  if cs.length < n then none
  else (cs.take n).foldlM (fun acc c => (Text.hexValue? c).map (acc * 16 + ·)) 0

/-- The character of a code point, if it is one. -/
def charOf? (n : Nat) : Option Char :=
  if (0xD800 ≤ n && n ≤ 0xDFFF) || 0x10FFFF < n then none else some (Char.ofNat n)

/-- An escape, from its backslash on: its character and the place after it. -/
def escape? (c : Cursor) : Option (Char × Cursor) :=
  match c.peek 1 with
  | none => none
  | some x =>
    match escapeWidth? x with
    | some n =>
      match (hexNumber? (c.rest.drop 2) n).bind charOf? with
      | some y => some (y, c.skipN (2 + n))
      | none => none
    | none => (letterEscape? x).map fun y => (y, c.skipN 2)

/-- Reads the characters of a quoted scalar up to a blank, a break or its closing quote; an
escaped line break ends the line and leaves no trace. -/
def quotedWord (single : Bool) (f : Folding) (c : Cursor) :
    (fuel : Nat) → Option (Folding × Cursor)
  | 0 => none
  | fuel + 1 =>
    match c.peek 0 with
    | none => some (f, c)
    | some x =>
      if isBreak x || isBlank x then some (f, c)
      else if single then
        if x == '\'' then
          if c.sees '\'' 1 then quotedWord single (f.add ['\'']) (c.skipN 2) fuel
          else some (f, c)
        else quotedWord single (f.add [x]) c.skip fuel
      else if x == '"' then some (f, c)
      else if x == '\\' then
        if (c.peek 1).any isBreak then some ({ f with broken := true }, c.skip.skipBreak)
        else
          match escape? c with
          | some (y, c) => quotedWord single (f.add [y]) c fuel
          | none => none
      else quotedWord single (f.add [x]) c.skip fuel

/-- What lies between two words of a quoted scalar, where an escaped line break has left no first
break to fold. -/
def Folding.joinQuoted (f : Folding) : Folding :=
  if f.broken && f.firstBreak.isEmpty then { text := f.moreBreaks.reverse ++ f.text }
  else f.join

/-- A quoted scalar, after its opening quote: its text and the place after the closing quote. -/
def quotedRest (single : Bool) (f : Folding) (c : Cursor) :
    (fuel : Nat) → Option (String × Cursor)
  | 0 => none
  | fuel + 1 =>
    if c.seesMark '-' || c.seesMark '.' || (c.peek 0).isNone then none
    else
      match quotedWord single f c (c.rest.length + 1) with
      | none => none
      | some (f, c) =>
        if c.sees (if single then '\'' else '"') then
          some (String.ofList f.text.reverse, c.skip)
        else
          let (f, c) := f.takeSpace c (c.rest.length + 1)
          quotedRest single f.joinQuoted c fuel

/-- A quoted scalar, from its opening quote on. -/
def quotedScalar (single : Bool) (c : Cursor) : Option (String × Cursor) :=
  quotedRest single {} c.skip (c.rest.length + 1)

/-! ## Block scalars -/

/-- What becomes of the line breaks at the end of a block. -/
inductive Chomping
  /-- None is kept. -/
  | strip
  /-- One is kept. -/
  | clip
  /-- All are kept. -/
  | keep
  deriving DecidableEq

/-- The header of a block: its chomping and its indentation, if that is given. -/
def blockHeader (c : Cursor) : Option (Chomping × Option Nat × Cursor) :=
  let chomp? (c : Cursor) : Option (Chomping × Cursor) :=
    if c.sees '+' then some (.keep, c.skip)
    else if c.sees '-' then some (.strip, c.skip)
    else none
  let digit? (c : Cursor) : Option (Option Nat × Cursor) :=
    match c.peek 0 with
    | some d =>
      if d == '0' then none
      else if d.isDigit then some (some (d.toNat - '0'.toNat), c.skip)
      else some (none, c)
    | none => some (none, c)
  match chomp? c with
  | some (ch, c) => (digit? c).map fun (d, c) => (ch, d, c)
  | none =>
    match digit? c with
    | none => none
    | some (d, c) =>
      if d.isSome then
        match chomp? c with
        | some (ch, c) => some (ch, d, c)
        | none => some (.clip, d, c)
      else some (.clip, d, c)

/-- The empty lines and the indentation ahead in a block: the breaks in order, the deepest column
that was reached, and the place after them.  With no indentation known yet, all spaces count as
indentation. -/
def blockBreaks (indent : Option Nat) (breaks : List Char) (deepest : Nat) (c : Cursor) :
    (fuel : Nat) → Option (List Char × Nat × Cursor)
  | 0 => none
  | fuel + 1 =>
    let room := match indent with
      | none => c.rest.length
      | some n => n - c.column
    let c := c.skipN ((c.rest.take room).takeWhile (· == ' ')).length
    let deepest := max deepest c.column
    let inIndent := match indent with
      | none => true
      | some n => c.column < n
    if inIndent && c.sees '\t' then none
    else if (c.peek 0).any isBreak then
      let (b, c) := c.takeBreak
      blockBreaks indent (breaks ++ b) deepest c fuel
    else some (breaks, deepest, c)

/-- The lines of a block, onto the text so far: the last line break and the breaks after it are
held back. -/
def blockLines (literal : Bool) (indent : Nat) (text lastBreak moreBreaks : List Char)
    (afterBlank : Bool) (c : Cursor) :
    (fuel : Nat) → Option (List Char × List Char × List Char × Cursor)
  | 0 => none
  | fuel + 1 =>
    match c.peek 0 with
    | none => some (text, lastBreak, moreBreaks, c)
    | some x =>
      if c.column != indent then some (text, lastBreak, moreBreaks, c)
      else
        let blank := isBlank x
        let folds := !literal && lastBreak == ['\n'] && !afterBlank && !blank
        let between :=
          if folds then if moreBreaks.isEmpty then [' '] else moreBreaks
          else lastBreak ++ moreBreaks
        let (line, c) := c.takeWhile (!isBreak ·)
        let (b, c) := c.takeBreak
        match blockBreaks (some indent) [] 0 c (c.rest.length + 1) with
        | none => none
        | some (breaks, _, c) =>
          blockLines literal indent (line.reverse ++ (between.reverse ++ text)) b breaks blank c
            fuel

/-- A block scalar, from its indicator on: its text and the place after it.  `parent` is the
column of the collection it stands in. -/
def block (literal : Bool) (parent : Int) (c : Cursor) : Option (String × Cursor) :=
  match blockHeader c.skip with
  | none => none
  | some (chomping, given, c) =>
    let c := c.skipWhile isBlank
    let c := if c.sees '#' then c.skipWhile (!isBreak ·) else c
    if !isBreakOrEnd (c.peek 0) then none
    else
      let c := c.skipBreak
      let given := given.map fun n => if 0 ≤ parent then parent.toNat + n else n
      match blockBreaks given [] 0 c (c.rest.length + 1) with
      | none => none
      | some (breaks, deepest, c) =>
        let indent := given.getD (max (max deepest (parent + 1).toNat) 1)
        match blockLines literal indent [] [] breaks false c (c.rest.length + 1) with
        | none => none
        | some (text, lastBreak, moreBreaks, c) =>
          let tail := match chomping with
            | .strip => []
            | .clip => lastBreak
            | .keep => lastBreak ++ moreBreaks
          some (String.ofList (text.reverse ++ tail), c)

end ResourceCli.Yaml
