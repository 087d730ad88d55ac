import ResourceCli.Json.Basic
import ResourceCli.Json.Fault

/-!
# The pieces of a JSON text

Strings, numbers, words and the punctuation of arrays and objects, each read off the front of the
characters that are left.  A reader is a function on what is left; it gives back a value and the
new rest, or a fault.

Integers that fit sixty-four bits stay integers.  Any other number is its leading digits, as many
as fit sixty-four bits, times a power of ten, computed in doubles.
-/

namespace ResourceCli.Json

open Number

/-- A reader of JSON text: it takes characters off the front or meets a fault. -/
abbrev Reader := EStateM Fault (List Char)

/-- A fault whose place is the current one. -/
def failHere {α : Type} (c : Cause) : Reader α :=
  fun rest => .error ⟨c, some (Text.utf8Length rest)⟩ rest

/-- A fault whose place is just after the next byte. -/
def failAhead {α : Type} (c : Cause) : Reader α :=
  fun rest => .error ⟨c, some (Text.utf8Length rest - 1)⟩ rest

/-- A mismatch whose place is yet to be found. -/
def failShape {α : Type} (m : Mismatch) : Reader α := throw ⟨.mismatch m, none⟩

/-- Gives a fault without a place the current one. -/
def placed {α : Type} (r : Reader α) : Reader α := fun rest =>
  match r rest with
  | .error ⟨c, none⟩ rest => .error ⟨c, some (Text.utf8Length rest)⟩ rest
  | outcome => outcome

/-- Runs a closing step after a reader, also when the reader met a fault; the reader's fault goes
before that of the closing step. -/
def closing {α : Type} (r : Reader α) (close : Reader Unit) : Reader α := fun rest =>
  match r rest with
  | .ok a rest =>
    match close rest with
    | .ok _ rest => .ok a rest
    | .error f rest => .error f rest
  | .error f rest =>
    match close rest with
    | .ok _ rest => .error f rest
    | .error _ rest => .error f rest

/-- The next character, left where it is. -/
def peek : Reader (Option Char) := fun rest => .ok rest.head? rest

/-- Drops the next character. -/
def eat : Reader Unit := modify List.tail

/-- Whether a character separates the pieces of a JSON text. -/
def isSpace (c : Char) : Bool := c == ' ' || c == '\n' || c == '\t' || c == '\r'

/-- Drops white space; the next character after it is left where it is. -/
def skipSpace : Reader (Option Char) := do
  modify (List.dropWhile isSpace)
  peek

/-- Reads the rest of a word. -/
def word : List Char → Reader Unit
  | [] => pure ()
  | c :: cs => do
    match ← peek with
    | none => failHere .eofValue
    | some d =>
      if c == d then
        eat
        word cs
      else failAhead .expectedWord

/-! ## Strings -/

/-- Reads the four hexadecimal digits of an escape. -/
def hexEscape : Reader Nat := fun rest =>
  match rest with
  | a :: b :: c :: d :: after =>
    match Text.hexValue? a, Text.hexValue? b, Text.hexValue? c, Text.hexValue? d with
    | some a, some b, some c, some d => .ok (((a * 16 + b) * 16 + c) * 16 + d) after
    | _, _, _, _ => .error ⟨.badEscape, some (Text.utf8Length rest - 4)⟩ rest
  | _ =>
    let n := Text.utf8Length rest
    if n < 4 then .error ⟨.eofString, some 0⟩ []
    else .error ⟨.badEscape, some (n - 4)⟩ rest

/-- Whether a code unit is the first half of a pair. -/
def isHighSurrogate (n : Nat) : Bool := 0xD800 ≤ n && n ≤ 0xDBFF

/-- Whether a code unit is the second half of a pair. -/
def isLowSurrogate (n : Nat) : Bool := 0xDC00 ≤ n && n ≤ 0xDFFF

/-- Requires a character of the second half of a pair of escapes. -/
def pairChar (wanted : Char) : Reader Unit := do
  match ← peek with
  | none => failHere .eofString
  | some c => if c == wanted then eat else failAhead .pairCutShort

/-- Reads an escape by number, after its `u`. -/
def unicodeEscape : Reader Char := do
  let n ← hexEscape
  if isLowSurrogate n then failHere .loneSurrogate
  else if isHighSurrogate n then
    pairChar '\\'
    pairChar 'u'
    let m ← hexEscape
    if isLowSurrogate m then
      return Char.ofNat (0x10000 + (n - 0xD800) * 0x400 + (m - 0xDC00))
    else failHere .loneSurrogate
  else return Char.ofNat n

/-- The character of an escape by letter. -/
def letterEscape? (c : Char) : Option Char :=
  match c with
  | '"' => some '"'
  | '\\' => some '\\'
  | '/' => some '/'
  | 'b' => some (Char.ofNat 8)
  | 'f' => some (Char.ofNat 12)
  | 'n' => some '\n'
  | 'r' => some '\r'
  | 't' => some '\t'
  | _ => none

/-- Reads an escape, after its backslash. -/
def escape : Reader Char := do
  match ← peek with
  | none => failHere .eofString
  | some 'u' =>
    eat
    unicodeEscape
  | some c =>
    match letterEscape? c with
    | some d =>
      eat
      return d
    | none => failAhead .badEscape

/-- Reads the characters of a string up to its closing quote, onto those read so far in reverse. -/
def stringRest (fuel : Nat) (done : List Char) : Reader String :=
  match fuel with
  | 0 => failHere .eofString
  | fuel + 1 => do
    match ← peek with
    | none => failHere .eofString
    | some '"' =>
      eat
      return String.ofList done.reverse
    | some '\\' =>
      eat
      let c ← escape
      stringRest fuel (c :: done)
    | some c =>
      if c.toNat < 0x20 then failAhead .controlCharacter
      else
        eat
        stringRest fuel (c :: done)

/-- Reads a string, after its opening quote. -/
def string : Reader String := fun rest => stringRest (rest.length + 1) [] rest

/-- Passes over an escape, after its backslash. -/
def skipEscape : Reader Unit := do
  match ← peek with
  | none => failHere .eofString
  | some 'u' =>
    eat
    let _ ← hexEscape
  | some c => if (letterEscape? c).isSome then eat else failAhead .badEscape

/-- Passes over a string up to and with its closing quote. -/
def skipStringRest (fuel : Nat) : Reader Unit :=
  match fuel with
  | 0 => failHere .eofString
  | fuel + 1 => do
    match ← peek with
    | none => failHere .eofString
    | some '"' => eat
    | some '\\' =>
      eat
      skipEscape
      skipStringRest fuel
    | some c =>
      if c.toNat < 0x20 then failHere .controlCharacter
      else
        eat
        skipStringRest fuel

/-- Passes over a string, after its opening quote. -/
def skipString : Reader Unit := fun rest => skipStringRest (rest.length + 1) rest

/-! ## Numbers -/

/-- The largest number of leading digits' value. -/
def maxSignificand : Nat := Nat.pow 2 64 - 1

/-- Reads digits onto a significand while it stays within sixty-four bits: the significand, how
many digits were read, the rest, and whether a digit was left because it does not fit. -/
def scanDigits (significand count : Nat) : List Char → Nat × Nat × List Char × Bool
  | [] => (significand, count, [], false)
  | c :: cs =>
    if c.isDigit then
      let next := significand * 10 + (c.toNat - '0'.toNat)
      if maxSignificand < next then (significand, count, c :: cs, true)
      else scanDigits next (count + 1) cs
    else (significand, count, c :: cs, false)

/-- `significand * 10 ^ power` in doubles, the power taken in steps that a double holds. -/
def scale (x : Binary64) (power : Int) : Nat → Option Binary64
  | 0 => some (Binary64.zero false)
  | fuel + 1 =>
    if power.natAbs ≤ 308 then
      if 0 ≤ power then x.mul (Binary64.tenTo power.toNat)
      else x.div (Binary64.tenTo (-power).toNat)
    else if x.isZero then some x
    else if 0 ≤ power then none
    else
      match x.div (Binary64.tenTo 308) with
      | some y => scale y (power + 308) fuel
      | none => none

/-- The number of a significand and a power of ten. -/
def doubleOf (positive : Bool) (significand : Nat) (power : Int) : Reader Numeral :=
  match scale (Binary64.ofNat significand) power 8 with
  | some x => pure (.double (if positive then x else x.negate))
  | none => failHere .numberRange

/-- Reads the digits of an exponent onto those read so far; none when they pass thirty-two bits. -/
def exponentDigits (e : Nat) : List Char → Option Nat × List Char
  | [] => (some e, [])
  | c :: cs =>
    if c.isDigit then
      let next := e * 10 + (c.toNat - '0'.toNat)
      if Nat.pow 2 31 - 1 < next then (none, cs) else exponentDigits next cs
    else (some e, c :: cs)

/-- Reads an exponent, after its letter, and makes the number. -/
def exponentRest (positive : Bool) (significand : Nat) (power : Int) : Reader Numeral := do
  let up ← (do
    match ← peek with
    | some '+' =>
      eat
      return true
    | some '-' =>
      eat
      return false
    | _ => return true : Reader Bool)
  match ← peek with
  | none => failHere .eofValue
  | some c =>
    if !c.isDigit then failAhead .badNumber
    else
      let rest ← get
      let (e, after) := exponentDigits 0 rest
      set after
      match e with
      | some e => doubleOf positive significand (if up then power + e else power - e)
      | none =>
        if significand != 0 && up then failHere .numberRange
        else
          modify (List.dropWhile Char.isDigit)
          return .double (Binary64.zero (!positive))

/-- Reads an exponent if there is one and makes the number. -/
def exponentOrEnd (positive : Bool) (significand : Nat) (power : Int) : Reader Numeral := do
  match ← peek with
  | some 'e' | some 'E' =>
    eat
    exponentRest positive significand power
  | _ => doubleOf positive significand power

/-- Reads the places after a point and makes the number. -/
def fractionRest (positive : Bool) (significand : Nat) (power : Int) : Reader Numeral := do
  let (significand, count, rest, full) := scanDigits significand 0 (← get)
  set rest
  if full then
    modify (List.dropWhile Char.isDigit)
    exponentOrEnd positive significand (power - count)
  else if count == 0 then
    failAhead (if rest.isEmpty then .eofValue else .badNumber)
  else exponentOrEnd positive significand (power - count)

/-- Reads on after the digits before the point, when all of them fitted. -/
def wholeRest (positive : Bool) (significand : Nat) : Reader Numeral := do
  match ← peek with
  | some '.' =>
    eat
    fractionRest positive significand 0
  | some 'e' | some 'E' =>
    eat
    exponentRest positive significand 0
  | _ =>
    if positive then return .int significand
    else if significand == 0 || Nat.pow 2 63 < significand then
      return .double (Binary64.ofNat significand).negate
    else return .int (-(significand : Int))

/-- Reads on after the digits that fitted, when more digits follow. -/
def longRest (positive : Bool) (significand : Nat) : Reader Numeral := do
  let rest ← get
  let power := (rest.takeWhile Char.isDigit).length
  set (rest.dropWhile Char.isDigit)
  match ← peek with
  | some '.' =>
    eat
    fractionRest positive significand power
  | some 'e' | some 'E' =>
    eat
    exponentRest positive significand power
  | _ => doubleOf positive significand power

/-- Reads a number, after its sign. -/
def number (positive : Bool) : Reader Numeral := do
  match ← peek with
  | none => failHere .eofValue
  | some '0' =>
    eat
    match ← peek with
    | some c => if c.isDigit then failAhead .badNumber else wholeRest positive 0
    | none => wholeRest positive 0
  | some c =>
    if !c.isDigit then failAhead .badNumber
    else
      let (significand, _, rest, full) := scanDigits 0 0 (← get)
      set rest
      if full then longRest positive significand else wholeRest positive significand

/-- Passes over an exponent, after its letter. -/
def skipExponent : Reader Unit := do
  match ← peek with
  | some '+' | some '-' => eat
  | _ => pure ()
  match ← peek with
  | some c =>
    if c.isDigit then modify (List.dropWhile Char.isDigit) else failAhead .badNumber
  | none => failHere .badNumber

/-- Passes over an exponent if there is one. -/
def skipExponentOrEnd : Reader Unit := do
  match ← peek with
  | some 'e' | some 'E' =>
    eat
    skipExponent
  | _ => pure ()

/-- Passes over a number, after its sign. -/
def skipNumber : Reader Unit := do
  match ← peek with
  | none => failHere .badNumber
  | some '0' =>
    eat
    match ← peek with
    | some c => if c.isDigit then failAhead .badNumber
    | none => pure ()
  | some c =>
    if c.isDigit then modify (List.dropWhile Char.isDigit) else failAhead .badNumber
  match ← peek with
  | some '.' =>
    eat
    let rest ← get
    if (rest.takeWhile Char.isDigit).isEmpty then failAhead .badNumber
    else
      set (rest.dropWhile Char.isDigit)
      skipExponentOrEnd
  | _ => skipExponentOrEnd

/-! ## Punctuation -/

/-- Ends an array. -/
def endArray : Reader Unit := do
  match ← skipSpace with
  | some ']' => eat
  | some ',' =>
    eat
    match ← skipSpace with
    | some ']' => failAhead .trailingComma
    | _ => failAhead .trailingText
  | some _ => failAhead .trailingText
  | none => failAhead .eofArray

/-- Ends an object. -/
def endObject : Reader Unit := do
  match ← skipSpace with
  | some '}' => eat
  | some ',' => failAhead .trailingComma
  | some _ => failAhead .trailingText
  | none => failAhead .eofObject

/-- Whether another item follows in an array; the comma before it is dropped. -/
def hasItem (first : Bool) : Reader Bool := do
  match ← skipSpace with
  | none => failAhead .eofArray
  | some ']' => return false
  | some c =>
    if first then return true
    else if c == ',' then
      eat
      match ← skipSpace with
      | some ']' => failAhead .trailingComma
      | some _ => return true
      | none => failAhead .eofValue
    else failAhead .expectedItemEnd

/-- Whether another member follows in an object; the comma before it is dropped, and so is the
opening quote of its key. -/
def hasMember (first : Bool) : Reader Bool := do
  match ← skipSpace with
  | none => failAhead .eofObject
  | some '}' => return false
  | some c =>
    if first then
      if c == '"' then
        eat
        return true
      else failAhead .keyNotString
    else if c == ',' then
      eat
      match ← skipSpace with
      | some '"' =>
        eat
        return true
      | some '}' => failAhead .trailingComma
      | some _ => failAhead .keyNotString
      | none => failAhead .eofValue
    else failAhead .expectedMemberEnd

/-- Reads the colon after a key. -/
def colon : Reader Unit := do
  match ← skipSpace with
  | some ':' => eat
  | some _ => failAhead .expectedColon
  | none => failAhead .eofObject

/-- How many levels of arrays and objects a text may have. -/
def maxDepth : Nat := 127

/-- Enters an array or an object, unless it is nested too deeply. -/
def enter (depth : Nat) : Reader Unit :=
  if depth == 0 then failAhead .tooDeep else eat

/-! ## Values that nobody asked for -/

/-- An array or an object that is open. -/
inductive Frame
  /-- An array. -/
  | array
  /-- An object. -/
  | object
  deriving DecidableEq

/-- Leaves the frames that end here: gives back the frames that are still open and go on after a
comma, or none when the outermost value is over. -/
def leaveFrames (acceptComma : Bool) : List Frame → Reader (List Frame)
  | [] => pure []
  | frame :: outer => do
    match frame, ← skipSpace with
    | .array, some ']' =>
      eat
      leaveFrames true outer
    | .object, some '}' =>
      eat
      leaveFrames true outer
    | _, some c =>
      if acceptComma then
        if c == ',' then
          eat
          return frame :: outer
        else
          failAhead (match frame with
            | .array => .expectedItemEnd
            | .object => .expectedMemberEnd)
      else return frame :: outer
    | .array, none => failAhead .eofArray
    | .object, none => failAhead .eofObject

/-- Passes over the key of the next member. -/
def skipKey : Reader Unit := do
  match ← skipSpace with
  | some '"' => eat
  | some _ => failAhead .keyNotString
  | none => failAhead .eofObject
  skipString
  match ← skipSpace with
  | some ':' => eat
  | some _ => failAhead .expectedColon
  | none => failAhead .eofObject

/-- Passes over a value inside the open frames, and on to the end of the outermost frame.  A value
that nobody asked for may be nested to any depth. -/
def skipValue (fuel : Nat) (frames : List Frame) : Reader Unit :=
  match fuel with
  | 0 => failHere .eofValue
  | fuel + 1 => do
    let opened ← (do
      match ← skipSpace with
      | none => failAhead .eofValue
      | some 'n' =>
        eat
        word ['u', 'l', 'l']
        return none
      | some 't' =>
        eat
        word ['r', 'u', 'e']
        return none
      | some 'f' =>
        eat
        word ['a', 'l', 's', 'e']
        return none
      | some '-' =>
        eat
        skipNumber
        return none
      | some '"' =>
        eat
        skipString
        return none
      | some '[' =>
        eat
        return some .array
      | some '{' =>
        eat
        return some .object
      | some c =>
        if c.isDigit then
          skipNumber
          return none
        else failAhead .expectedValue : Reader (Option Frame))
    let frames ← match opened with
      | some frame => leaveFrames false (frame :: frames)
      | none => leaveFrames true frames
    match frames with
    | [] => pure ()
    | .object :: _ =>
      skipKey
      skipValue fuel frames
    | .array :: _ => skipValue fuel frames

/-- Passes over one value. -/
def skip : Reader Unit := fun rest => skipValue (rest.length + 1) [] rest

end ResourceCli.Json
