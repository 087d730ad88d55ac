import ResourceCli.Toml.Scan

/-!
# Numbers and dates in a TOML text

The values that are written without quotes: truth values, integers in four bases, numbers, and
dates and times of day.  Digits may be grouped by underscores between them.
-/

namespace ResourceCli.Toml

/-- Digits without the underscores between them; each underscore needs a digit on both sides. -/
def ungroup? (isDigit : Char → Bool) : List Char → Option (List Char)
  | [] => none
  | [c] => if isDigit c then some [c] else none
  | c :: '_' :: rest => if isDigit c then (ungroup? isDigit rest).map (c :: ·) else none
  | c :: rest => if isDigit c then (ungroup? isDigit rest).map (c :: ·) else none

/-- The value of digits in a base. -/
def digitsIn? (base : Nat) (cs : List Char) : Option Nat := do
  let isDigit c := ((Text.hexValue? c).getD 16) < base
  Text.digitsValue? base (← ungroup? isDigit cs)

/-- Decimal digits that do not start with a zero, unless it is the only one. -/
def decimal? (cs : List Char) : Option (List Char) := do
  let digits ← ungroup? Char.isDigit cs
  guard (digits.length == 1 || digits.head? != some '0')
  return digits

/-- The sign at the front and what follows it. -/
def splitSign : List Char → Option Char × List Char
  | '+' :: rest => (some '+', rest)
  | '-' :: rest => (some '-', rest)
  | cs => (none, cs)

/-- An integer, of those that fit into 128 bits with or without sign. -/
def integer? (cs : List Char) : Option Int := do
  let (sign, rest) := splitSign cs
  let n ← match sign, rest with
    | none, '0' :: 'x' :: digits => digitsIn? 16 digits
    | none, '0' :: 'o' :: digits => digitsIn? 8 digits
    | none, '0' :: 'b' :: digits => digitsIn? 2 digits
    | _, digits => Number.ofDigits <$> decimal? digits
  let i : Int := if sign == some '-' then -n else n
  guard (-Int.pow 2 127 ≤ i && i < Int.pow 2 128)
  return i

/-- The digits after a point, if there is one: at least one. -/
def places? : List Char → Option (List Char × List Char)
  | '.' :: rest => do
    let (digits, rest) := rest.span fun c => c.isDigit || c == '_'
    return ('.' :: (← ungroup? Char.isDigit digits), rest)
  | cs => some ([], cs)

/-- An exponent, if there is one. -/
def exponent? : List Char → Option (List Char)
  | [] => some []
  | c :: rest =>
    if c == 'e' || c == 'E' then do
      let (sign, digits) := splitSign rest
      return 'e' :: sign.toList ++ (← ungroup? Char.isDigit digits)
    else none

/-- A number with a point or an exponent, or one of the names for infinity and not-a-number. -/
def number? (cs : List Char) : Option Number.Double := do
  let (sign, rest) := splitSign cs
  if rest == ['i', 'n', 'f'] then return .infinite (sign == some '-')
  if rest == ['n', 'a', 'n'] then return .nan
  let (whole, rest) := rest.span fun c => c.isDigit || c == '_'
  let whole ← decimal? whole
  let (places, rest) ← places? rest
  let exponent ← exponent? rest
  guard (!(places ++ exponent).isEmpty)
  match Number.readDouble? (String.ofList (sign.toList ++ whole ++ places ++ exponent)) with
  | some (.finite x) => return .finite x
  | _ => failure

/-- A number of exactly so many digits at the front. -/
def fixedDigits (count : Nat) : Reader Nat := do
  let cs ← get
  let digits := cs.take count
  guard (digits.length == count && digits.all Char.isDigit)
  set (cs.drop count)
  return Number.ofDigits digits

/-- The number of days of a month. -/
def daysIn (year month : Nat) : Nat :=
  if month == 2 then
    if year % 4 == 0 && (year % 100 != 0 || year % 400 == 0) then 29 else 28
  else if [4, 6, 9, 11].contains month then 30
  else 31

/-- A date. -/
def date : Reader Unit := do
  let year ← fixedDigits 4
  expect "-"
  let month ← fixedDigits 2
  expect "-"
  let day ← fixedDigits 2
  guard (1 ≤ month && month ≤ 12 && 1 ≤ day && day ≤ daysIn year month)

/-- A time of day; its seconds may be left out. -/
def time : Reader Unit := do
  let hour ← fixedDigits 2
  expect ":"
  let minute ← fixedDigits 2
  guard (hour ≤ 23 && minute ≤ 59)
  if ← accept ":" then
    let second ← fixedDigits 2
    guard (second ≤ 60)
    if ← accept "." then
      let fraction ← spanOf Char.isDigit
      guard (!fraction.isEmpty)

/-- The distance from universal time, if it is given. -/
def offset : Reader Unit := do
  if ← acceptAny ["Z", "z"] then return
  if ← acceptAny ["+", "-"] then
    let hour ← fixedDigits 2
    expect ":"
    let minute ← fixedDigits 2
    guard (hour ≤ 23 && minute ≤ 59)

/-- A date with a time of day, a date, or a time of day. -/
def dateOrTime : Reader Unit := do
  if (← get)[2]? == some ':' then time
  else
    date
    if ← acceptAny ["T", "t", " "] then
      time
      offset

/-- Whether a text is a date, a time of day, or both. -/
def isMoment (cs : List Char) : Bool :=
  match dateOrTime cs with
  | some (_, []) => true
  | _ => false

/-- The value of characters without quotes. -/
def bareValue? (cs : List Char) : Option Toml :=
  if cs == ['t', 'r', 'u', 'e'] then some (.flag true)
  else if cs == ['f', 'a', 'l', 's', 'e'] then some (.flag false)
  else if isMoment cs then some (.moment (String.ofList cs))
  else (integer? cs).map integer <|> (number? cs).map number

/-- Whether a character may stand in a value without quotes. -/
def isBare (c : Char) : Bool :=
  c.isAlphanum || c == '_' || c == '-' || c == '+' || c == '.' || c == ':'

/-- A value without quotes; a blank may stand between a date and a time of day. -/
def bareValue : Reader Toml := do
  let cs ← spanOf isBare
  match ← get with
  | ' ' :: c :: _ =>
    if c.isDigit && cs.length == 10 && isMoment cs then
      eat
      let more ← spanOf isBare
      (bareValue? (cs ++ ' ' :: more) : Option Toml)
    else (bareValue? cs : Option Toml)
  | _ => (bareValue? cs : Option Toml)

end ResourceCli.Toml
