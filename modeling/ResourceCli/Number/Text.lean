import ResourceCli.Number.Shortest

/-!
# Numbers as text

How numbers are written in data, and how the numbers on a command line are read.  A double is
written with its shortest digits, positionally while its first digit stands between the fifth
place after the point and the sixteenth before it, and with an exponent otherwise; it always
shows that it is no integer, by a point or by an exponent.
-/

namespace ResourceCli.Number

/-- The decimal digits of a number. -/
def digitsOf (n : Nat) : List Char := Nat.toDigits 10 n

/-- A list of zeros. -/
def zeros (n : Nat) : List Char := List.replicate n '0'

/-- A positive decimal as text. -/
def Decimal.text (d : Decimal) : List Char :=
  let ds := digitsOf d.digits
  let n := ds.length
  if -5 < d.point && d.point ≤ 16 then
    if d.point ≤ 0 then '0' :: '.' :: (zeros (-d.point).toNat ++ ds)
    else if (n : Int) ≤ d.point then ds ++ zeros (d.point.toNat - n) ++ ['.', '0']
    else ds.take d.point.toNat ++ '.' :: ds.drop d.point.toNat
  else
    let e := d.point - 1
    let head := match ds with
      | [] => []
      | [c] => [c]
      | c :: rest => c :: '.' :: rest
    head ++ 'e' :: (if e < 0 then '-' else '+') :: digitsOf e.natAbs

/-- A double as text. -/
def Binary64.text (x : Binary64) : List Char :=
  let body := if x.isZero then ['0', '.', '0'] else x.shortest.text
  if x.negative then '-' :: body else body

/-- An integer as text. -/
def intText (i : Int) : List Char :=
  if i < 0 then '-' :: digitsOf i.natAbs else digitsOf i.natAbs

/-- The value of a list of decimal digits. -/
def ofDigits (cs : List Char) : Nat := cs.foldl (fun n c => 10 * n + (c.toNat - '0'.toNat)) 0

/-- The double that a text on the command line may denote. -/
inductive Double
  /-- A finite number. -/
  | finite (x : Binary64)
  /-- A number beyond the largest double, or infinity by name. -/
  | infinite (negative : Bool)
  /-- Not a number, by name. -/
  | nan
  deriving DecidableEq, Inhabited

/-- Why a text is no integer of 64 bits. -/
inductive IntFault
  /-- There is nothing to read. -/
  | empty
  /-- There is something besides one sign and digits. -/
  | digit
  /-- The value is above the largest. -/
  | large
  /-- The value is below the least. -/
  | small
  deriving DecidableEq

/-- The wording of the fault. -/
def IntFault.message : IntFault → String
  | .empty => "cannot parse integer from empty string"
  | .digit => "invalid digit found in string"
  | .large => "number too large to fit in target type"
  | .small => "number too small to fit in target type"

/-- Reads digits onto `n`; the first character that is no digit or that leads above `limit` is the
fault. -/
def readDigits (limit : Nat) (beyond : IntFault) (n : Nat) : List Char → Except IntFault Nat
  | [] => .ok n
  | c :: cs =>
    if !c.isDigit then .error .digit
    else
      let next := 10 * n + (c.toNat - '0'.toNat)
      if limit < next then .error beyond else readDigits limit beyond next cs

/-- Reads an integer of 64 bits: an optional sign and digits. -/
def readInt64 (s : String) : Except IntFault Int :=
  match s.toList with
  | [] => .error .empty
  | ['-'] | ['+'] => .error .digit
  | '-' :: ds => (readDigits (Nat.pow 2 63) .small 0 ds).map fun n => -(n : Int)
  | '+' :: ds => (readDigits (Nat.pow 2 63 - 1) .large 0 ds).map Int.ofNat
  | ds => (readDigits (Nat.pow 2 63 - 1) .large 0 ds).map Int.ofNat

/-- Splits off the decimal digits at the start. -/
def spanDigits (cs : List Char) : List Char × List Char := cs.span Char.isDigit

/-- Reads an exponent: a letter `e`, an optional sign and at least one digit, or nothing. -/
def readExponent? : List Char → Option Int
  | [] => some 0
  | c :: rest =>
    if c == 'e' || c == 'E' then
      let (negative, ds) := match rest with
        | '-' :: ds => (true, ds)
        | '+' :: ds => (false, ds)
        | ds => (false, ds)
      if ds.isEmpty || !ds.all Char.isDigit then none
      else some (if negative then -(ofDigits ds : Int) else ofDigits ds)
    else none

/-- Reads an unsigned decimal with an optional point and exponent. -/
def readDecimal? (cs : List Char) : Option (Nat × Int) :=
  let (whole, rest) := spanDigits cs
  let (places, rest) := match rest with
    | '.' :: rest => spanDigits rest
    | rest => ([], rest)
  if whole.isEmpty && places.isEmpty then none
  else
    (readExponent? rest).map fun e => (ofDigits (whole ++ places), e - places.length)

/-- Reads a floating-point number: a decimal, or infinity or not-a-number by name, with an
optional sign. -/
def readDouble? (s : String) : Option Double :=
  let (negative, cs) := match s.toList with
    | '-' :: cs => (true, cs)
    | '+' :: cs => (false, cs)
    | cs => (false, cs)
  let name := String.ofList (cs.map Char.toLower)
  if name == "inf" || name == "infinity" then some (.infinite negative)
  else if name == "nan" then some .nan
  else
    (readDecimal? cs).map fun (digits, power) =>
      match Binary64.ofDecimal negative digits power with
      | some x => .finite x
      | none => .infinite negative

end ResourceCli.Number
