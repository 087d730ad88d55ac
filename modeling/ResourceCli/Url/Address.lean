import ResourceCli.Text.Split
import ResourceCli.Url.Percent

/-!
# Addresses made of numbers

A host may be given as a number instead of a name: four bytes, written in decimal, octal or
hexadecimal, where the last number stands for all bytes that are left; or eight groups of sixteen
bits between colons, where one run of zeros may be left out.
-/

namespace ResourceCli.Url

/-- The value of a number, whose first characters tell its base. -/
def number? (cs : List Char) : Option Nat :=
  match cs with
  | [] => none
  | '0' :: 'x' :: rest => Text.digitsValue? 16 rest
  | '0' :: 'X' :: rest => Text.digitsValue? 16 rest
  | '0' :: d :: rest => Text.digitsValue? 8 (d :: rest)
  | _ => Text.digitsValue? 10 cs

/-- The parts between dots, without an empty last one. -/
def dottedParts (cs : List Char) : List (List Char) :=
  let parts := Text.fields '.' cs
  if parts.length > 1 && parts.getLast? == some [] then parts.dropLast else parts

/-- Whether a host is meant as a number: its last part is one. -/
def endsInNumber (cs : List Char) : Bool :=
  match (dottedParts cs).getLast? with
  | none => false
  | some part => (!part.isEmpty && part.all Char.isDigit) || (number? part).isSome

/-- The four bytes of an address, as one number. -/
def ipv4? (cs : List Char) : Option Nat := do
  let parts := dottedParts cs
  if parts.length > 4 then none
  else
    let numbers ← parts.mapM number?
    let last ← numbers.getLast?
    let front := numbers.dropLast
    if front.any (· > 255) || last ≥ Nat.pow 256 (4 - front.length) then none
    else some (front.zipIdx.foldl (fun n (b, i) => n + b * Nat.pow 256 (3 - i)) last)

/-- Four bytes with dots between them. -/
def ipv4Text (n : Nat) : String :=
  Text.join "." ([3, 2, 1, 0].map fun i => toString (n / Nat.pow 256 i % 256))

/-- A group of an address. -/
def group? (cs : List Char) : Option Nat :=
  if cs.isEmpty || cs.length > 4 then none else Text.digitsValue? 16 cs

/-- A byte in decimal, without a zero at its start. -/
def byte? (cs : List Char) : Option Nat :=
  match cs with
  | ['0'] => some 0
  | '0' :: _ => none
  | _ =>
    if cs.isEmpty then none
    else (Text.digitsValue? 10 cs).filter (· < 256)

/-- The two groups that four bytes stand for. -/
def byteGroups? (cs : List Char) : Option (List Nat) := do
  match ← (Text.fields '.' cs).mapM byte? with
  | [a, b, c, d] => some [256 * a + b, 256 * c + d]
  | _ => none

/-- The groups between colons; the last one may be four bytes. -/
def groups? : List (List Char) → Option (List Nat)
  | [] => some []
  | [last] => if last.contains '.' then byteGroups? last else (fun g => [g]) <$> group? last
  | part :: rest => do return (← group? part) :: (← groups? rest)

/-- The characters before two colons in a row and those after them. -/
def cutGap : List Char → Option (List Char × List Char)
  | ':' :: ':' :: cs => some ([], cs)
  | c :: cs => (cutGap cs).map fun (before, after) => (c :: before, after)
  | [] => none

/-- The groups of a part of an address; an empty part has none. -/
def partGroups? (cs : List Char) : Option (List Nat) :=
  if cs.isEmpty then some [] else groups? (Text.fields ':' cs)

/-- The eight groups of an address. -/
def ipv6? (cs : List Char) : Option (List Nat) :=
  match cutGap cs with
  | none => (partGroups? cs).filter (·.length == 8)
  | some (before, after) => do
    let first ← partGroups? before
    let last ← partGroups? after
    if before.contains '.' || first.length + last.length > 7 then none
    else some (first ++ List.replicate (8 - first.length - last.length) 0 ++ last)

/-- A number in hexadecimal. -/
def hexText (n : Nat) : String := String.ofList (Text.hexDigits n)

/-- The length of the run of zeros at the start. -/
def zeroRun (groups : List Nat) : Nat := (groups.takeWhile (· == 0)).length

/-- The start of the longest run of zeros, the first one of several, and its length. -/
def longestRun (groups : List Nat) : Nat × Nat :=
  (List.range groups.length).foldl (fun best i =>
    let run := zeroRun (groups.drop i)
    if run > best.2 then (i, run) else best) (0, 0)

/-- Eight groups between colons, without the longest run of at least two zeros. -/
def ipv6Text (groups : List Nat) : String :=
  let (start, run) := longestRun groups
  let shown := fun gs : List Nat => Text.join ":" (gs.map hexText)
  if run < 2 then shown groups
  else shown (groups.take start) ++ "::" ++ shown (groups.drop (start + run))

end ResourceCli.Url
