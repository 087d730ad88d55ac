/-!
# Punycode

The form in which a name of a host with characters beyond ASCII is written with ASCII alone: first
the ASCII characters of the name, then where the others go, in the order of their code points.
Each place is written as the distance from the one before, in digits whose weights adapt to the
distances seen so far.
-/

namespace ResourceCli.Url.Punycode

/-- The character of a digit. -/
def digitChar (d : Nat) : Char := if d < 26 then Char.ofNat (d + 97) else Char.ofNat (d + 22)

/-- The digit of a character. -/
def digit? (c : Char) : Option Nat :=
  if 'a' ≤ c && c ≤ 'z' then some (c.toNat - 97)
  else if 'A' ≤ c && c ≤ 'Z' then some (c.toNat - 65)
  else if '0' ≤ c && c ≤ '9' then some (c.toNat - 22)
  else none

/-- The bound that the digit at a position has to reach for another digit to follow. -/
def threshold (position bias : Nat) : Nat := min 26 (max 1 (position - bias))

/-- Scales a distance down, and counts the steps that this takes. -/
def scaleDown (delta position : Nat) : Nat × Nat :=
  if 455 < delta then scaleDown (delta / 35) (position + 36) else (delta, position)
termination_by delta
decreasing_by omega

/-- The bias after a distance, with `count` characters placed so far. -/
def adapt (delta count : Nat) (first : Bool) : Nat :=
  let delta := if first then delta / 700 else delta / 2
  let (delta, position) := scaleDown (delta + delta / count) 0
  position + 36 * delta / (delta + 38)

/-- The digits of a distance. -/
def distanceDigits (bias position q : Nat) : List Char :=
  let t := threshold position bias
  if q < t then [digitChar q]
  else
    digitChar (t + (q - t) % (36 - t)) ::
      distanceDigits bias (position + 36) ((q - t) / (36 - t))
termination_by q
decreasing_by
  have h1 : 1 ≤ threshold position bias := by unfold threshold; omega
  have h2 : (q - threshold position bias) / (36 - threshold position bias) ≤
      q - threshold position bias := Nat.div_le_self _ _
  omega

/-- How far the writing of a name is. -/
structure Progress where
  /-- What is written. -/
  written : List Char := []
  /-- The distance so far. -/
  delta : Nat := 0
  /-- The bias. -/
  bias : Nat := 72
  /-- How many characters are placed. -/
  placed : Nat

/-- Passes over a character of the name while the places of the code point `m` are written. -/
def passOver (basic m : Nat) (p : Progress) (c : Char) : Progress :=
  if c.toNat < m then { p with delta := p.delta + 1 }
  else if c.toNat == m then
    { written := p.written ++ distanceDigits p.bias 36 p.delta
      delta := 0
      bias := adapt p.delta (p.placed + 1) (p.placed == basic)
      placed := p.placed + 1 }
  else p

/-- Writes the places of each code point, in order; `n` is the first one not yet looked at. -/
def writePlaces (name : List Char) (basic : Nat) (p : Progress) (n : Nat) :
    List Nat → Progress
  | [] => p
  | m :: rest =>
    let start := { p with delta := p.delta + (m - n) * (p.placed + 1) }
    let p := name.foldl (passOver basic m) start
    writePlaces name basic { p with delta := p.delta + 1 } (m + 1) rest

/-- A name, written with ASCII alone. -/
def encode (name : List Char) : List Char :=
  let basic := name.filter (·.toNat < 128)
  let others := ((name.filter (128 ≤ ·.toNat)).map Char.toNat).eraseDups.mergeSort
  let p := writePlaces name basic.length { placed := basic.length } 128 others
  basic ++ (if basic.isEmpty then [] else ['-']) ++ p.written

/-- Reads a distance from digits; gives what is left. -/
def readDistance (bias : Nat) : List Char → (position weight q : Nat) →
    Option (Nat × List Char)
  | [], _, _, _ => none
  | c :: cs, position, weight, q =>
    match digit? c with
    | none => none
    | some d =>
      let t := threshold position bias
      let q := q + d * weight
      if d < t then some (q, cs)
      else readDistance bias cs (position + 36) (weight * (36 - t)) q

/-- Places the characters that digits stand for; `fuel` bounds how many there are. -/
def place (digits name : List Char) (n i bias : Nat) : (fuel : Nat) → Option (List Char)
  | 0 => none
  | fuel + 1 =>
    if digits.isEmpty then some name
    else
      match readDistance bias digits 36 1 0 with
      | none => none
      | some (q, rest) =>
        let count := name.length + 1
        let n := n + (i + q) / count
        let at_ := (i + q) % count
        if n > 0x10FFFF || (0xD800 ≤ n && n ≤ 0xDFFF) then none
        else
          place rest (name.take at_ ++ Char.ofNat n :: name.drop at_) n (at_ + 1)
            (adapt q count (i == 0)) fuel

/-- The part before the last hyphen and the part after it. -/
def cutHyphen (cs : List Char) : List Char × List Char :=
  if cs.contains '-' then
    let tail := (cs.reverse.takeWhile (· != '-')).reverse
    (cs.take (cs.length - tail.length - 1), tail)
  else ([], cs)

/-- The name that is written with ASCII alone, if anything is. -/
def decode? (cs : List Char) : Option (List Char) :=
  let (basic, digits) := cutHyphen cs
  if basic.all (·.toNat < 128) then place digits basic 128 0 72 (digits.length + 1) else none

end ResourceCli.Url.Punycode
