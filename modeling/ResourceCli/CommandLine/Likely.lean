/-!
# Words that look alike

When a value is none of the possible ones, perhaps one of these was meant.  Two words look alike
if many of their characters match at places not far apart, and few of these change their order.
The measure is a third of the sum of three ratios: matches to the length of either word, and
matches in order to all matches.  It is kept as a ratio of whole numbers, so that the bound is
exact.
-/

namespace ResourceCli.CommandLine

/-- The first place from `place` on whose character is `c` and is not taken, among those below
`stop`. -/
def matchFrom (c : Char) (taken : List Nat) (stop : Nat) (place : Nat) : List Char → Option Nat
  | [] => none
  | d :: ds =>
    if place ≥ stop then none
    else if d == c && !taken.contains place then some place
    else matchFrom c taken stop (place + 1) ds

/-- The places of `b` that the characters of `a` match, in the order of `a`; a character at a place
matches one that is at most `reach` places away. -/
def matchPlaces (b : List Char) (reach : Nat) :
    List Char → Nat → List Nat → List (Char × Nat)
  | [], _, _ => []
  | c :: cs, i, taken =>
    match matchFrom c taken (i + reach + 1) (i - reach) (b.drop (i - reach)) with
    | none => matchPlaces b reach cs (i + 1) taken
    | some j => (c, j) :: matchPlaces b reach cs (i + 1) (j :: taken)

/-- How much two words look alike, as numerator and denominator. -/
def likeness (a b : String) : Nat × Nat :=
  let x := a.toList
  let y := b.toList
  if x.isEmpty && y.isEmpty then (1, 1)
  else
    let found := matchPlaces y (max x.length y.length / 2 - 1) x 0 []
    let m := found.length
    if m == 0 then (0, 1)
    else
      let ordered := (found.map Prod.snd).mergeSort
      let moved := (found.zip ordered).countP fun ((c, _), j) => y[j]? != some c
      let kept := m - moved / 2
      (m * m * y.length + m * m * x.length + kept * x.length * y.length,
        3 * m * x.length * y.length)

/-- Whether a measure reaches seven tenths. -/
def isAlike (measure : Nat × Nat) : Bool := 7 * measure.2 ≤ 10 * measure.1

/-- Whether a measure is less than another one. -/
def lessAlike (a b : Nat × Nat) : Bool := a.1 * b.2 < b.1 * a.2

/-- The choice that is suggested in place of a word: of those that look alike the least so, and of
equal ones the first. -/
def suggestion? (word : String) (choices : List String) : Option String :=
  let alike := (choices.map fun c => (likeness word c, c)).filter (isAlike ·.1)
  match alike with
  | [] => none
  | first :: rest =>
    some (rest.foldl (fun best next => if lessAlike next.1 best.1 then next else best) first).2

end ResourceCli.CommandLine
