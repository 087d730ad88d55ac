import ResourceCli.Text.Case

/-!
# How alike two names are

A mistyped name is answered with the known name that is most like it.  A name is like another one
if its characters occur in it in the same order.  How much so is a score: every matching character
counts, most at the start of the name or of a word in it and next to another match, and every gap
costs, the first character of it more than the others.

The score is the best one over all ways to match, found row by row: a row holds, for every start
of the name, the best score of the characters so far with the last one matched at its end
(`matched`) or before it (`skipped`).
-/

namespace ResourceCli.Likeness

/-- What a matching character counts. -/
def matchScore : Int := 16

/-- What a match in the other case loses. -/
def casePenalty : Int := 2

/-- What the first character of a gap costs. -/
def gapStart : Int := 4

/-- What each further character of a gap costs. -/
def gapExtension : Int := 1

/-- What a match right after another one counts more. -/
def consecutiveBonus : Int := 4

/-- The classes of characters by which words are told apart. -/
inductive CharClass
  /-- Starts a word that counts fully. -/
  | hardSeparator
  /-- Starts a word that counts a little less. -/
  | softSeparator
  /-- A digit. -/
  | digit
  /-- A capital letter. -/
  | upper
  /-- Anything else. -/
  | lower
  deriving DecidableEq

/-- The class of a character. -/
def CharClass.of (c : Char) : CharClass :=
  if [' ', '/', '\\', '|', '(', ')', '[', ']', '{', '}'].contains c then hardSeparator
  else if c.isDigit then digit
  else if c.isUpper then upper
  else if 0x21 ≤ c.toNat && c.toNat < 0x7F && !c.isLower then softSeparator
  else lower

open CharClass in
/-- What a match after a character counts more, by the class of both; nothing stands before the
first character, where a match counts twice as much as at the start of another word. -/
def placeBonus : Option CharClass → CharClass → Int
  | none, _ => 16
  | some hardSeparator, _ => 8
  | some softSeparator, _ => 7
  | some lower, upper | some digit, upper => 6
  | _, _ => 0

/-- The characters of a name with what a match at each counts more. -/
def withBonuses (before : Option CharClass) : List Char → List (Char × Int)
  | [] => []
  | c :: cs =>
    let here := CharClass.of c
    (c, placeBonus before here) :: withBonuses (some here) cs

/-- The greater of two scores that may not exist. -/
def better (a b : Option Int) : Option Int :=
  match a, b with
  | some x, some y => some (max x y)
  | some x, none => some x
  | none, b => b

/-- The best scores at one place of a name. -/
structure Cell where
  /-- The best score with the last character matched at the end. -/
  matched : Option Int := none
  /-- The best score with the last character matched before the end. -/
  skipped : Option Int := none

/-- Whether a character of a name matches one of the given text. -/
def agree (caseMatters : Bool) (c p : Char) : Bool :=
  if caseMatters then c == p else c.toLower == p.toLower

/-- The score of matching `p` at a place, after the best scores up to there. -/
def matchAt (caseMatters : Bool) (p c : Char) (bonus : Int) (before : Cell) : Option Int :=
  if agree caseMatters c p then
    let here := matchScore - (if !caseMatters && c != p then casePenalty else 0)
    better (before.matched.map (· + here + max bonus consecutiveBonus))
      (before.skipped.map (· + here + bonus))
  else none

/-- The row for one more character, from the row before it; `left` is the cell to the left. -/
def nextRow (caseMatters : Bool) (p : Char) (left : Cell) :
    List (Char × Int) → List Cell → List Cell
  | (c, bonus) :: cs, before :: row =>
    let cell : Cell := {
      matched := matchAt caseMatters p c bonus before
      skipped := better (left.matched.map (· - gapStart)) (left.skipped.map (· - gapExtension)) }
    left :: nextRow caseMatters p cell cs row
  | _, _ => [left]

/-- The row before the first character: anything may be skipped at a fixed cost. -/
def firstRow (name : List Char) : List Cell :=
  List.replicate (name.length + 1) { skipped := some (-gapExtension) }

/-- How much `name` is like `text`; none if it is not like it at all. -/
def score? (name text : String) : Option Int :=
  if text == "" then some 0
  else
    let cs := withBonuses none name.toList
    let caseMatters := text.toList.any Char.isUpper
    let last := text.toList.foldl (fun row p => nextRow caseMatters p {} cs row)
      (firstRow name.toList)
    last.foldl (fun best cell => better best cell.matched) none

/-- Of the names that are like the text at all the one most like it, the last of several. -/
def closest? (text : String) (names : List String) : Option String :=
  let scored := names.filterMap fun name => (score? name text).map fun s => (s, name)
  (scored.foldl (fun best entry =>
    match best with
    | some (s, _) => if s ≤ entry.1 then some entry else best
    | none => some entry) none).map Prod.snd

end ResourceCli.Likeness
