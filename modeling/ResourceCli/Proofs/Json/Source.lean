import ResourceCli.Proofs.Json.Pieces
import Mathlib.Data.Rat.Defs
import Mathlib.Algebra.Order.Field.Rat
import Mathlib.Algebra.Order.Field.Power

/-!
# JSON texts

What a JSON text is, said without a reader.  A `Source` is a value as it is written: its numbers are
kept digit by digit (`Literal`) and its strings escape by escape (`Quoted`), and its members are in
order, repeated keys included.  Only the white space between the pieces is left open: `Spells` says
that characters are a value with some white space in it, and `IsText` that a whole text is one.

Taking each string for what it says gives the data of a text, a `Source String`.
-/

namespace ResourceCli.Json

/-! ## Numbers -/

/-- The exponent of a number, as it is written. -/
structure Exponent where
  /-- The letter before it. -/
  letter : Char
  /-- Its sign, if it has one. -/
  sign : Option Char
  /-- Its digits. -/
  digits : List Char
  /-- The letter is an `e` of either case. -/
  isLetter : letter = 'e' ∨ letter = 'E'
  /-- The sign is plus or minus. -/
  isSign : ∀ c ∈ sign, c = '+' ∨ c = '-'
  /-- There are digits. -/
  digits_ne_nil : digits ≠ []
  /-- They are decimal. -/
  areDigits : ∀ c ∈ digits, c.isDigit = true

/-- The characters of an exponent. -/
def Exponent.text (e : Exponent) : List Char := e.letter :: (e.sign.toList ++ e.digits)

/-- The power of ten of an exponent. -/
def Exponent.power (e : Exponent) : Int :=
  if e.sign = some '-' then -(Number.ofDigits e.digits : Int) else Number.ofDigits e.digits

/-- A number as it is written. -/
structure Literal where
  /-- Whether there is a minus sign. -/
  negative : Bool
  /-- The digits before the point. -/
  whole : List Char
  /-- The digits behind the point; none if there is no point. -/
  places : List Char
  /-- The exponent. -/
  exponent : Option Exponent
  /-- There are digits before the point. -/
  whole_ne_nil : whole ≠ []
  /-- They are decimal. -/
  digits_whole : ∀ c ∈ whole, c.isDigit = true
  /-- The first one is a zero only if it is the only one. -/
  zero_alone : whole.head? = some '0' → whole = ['0']
  /-- The digits behind the point are decimal. -/
  digits_places : ∀ c ∈ places, c.isDigit = true

namespace Literal

/-- A point and the digits behind it. -/
def fraction (l : Literal) : List Char := if l.places = [] then [] else '.' :: l.places

/-- The characters of a number behind its sign. -/
def unsigned (l : Literal) : List Char :=
  l.whole ++ (l.fraction ++ (l.exponent.map Exponent.text).getD [])

/-- The characters of a number. -/
def text (l : Literal) : List Char := (if l.negative then ['-'] else []) ++ l.unsigned

/-- The number that is written, exactly. -/
def value (l : Literal) : ℚ :=
  (if l.negative then -1 else 1) * Number.ofDigits (l.whole ++ l.places) *
    (10 : ℚ) ^ ((l.exponent.map Exponent.power).getD 0 - l.places.length)

/-- Whether a number is written without point and exponent. -/
def IsWhole (l : Literal) : Prop := l.places = [] ∧ l.exponent = none

end Literal

/-! ## Strings -/

/-- The characters between the quotes of a string, and the characters that they stand for. -/
inductive Writes : List Char → List Char → Prop
  /-- Nothing. -/
  | nil : Writes [] []
  /-- A character that stands for itself. -/
  | plain {c : Char} {raw cs : List Char} (hquote : c ≠ '"') (hback : c ≠ '\\')
    (hlow : ¬ c.toNat < 0x20) (h : Writes raw cs) : Writes (c :: raw) (c :: cs)
  /-- An escape by letter. -/
  | letter {d c : Char} {raw cs : List Char} (hd : letterEscape? d = some c) (h : Writes raw cs) :
    Writes ('\\' :: d :: raw) (c :: cs)
  /-- An escape by number. -/
  | code {ds raw cs : List Char} {n : Nat} (hlen : ds.length = 4)
    (hn : Text.digitsValue? 16 ds = some n) (hhigh : isHighSurrogate n = false)
    (hlow : isLowSurrogate n = false) (h : Writes raw cs) :
    Writes ('\\' :: 'u' :: (ds ++ raw)) (Char.ofNat n :: cs)
  /-- A pair of escapes by number. -/
  | pair {ds ds' raw cs : List Char} {n m : Nat} (hlen : ds.length = 4)
    (hn : Text.digitsValue? 16 ds = some n) (hhigh : isHighSurrogate n = true)
    (hlen' : ds'.length = 4) (hm : Text.digitsValue? 16 ds' = some m)
    (hlow : isLowSurrogate m = true) (h : Writes raw cs) :
    Writes ('\\' :: 'u' :: (ds ++ '\\' :: 'u' :: (ds' ++ raw)))
      (Char.ofNat (0x10000 + (n - 0xD800) * 0x400 + (m - 0xDC00)) :: cs)

/-- A string as it is written. -/
structure Quoted where
  /-- The characters between the quotes. -/
  raw : List Char
  /-- The text they stand for. -/
  text : String
  /-- They stand for it. -/
  writes : Writes raw text.toList

/-- The characters of a string, quotes included. -/
def Quoted.spelled (q : Quoted) : List Char := '"' :: (q.raw ++ ['"'])

/-! ## Values -/

/-- A value with its numbers as they are written and strings of some kind. -/
inductive Source (σ : Type)
  /-- The value `null`. -/
  | null
  /-- `true` or `false`. -/
  | bool (b : Bool)
  /-- A number. -/
  | num (l : Literal)
  /-- A string. -/
  | str (s : σ)
  /-- An array. -/
  | arr (items : List (Source σ))
  /-- An object, its members in order. -/
  | obj (members : List (σ × Source σ))

mutual

/-- A value with other strings. -/
def Source.map {σ τ : Type} (f : σ → τ) : Source σ → Source τ
  | .null => .null
  | .bool b => .bool b
  | .num l => .num l
  | .str s => .str (f s)
  | .arr items => .arr (Source.mapItems f items)
  | .obj members => .obj (Source.mapMembers f members)

/-- The items with other strings. -/
def Source.mapItems {σ τ : Type} (f : σ → τ) : List (Source σ) → List (Source τ)
  | [] => []
  | t :: rest => t.map f :: Source.mapItems f rest

/-- The members with other strings. -/
def Source.mapMembers {σ τ : Type} (f : σ → τ) : List (σ × Source σ) → List (τ × Source τ)
  | [] => []
  | (k, t) :: rest => (f k, t.map f) :: Source.mapMembers f rest

end

/-- The data of a value: what its strings stand for. -/
def Source.data (t : Source Quoted) : Source String := t.map Quoted.text

/-- What stands before an item or a member: white space, and in it a comma but for the first. -/
def Separates : (first : Bool) → List Char → Prop
  | true, cs => Spaces cs
  | false, cs => ∃ before after, Spaces before ∧ Spaces after ∧ cs = before ++ ',' :: after

/-- What stands behind a key: a colon, with white space around it. -/
def IsColon (cs : List Char) : Prop :=
  ∃ before after, Spaces before ∧ Spaces after ∧ cs = before ++ ':' :: after

mutual

/-- The characters are the value, with white space between its pieces. -/
def Spells : Source Quoted → List Char → Prop
  | .null, cs => cs = ['n', 'u', 'l', 'l']
  | .bool b, cs => cs = boolText b
  | .num l, cs => cs = l.text
  | .str q, cs => cs = q.spelled
  | .arr items, cs => ∃ inner, SpellsItems true items inner ∧ cs = '[' :: inner
  | .obj members, cs => ∃ inner, SpellsMembers true members inner ∧ cs = '{' :: inner

/-- The characters are the items of an array up to and with its end; `first` says that none has come
before. -/
def SpellsItems (first : Bool) : List (Source Quoted) → List Char → Prop
  | [], cs => ∃ blanks, Spaces blanks ∧ cs = blanks ++ [']']
  | t :: ts, cs => ∃ sep body rest, Separates first sep ∧ Spells t body ∧
      SpellsItems false ts rest ∧ cs = sep ++ (body ++ rest)

/-- The characters are the members of an object up to and with its end; `first` says that none has
come before. -/
def SpellsMembers (first : Bool) : List (Quoted × Source Quoted) → List Char → Prop
  | [], cs => ∃ blanks, Spaces blanks ∧ cs = blanks ++ ['}']
  | (k, t) :: ts, cs => ∃ sep colon body rest, Separates first sep ∧ IsColon colon ∧
      Spells t body ∧ SpellsMembers false ts rest ∧
      cs = sep ++ (k.spelled ++ (colon ++ (body ++ rest)))

end

/-- The characters are a text of the value, with white space around it. -/
def IsText (t : Source Quoted) (cs : List Char) : Prop :=
  ∃ before body after, Spaces before ∧ Spells t body ∧ Spaces after ∧
    cs = before ++ (body ++ after)

end ResourceCli.Json
