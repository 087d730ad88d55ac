import ResourceCli.Shape.Basic
import ResourceCli.Yaml.Node

/-!
# Typed data from YAML

Reads a YAML text by a shape.  Where a text is wanted, any scalar is one, whatever it looks like:
`1.10` is the text `1.10`.  What a plain scalar looks like matters only for truth values, for the
absence of an optional value, and for a type that may be a text or a list of texts.  Where a
collection is wanted, nothing at all stands for the empty one.

References are followed.  Nesting is limited, and so is the number of references followed, so
that a short text cannot describe endless data.
-/

namespace ResourceCli.Shape

open Yaml

/-- Reading a document: how many references may still be followed. -/
abbrev YamlM := StateT Nat Option

/-- Whether a plain scalar looks like the empty value. -/
def looksNull (s : String) : Bool := s == "null" || s == "Null" || s == "NULL" || s == "~"

/-- The truth value that a plain scalar looks like. -/
def looksFlag? (s : String) : Option Bool :=
  if s == "true" || s == "True" || s == "TRUE" then some true
  else if s == "false" || s == "False" || s == "FALSE" then some false
  else none

/-- The value of at least one digit of a base. -/
def digitsValue? (base : Nat) (cs : List Char) : Option Nat :=
  if cs.isEmpty then none else Text.digitsValue? base cs

/-- The characters after a sign. -/
def dropSign : List Char → List Char
  | '-' :: cs => cs
  | '+' :: cs => cs
  | cs => cs

/-- Whether digits start with a zero that is not their only digit. -/
def zeroLed (cs : List Char) : Bool :=
  match dropSign cs with
  | '0' :: d :: rest => (d :: rest).all Char.isDigit
  | _ => false

/-- Whether a plain scalar looks like an integer: decimal, or with a base mark. -/
def looksInteger (cs : List Char) : Bool :=
  let based (cs : List Char) : Bool :=
    match cs with
    | '0' :: 'x' :: ds => (digitsValue? 16 ds).any (· < Nat.pow 2 128)
    | '0' :: 'o' :: ds => (digitsValue? 8 ds).any (· < Nat.pow 2 128)
    | '0' :: 'b' :: ds => (digitsValue? 2 ds).any (· < Nat.pow 2 128)
    | _ => false
  based (dropSign cs) || (!zeroLed cs && (digitsValue? 10 (dropSign cs)).isSome)

/-- Whether a plain scalar looks like a number with a fraction or an exponent, or like one of the
names of infinity and not-a-number. -/
def looksDouble (cs : List Char) : Bool :=
  let s := String.ofList cs
  let unsigned := match cs with
    | '+' :: cs => cs
    | cs => cs
  if [".inf", ".Inf", ".INF"].contains (String.ofList unsigned) ||
      ["-.inf", "-.Inf", "-.INF", ".nan", ".NaN", ".NAN"].contains s then true
  else if zeroLed cs then false
  else
    match cs, unsigned with
    | '+' :: _, '+' :: _ => false
    | '+' :: _, '-' :: _ => false
    | _, _ =>
      match Number.readDouble? (String.ofList unsigned) with
      | some (.finite _) => true
      | _ => false

/-- Whether a plain scalar looks like nothing but a text. -/
def looksText (s : String) : Bool :=
  s != "" && !looksNull s && (looksFlag? s).isNone && !looksInteger s.toList &&
    !looksDouble s.toList

/-- The start of the tags of YAML itself. -/
def coreTag (name : String) : String := "tag:yaml.org,2002:" ++ name

/-- Whether a scalar is a text where anything could stand. -/
def scalarIsText (tag : Option String) (text : String) (style : Style) : Bool :=
  match tag with
  | some t =>
    !(t == coreTag "bool" || t == coreTag "int" || t == coreTag "float" ||
      t == coreTag "null" || t.startsWith "!")
  | none => style != .plain || looksText text

/-- Whether an optional value is there; none where a tag contradicts it. -/
def isPresent? : Node → Option Bool
  | .scalar tag s style =>
    if style != .plain then some true
    else
      match tag with
      | some t =>
        if t == coreTag "null" then if looksNull s then some false else none else some true
      | none => some (s != "" && !looksNull s)
  | _ => some true

/-- Whether nothing is written at a node. -/
def isVoid : Node → Bool
  | .scalar _ "" .plain => true
  | _ => false

/-- The node that a reference leads to; other nodes are themselves. -/
def settle (t : Yaml.Tree) : Node → YamlM Node
  | .reference anchor => do
    match ← get with
    | 0 => failure
    | left + 1 =>
      set left
      t.target? anchor
  | n => pure n

/-- The text of a scalar. -/
def scalarText (t : Yaml.Tree) (n : Node) : YamlM String := do
  match ← settle t n with
  | .scalar _ s _ => return s
  | _ => failure

/-- The text of a scalar where anything could stand. -/
def freeText (t : Yaml.Tree) (n : Node) : YamlM ResourceCli.Tree := do
  match ← settle t n with
  | .scalar tag s style => if scalarIsText tag s style then return .text s else failure
  | _ => failure

/-- A record with all required fields. -/
def completeRecord (r : RecordName) (values : List (Option ResourceCli.Tree)) :
    YamlM ResourceCli.Tree :=
  if (r.fields.zip values).any fun (f, v) => f.required && v.isNone then failure
  else pure (.record values)

/-- A node as data of a shape; `depth` more levels of nesting are allowed. -/
def ofNode (t : Yaml.Tree) : (fuel depth : Nat) → Shape → Node → YamlM ResourceCli.Tree
  | 0, _, _, _ => failure
  | fuel + 1, depth, shape, n => do
    let n ← settle t n
    match shape with
    | .text => .text <$> scalarText t n
    | .flag =>
      match n with
      | .scalar tag s style =>
        if style == .plain || (style == .literal && tag == some (coreTag "bool")) then
          .flag <$> looksFlag? s
        else failure
      | _ => failure
    | .optional s =>
      if ← isPresent? n then ofNode t fuel depth s n else return .absent
    | .list s =>
      match n, depth with
      | .list _ _, 0 => failure
      | .list _ items, depth + 1 =>
        .list <$> items.mapM (ofNode t fuel depth s)
      | n, _ => if isVoid n then return .list [] else failure
    | .table s =>
      match n, depth with
      | .map _ _, 0 => failure
      | .map _ entries, depth + 1 =>
        .table <$> entries.foldlM (fun done (k, v) => do
          let name ← scalarText t k
          let v ← ofNode t fuel depth s v
          return ResourceCli.Tree.insert name v done) []
      | n, _ => if isVoid n then return .table [] else failure
    | .record r =>
      let unset := r.fields.map fun _ => none
      match n, depth with
      | .map _ _, 0 => failure
      | .map _ entries, depth + 1 =>
        completeRecord r (← entries.foldlM (fun values (k, v) => do
          let key ← scalarText t k
          match r.fieldIndex? key with
          | some i =>
            if (values[i]?.join).isSome then failure
            let v ← ofNode t fuel depth ((r.fields[i]?.map Field.shape).getD .text) v
            return values.set i (some v)
          | none => return values) unset)
      | n, _ => if isVoid n then completeRecord r unset else failure
    | .oneOrMore =>
      match n, depth with
      | .list tag items, _ + 1 =>
        if tag.any (·.startsWith "!") then failure
        else .list <$> items.mapM (freeText t)
      | .list _ _, 0 => failure
      | n, _ => freeText t n

/-- Reads a whole YAML text as data of a shape. -/
def ofYaml? (shape : Shape) (text : String) : Option ResourceCli.Tree := do
  let t ← Yaml.read? text
  let (data, _) ← (ofNode t 1024 128 shape t.root).run (100 * t.size)
  return data

end ResourceCli.Shape
