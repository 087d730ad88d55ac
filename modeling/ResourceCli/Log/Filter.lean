import ResourceCli.Log.Event
import ResourceCli.Number.Text
import ResourceCli.Text.Blank
import ResourceCli.Text.Split
import ResourceCli.Text.Word

/-!
# Which events are logged

A filter is a list of directives with commas between them.  A directive gives the least important
level that is logged, and may say for which parts of the program it holds: `aepcli=debug` is for
those whose name starts with `aepcli`.  Of the directives that hold for an event the most specific
one decides (`Filter.allows`), and what none holds for is not logged.

A directive may also name a span, which is about events inside of it.  The program has no spans, so
such a directive is read and holds for nothing.
-/

namespace ResourceCli.Log

/-- How much is logged: nothing, or a level and all that is more important. -/
inductive Threshold
  /-- Nothing. -/
  | off
  /-- This level and the more important ones. -/
  | upTo (level : Level)
  deriving DecidableEq, Repr

/-- Whether a level is logged. -/
def Threshold.admits : Threshold → Level → Bool
  | off, _ => false
  | upTo least, level => level.rank ≤ least.rank

/-- The thresholds by name; each may also be given by its place in the list. -/
def thresholds : List (String × Threshold) :=
  [("off", .off), ("error", .upTo .error), ("warn", .upTo .warn), ("info", .upTo .info),
    ("debug", .upTo .debug), ("trace", .upTo .trace)]

/-- A text with the ASCII capitals made small. -/
def smallLetters (s : String) : String := String.ofList (s.toList.map Char.toLower)

/-- The threshold of a number. -/
def numbered? (s : String) : Option Threshold := do
  let digits := (Text.stripStart "+" s).getD s
  guard (digits != "" && digits.toList.all Char.isDigit)
  let (_, t) ← thresholds[Number.ofDigits digits.toList]?
  return t

/-- Reads a threshold; nothing at all means errors. -/
def Threshold.read? (s : String) : Option Threshold :=
  if s == "" then some (.upTo .error)
  else numbered? s <|> thresholds.lookup (smallLetters s)

/-- A directive of a filter. -/
structure Directive where
  /-- How the names of the parts it holds for start; all of them if there is none. -/
  target : Option String := none
  /-- The data that an event has to have. -/
  fields : List String := []
  /-- Whether it is about events in a span. -/
  inSpan : Bool := false
  /-- How much is logged. -/
  threshold : Threshold := .upTo .trace
  deriving DecidableEq, Repr

namespace Directive

/-- A directive with a threshold; none given means all. -/
def withThreshold? (d : Directive) (s : String) : Option Directive :=
  if s == "" then some d else (Threshold.read? s).map fun t => { d with threshold := t }

/-- What may stand behind a span: the end, or an equals sign and a threshold. -/
def readTail? (d : Directive) : List Char → Option Directive
  | [] => some d
  | '=' :: rest => d.withThreshold? (String.ofList rest)
  | _ => none

/-- Reads a span, which starts behind its bracket: a name, and data in braces. -/
def readSpan? (d : Directive) (cs : List Char) : Option Directive := do
  let (name, rest) := cs.span fun c => c != ']' && c != '{'
  match rest with
  | ']' :: rest => readTail? { d with inSpan := true } rest
  | '{' :: rest => do
    let (inside, rest) ← Text.cutFirst '}' rest
    let fields := (Text.fields ',' inside).map String.ofList
    guard (!fields.contains "")
    let values := fields.any fun f => f.toList.contains '='
    let d := { d with fields := fields, inSpan := !name.isEmpty || values }
    match rest with
    | ']' :: rest => d.readTail? rest
    | _ => none
  | _ => none

/-- Whether a directive may start with a character. -/
def isStart (c : Char) : Bool := c == '-' || c == ':' || Text.isWordChar c

/-- Reads a directive: a threshold, a target, or a target and what belongs to it.  Blanks are part
of a target, and of nothing else. -/
def read? (s : String) : Option Directive := do
  match s.toList with
  | '[' :: rest => readSpan? {} rest
  | cs =>
    let first ← (Text.trim s).toList.head?
    guard (isStart first)
    let (name, rest) := cs.span fun c => c != '=' && c != '['
    match rest with
    | [] =>
      match Threshold.read? s with
      | some t => some { threshold := t }
      | none => some { target := some s }
    | mark :: rest =>
      guard (name.head? == some first)
      let d : Directive := { target := some (String.ofList name) }
      if mark == '=' then d.withThreshold? (String.ofList rest) else d.readSpan? rest

/-- Whether a directive holds for an event. -/
def holdsFor (d : Directive) (e : Event) : Bool :=
  !d.inSpan && (d.target.all fun t => (Text.stripStart t e.target).isSome) &&
    d.fields.all fun f => f == "message" || (e.fields.lookup f).isSome

/-- How specific a directive is. -/
def specificity (d : Directive) : Nat × Nat :=
  ((d.target.map fun t => t.utf8ByteSize + 1).getD 0, d.fields.length)

/-- Whether a directive gives way to a later one. -/
def givesWay (d later : Directive) : Bool :=
  let (a, b) := d.specificity
  let (a', b') := later.specificity
  a < a' || (a == a' && b ≤ b')

end Directive

/-- A filter. -/
abbrev Filter := List Directive

namespace Filter

/-- The filter of a level. -/
def ofLevel (level : Level) : Filter := [{ threshold := .upTo level }]

/-- Reads a filter; one without any directive logs errors. -/
def read? (s : String) : Option Filter := do
  let parts := (Text.splitAt ',' s).filter (· != "")
  if parts.isEmpty then return ofLevel .error
  parts.mapM Directive.read?

/-- The more specific one of two directives. -/
def moreSpecific (found : Option Directive) (d : Directive) : Option Directive :=
  match found with
  | none => some d
  | some old => if old.givesWay d then some d else some old

/-- Whether an event is logged. -/
def allows (f : Filter) (e : Event) : Bool :=
  match (f.filter (·.holdsFor e)).foldl moreSpecific none with
  | some d => d.threshold.admits e.level
  | none => false

end Filter

end ResourceCli.Log
