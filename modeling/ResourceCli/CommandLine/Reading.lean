import ResourceCli.CommandLine.Fault
import ResourceCli.CommandLine.Help

/-!
# Reading a command line

The words of a command line are read from the left.  A word is the name of a command below, or an
argument with a name, or letters behind one hyphen, or a value: of the argument with a name just
before it, or else of the argument whose place it is at.  After a command is named the rest belongs
to that command.

The values of an argument are gathered first (`Pending`) and accepted together when something else
follows; so a fault in them is found before a fault in what follows.  What is given for a command
is checked as a whole when all of its words are read, the command below before the one above.

The result is a list of levels, one for each command named, the outermost first.  An argument that
the commands below have too may be given at any of their levels; the innermost one counts
(`Matches.shared?`).
-/

namespace ResourceCli.CommandLine

/-- What is given for one command. -/
structure Level where
  /-- The name of the command. -/
  command : String
  /-- The arguments given, by id, each with its values. -/
  given : List (String × List String) := []
  deriving DecidableEq, Repr, Inhabited

/-- The values of an argument, if it is given. -/
def Level.values? (l : Level) (id : String) : Option (List String) := l.given.lookup id

/-- The value of an argument, if it is given and takes one. -/
def Level.value? (l : Level) (id : String) : Option String := (l.values? id).bind List.head?

/-- Whether an argument is given. -/
def Level.has (l : Level) (id : String) : Bool := (l.values? id).isSome

/-- What a command line gives: the levels of the commands named, the outermost first. -/
abbrev Matches := List Level

/-- The value of an argument that all commands have: the one of the innermost level. -/
def Matches.shared? (m : Matches) (id : String) : Option String :=
  m.reverse.findSome? (Level.value? · id)

/-- An argument whose values are being gathered. -/
structure Pending where
  /-- The argument. -/
  arg : Arg
  /-- Its values so far. -/
  values : List String := []

/-- What the next word may be, besides something new. -/
inductive Expecting
  /-- Nothing. -/
  | nothing
  /-- The value of an argument with a name. -/
  | value (arg : Arg)
  /-- A further value of an argument that stands at a place. -/
  | further (arg : Arg)

/-- How far the words of a command are read. -/
structure Progress where
  /-- What is accepted. -/
  given : List (String × List String) := []
  /-- What is being gathered. -/
  pending : Option Pending := none
  /-- What the next word may be. -/
  expecting : Expecting := .nothing
  /-- The next place, counted from one. -/
  place : Nat := 1
  /-- Whether all further words are values at places. -/
  placesOnly : Bool := false

/-- The kinds of word. -/
inductive Word
  /-- Two hyphens: only values at places follow. -/
  | separator
  /-- A name behind two hyphens, perhaps with a value behind an equals sign. -/
  | name (name : String) (value : Option String)
  /-- Letters behind one hyphen. -/
  | letters (letters : List Char)
  /-- Anything else. -/
  | plain
  deriving DecidableEq, Repr

/-- The kind of a word. -/
def Word.ofText (word : String) : Word :=
  match word.toList with
  | '-' :: '-' :: [] => separator
  | '-' :: '-' :: cs =>
    match Text.cutFirst '=' cs with
    | some (key, value) => name (String.ofList key) (some (String.ofList value))
    | none => name (String.ofList cs) none
  | '-' :: c :: cs => letters (c :: cs)
  | _ => plain

/-- Whether the argument that the next word may belong to takes words with a hyphen. -/
def Expecting.takesHyphens : Expecting → Bool
  | nothing => false
  | value a => a.hyphenValues
  | further a => a.hyphenValues

/-- Whether something is expected. -/
def Expecting.isNothing : Expecting → Bool
  | nothing => true
  | _ => false

/-- What is wrong with a value of an argument. -/
def Arg.faultOf (a : Arg) (value : String) : Option UsageFault :=
  match a.rule with
  | .any => none
  | .nonEmpty => if value == "" then some (.valueMissing a.shown []) else none
  | .oneOf choices =>
    if choices.contains value then none
    else if value == "" then some (.valueMissing a.shown choices)
    else some (.valueUnknown value a.shown choices)
  | .tested test => (test value).map (.valueRejected value a.shown)

/-- The values with which an argument is given: at least one, but for one that implies its
value. -/
def Arg.valuesOf (a : Arg) (values : List String) : Option (List String) :=
  match values, a.impliedValue with
  | [], some implied => some [implied]
  | [], none => none
  | _ :: _, _ => some values

section Reading

variable (c : Command) (called : String)

/-- The usage line as it stands below a fault. -/
def usageBelow (used : List String) : Option String := some (usage called c used)

/-- The usage line as it stands below a fault in an argument that comes after those given. -/
def usageAfter (given : List (String × List String)) (a : Arg) : Option String :=
  if c.isGroup && !given.isEmpty then some (groupUsage called c)
  else
    let used := (given.map Prod.fst).filter fun id => !(c.arg? id).any (·.required)
    usageBelow c called (used ++ [a.id])

/-- Adds an argument that may be given once. -/
def acceptOnce (a : Arg) (values : List String) (given : List (String × List String)) :
    Except Stop (List (String × List String)) :=
  if (given.lookup a.id).isSome then
    .error (.fault (.argumentRepeated a.shown) (usageBelow c called []))
  else .ok (given ++ [(a.id, values)])

/-- Adds values to those that an argument has. -/
def acceptMore (a : Arg) (values : List String) (given : List (String × List String)) :
    List (String × List String) :=
  if (given.lookup a.id).isSome then
    given.map fun (id, old) => if id == a.id then (id, old ++ values) else (id, old)
  else given ++ [(a.id, values)]

/-- The values of an argument if each of them passes, or else the first fault. -/
def checkedValues (a : Arg) (values : List String) : Except Stop (List String) :=
  match values.findSome? a.faultOf with
  | some fault => .error (.fault fault none)
  | none => .ok values

/-- Accepts an argument with its values; `full` says which description a request for one means. -/
def accept (full : Bool) (a : Arg) (values : List String)
    (given : List (String × List String)) : Except Stop (List (String × List String)) :=
  match a.action with
  | .help => .error (.description (helpText called c full))
  | .version => .error (.version (c.name ++ " " ++ c.version.getD "" ++ "\n"))
  | .flag => acceptOnce c called a [] given
  | .set => do
    match a.valuesOf values with
    | none => throw (.fault (.valueMissing a.shown a.choices) none)
    | some values =>
      let given ← acceptOnce c called a values given
      let _ ← checkedValues a values
      return given
  | .append => do
    match a.valuesOf values with
    | none => throw (.fault (.valueMissing a.shown a.choices) none)
    | some values => return acceptMore a (← checkedValues a values) given

/-- Accepts what is being gathered. -/
def settle (p : Progress) : Except Stop Progress :=
  match p.pending with
  | none => .ok p
  | some w => do
    let given ← accept c called true w.arg w.values p.given
    return { p with pending := none, given := given }

/-- Accepts an argument that is complete with its word. -/
def take (full : Bool) (a : Arg) (values : List String) (p : Progress) :
    Except Stop Progress := do
  let p ← settle c called p
  let given ← accept c called full a values p.given
  return { p with given := given, expecting := .nothing }

/-- Starts to gather the value of an argument with a name. -/
def await (a : Arg) (p : Progress) : Except Stop Progress := do
  if a.impliedValue.isSome then take c called true a [] p
  else
    let p ← settle c called p
    return { p with pending := some { arg := a }, expecting := .value a }

/-- The fault of a word that has no place. -/
def unplaced (p : Progress) (word : String) : Stop :=
  let fault : UsageFault :=
    if p.placesOnly && (c.subcommand? word).isSome then .argumentUnknown word
    else if c.subcommands.isEmpty then .argumentUnknown word
    else .commandUnknown word
  .fault fault (usageBelow c called [])

/-- Reads a value at a place. -/
def readPlace (p : Progress) (word : String) : Except Stop Progress :=
  match c.positional? p.place with
  | none => .error (unplaced c called p word)
  | some a => do
    let many := a.action == .append
    let continues := many && (p.pending.any fun w => w.arg.id == a.id)
    let p ← if continues then pure p else settle c called p
    let values := (p.pending.map Pending.values).getD [] ++ [word]
    return { p with
      pending := some ⟨a, values⟩
      placesOnly := p.placesOnly || a.trailing
      place := if many then p.place else p.place + 1
      expecting := if many then .further a else .nothing }

/-- Reads a value: of the argument that waits for one, or else at a place. -/
def readValue (p : Progress) (word : String) : Except Stop Progress :=
  match p.expecting with
  | .value a =>
    let values := (p.pending.map Pending.values).getD []
    .ok { p with pending := some ⟨a, values ++ [word]⟩, expecting := .nothing }
  | _ => readPlace c called p word

/-- Whether the argument at the next place takes words with a hyphen. -/
def placeTakesHyphens (p : Progress) : Bool :=
  (c.positional? p.place).any (·.hyphenValues)

/-- Reads an argument with a name. -/
def readName (p : Progress) (word name : String) (value : Option String) :
    Except Stop Progress :=
  match c.long? name with
  | some a =>
    match a.takesValue, value with
    | true, some value => take c called true a [value] p
    | true, none => await c called a p
    | false, none => take c called true a [] p
    | false, some value =>
      .error (.fault (.valueUnneeded value a.shown) (usageAfter c called p.given a))
  | none =>
    if placeTakesHyphens c p then readValue c called p word
    else .error (.fault (.argumentUnknown ("--" ++ name)) (usageBelow c called []))

/-- Reads letters behind one hyphen; what follows the letter of an argument with a value is that
value. -/
def readLetters (p : Progress) : List Char → Except Stop Progress
  | [] => .ok p
  | letter :: rest =>
    match c.short? letter with
    | none =>
      .error (.fault (.argumentUnknown ("-" ++ String.singleton letter))
        (usageBelow c called []))
    | some a =>
      if a.takesValue then
        match rest with
        | [] => await c called a p
        | '=' :: value => take c called false a [String.ofList value] p
        | value => take c called false a [String.ofList value] p
      else do readLetters (← take c called false a [] p) rest

/-- Reads a word that names no command. -/
def readWord (p : Progress) (word : String) : Except Stop Progress :=
  if p.placesOnly then readPlace c called p word
  else
    match Word.ofText word with
    | .plain => readValue c called p word
    | .separator =>
      if p.expecting.takesHyphens then readValue c called p word
      else .ok { p with placesOnly := true }
    | .name name value =>
      if p.expecting.takesHyphens then readValue c called p word
      else readName c called p word name value
    | .letters letters =>
      if p.expecting.takesHyphens ||
          (placeTakesHyphens c p && letters.any fun l => (c.short? l).isNone) then
        readValue c called p word
      else readLetters c called p letters

/-- The arguments among those given that exclude one. -/
def excluded (given : List (String × List String)) (a : Arg) : List Arg :=
  (given.filterMap fun (id, _) => c.arg? id).filter fun other =>
    a.id != other.id && (a.conflicts.contains other.id || other.conflicts.contains a.id)

/-- The first fault of what is given for a command as a whole. -/
def wholeFault (given : List (String × List String)) (isLast : Bool) : Option Stop :=
  let ids := given.map Prod.fst
  let missing := c.args.filter fun a => a.required && !ids.contains a.id
  if isLast && c.helpWithoutArgs && given.isEmpty then
    some (.nothingGiven (helpText called c false))
  else if isLast && c.subcommandRequired then
    some (.fault (.commandMissing called (c.subcommands.map Command.name))
      (usageBelow c called []))
  else
    match ids.findSome? fun id => (c.arg? id).bind fun a =>
        let others := excluded c given a
        if others.isEmpty then none else some (a, others) with
    | some (a, others) =>
      let used := ids.filter fun id => !(others.map Arg.id).contains id
      some (.fault (.argumentsConflict a.shown (others.map Arg.shown))
        (usageBelow c called used))
    | none =>
      if missing.isEmpty then none
      else
        some (.fault (.argumentsMissing (missing.map (·.shownAs true)))
          (usageBelow c called (ids ++ missing.map Arg.id)))

/-- Completes a level when its words are read; `below` are the levels of the commands below. -/
def finish (p : Progress) (below : Matches) : Except Stop Matches := do
  let p ← settle c called p
  match wholeFault c called p.given below.isEmpty with
  | some stop => throw stop
  | none => return ⟨c.name, p.given⟩ :: below

end Reading

/-- The description of the command that the words name, one below the other. -/
def describe (c : Command) (called : String) : List String → Stop
  | [] => .description (helpText called c true)
  | word :: rest =>
    match c.subcommand? word with
    | some sub => describe sub.completed (called ++ " " ++ sub.name) rest
    | none => .fault (.commandUnknown word) (usageBelow c called [])

/-- The command below that a word names, where it may name one. -/
def commandNamed? (c : Command) (p : Progress) (word : String) : Option Command :=
  if !p.placesOnly && p.expecting.isNothing then c.subcommand? word else none

/-- Reads the words of a completed command. -/
def readWords (c : Command) (called : String) (p : Progress) :
    List String → Except Stop Matches
  | [] => finish c called p []
  | word :: rest =>
    match commandNamed? c p word with
    | none => do readWords c called (← readWord c called p word) rest
    | some sub =>
      if sub.name == Command.helpCommand.name then .error (describe c called rest)
      else do
        let below ← readWords sub.completed (called ++ " " ++ sub.name) {} rest
        finish c called p below

/-- Reads the words that follow the name by which a command is called. -/
def Command.read (c : Command) (called : String) (words : List String) : Except Stop Matches :=
  readWords c.completed called {} words

end ResourceCli.CommandLine
