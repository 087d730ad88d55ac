import ResourceCli.CommandLine.Usage
import ResourceCli.Text.Blank
import ResourceCli.Text.Printable

/-!
# The description of a command

A description says what a command does, how it is used, and what its commands and arguments are.
The short one has an entry a line, with the explanations in a column; the full one has the
explanations on lines of their own.  An explanation that would not fit beside a wide column moves
all explanations of its list to lines of their own.
-/

namespace ResourceCli.CommandLine

/-- The number of columns for which descriptions are laid out. -/
def screenWidth : Nat := 100

/-- How wide a text is; a control character hides what follows it, up to an `m`. -/
def widthFrom (hidden : Bool) : List Char → Nat
  | [] => 0
  | c :: cs =>
    if c.toNat < 0x20 || c.toNat == 0x7F then widthFrom true cs
    else if hidden then widthFrom (c != 'm') cs
    else widthFrom false cs + 1

/-- How wide a text is. -/
def width (s : String) : Nat := widthFrom false s.toList

/-- Blanks. -/
def blanks (n : Nat) : String := "".pushn ' ' n

/-- The characters with the mark for a line break replaced by one. -/
def breakLines : List Char → List Char
  | '{' :: 'n' :: '}' :: cs => '\n' :: breakLines cs
  | c :: cs => c :: breakLines cs
  | [] => []

/-- An explanation whose further lines are indented. -/
def indented (column : Nat) (text : String) : String :=
  String.ofList (text.toList.flatMap fun c =>
    if c == '\n' then '\n' :: (blanks column).toList else [c])

/-- A text with its marks for line breaks replaced. -/
def withBreaks (text : String) : String := String.ofList (breakLines text.toList)

/-- A default as it is shown: in quotes if it is empty or has blanks. -/
def shownDefault (value : String) : String :=
  if value == "" || value.toList.any Text.isBlank then "\"" ++ value ++ "\"" else value

/-- What is said about the values of an argument. -/
def valueNotes (a : Arg) : List String :=
  if !a.takesValue then []
  else
    (match a.default with
      | some value => ["[default: " ++ shownDefault value ++ "]"]
      | none => []) ++
    (if a.choices.isEmpty then []
    else ["[possible values: " ++ Text.join ", " a.choices ++ "]"])

/-- Whether an explanation moves to a line of its own: if its column takes much of the screen and
the rest is too narrow. -/
def tooWide (longest explanation : Nat) : Bool :=
  let taken := longest + 12
  taken ≤ screenWidth && 2 * screenWidth < 5 * taken && screenWidth - taken < explanation

/-- An entry of a list: what it is about, the explanation, and what is said about values. -/
structure Entry where
  /-- What it is about. -/
  label : String
  /-- How wide that is. -/
  labelWidth : Nat
  /-- The explanation. -/
  text : String
  /-- What is said about values. -/
  notes : List String := []

/-- How wide the explanation of an entry is. -/
def Entry.textWidth (e : Entry) : Nat :=
  width e.text + width (Text.join " " e.notes)

/-- Explanation and notes; in a full description the notes are a paragraph of their own. -/
def Entry.explanation (long : Bool) (e : Entry) : String :=
  let text := withBreaks e.text
  if e.notes.isEmpty then text
  else
    text ++ (if text == "" then "" else if long then "\n\n" else " ") ++
      Text.join (if long then "\n" else " ") e.notes

/-- The lines of an entry; `column` is the width of the column of labels. -/
def Entry.lines (long ownLines : Bool) (column : Nat) (e : Entry) : String :=
  if ownLines then
    "  " ++ e.label ++ "\n" ++ blanks 10 ++ indented 10 (e.explanation long)
  else
    "  " ++ e.label ++ blanks (column - e.labelWidth + 2) ++
      indented (column + 4) (e.explanation long)

/-- A list of entries under a title. -/
def titled (title : String) (long : Bool) (column : Nat) (wideColumn : Nat)
    (entries : List Entry) : List String :=
  if entries.isEmpty then []
  else
    let ownLines := long || entries.any fun e => tooWide wideColumn e.textWidth
    [title ++ ":\n" ++
      Text.join (if ownLines && long then "\n\n" else "\n")
        (entries.map (Entry.lines long ownLines column))]

/-- What an argument is, in words. -/
def argText (long : Bool) (a : Arg) : String :=
  if long then a.longHelp.getD a.help else a.help

/-- The entry of an argument that stands at a place. -/
def placeEntry (long : Bool) (a : Arg) : Entry :=
  ⟨a.shown, width a.shown, argText long a, valueNotes a⟩

/-- The entry of an argument with a name; those without a letter leave its room. -/
def optionEntry (long : Bool) (a : Arg) : Entry :=
  let lead := match a.short, a.long with
    | some letter, some _ => "-" ++ String.singleton letter ++ ", "
    | _, some _ => "    "
    | _, none => ""
  ⟨lead ++ a.shown, width a.shown + 4, argText long a, valueNotes a⟩

/-- The key by which arguments of equal place are sorted: the letter, a small one before the
capital one, or else the name. -/
def optionKey (a : Arg) : String :=
  match a.short, a.long with
  | some letter, _ =>
    String.singleton letter.toLower ++ if letter.isLower then "0" else "1"
  | none, some name => name
  | none, none => "\x7b" ++ a.id

/-- Whether an argument stands before another one in a description. -/
def optionBefore (a b : Arg) : Bool :=
  a.order < b.order || (a.order == b.order && !(optionKey b < optionKey a))

/-- The entry of a command. -/
def commandEntry (c : Command) : Entry := ⟨c.name, width c.name, c.about, []⟩

/-- The width of a column of labels. -/
def columnWidth (labels : List Nat) : Nat := labels.foldl max 2

/-- The commands below a command. -/
def commandSection (c : Command) : List String :=
  let entries := c.subcommands.map commandEntry
  let column := columnWidth (entries.map Entry.labelWidth)
  titled "Commands" false column column entries

/-- The arguments that stand at places. -/
def placeSection (long : Bool) (c : Command) : List String :=
  let entries := c.positionals.map (placeEntry long)
  let column := columnWidth (entries.map Entry.labelWidth)
  titled "Arguments" long column column entries

/-- The arguments that have a name. -/
def optionSection (long : Bool) (c : Command) : List String :=
  let entries := (c.options.mergeSort optionBefore).map (optionEntry long)
  let column := columnWidth ((c.options.map fun a => width a.shown))
  titled "Options" long (column + 4) column entries

/-- The text without an empty first line and without blanks at its end. -/
def tidied (text : String) : String :=
  let cs := text.toList
  let cs := match Text.cutFirst '\n' cs with
    | some (first, rest) => if first.all Text.isBlank then rest else cs
    | none => cs
  String.ofList (Text.dropBlankEnd cs)

/-- The description of a command that is called by a name; in full if asked for and if there is
more to say. -/
def helpText (called : String) (c : Command) (long : Bool) : String :=
  let long := long && c.hasLongHelp
  let about := if long then c.longAbout.getD c.about else c.about
  let sections := commandSection c ++ placeSection long c ++ optionSection long c
  let opening := if about == "" then "" else withBreaks about ++ "\n"
  Text.printable <|
    tidied (opening ++ "\n" ++ usage called c [] ++ "\n\n" ++ Text.join "\n\n" sections) ++ "\n"

end ResourceCli.CommandLine
