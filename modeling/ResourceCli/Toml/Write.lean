import ResourceCli.Text.Hex
import ResourceCli.Text.Split
import ResourceCli.Toml.Basic

/-!
# Writing TOML

How keys and texts are written: as plainly as they can be.  A key goes without quotes if it may,
and a text is put between the quotes that spare it most escapes (`textForm`).
-/

namespace ResourceCli.Toml

/-- How a text is written. -/
inductive TextForm
  /-- Between double quotes. -/
  | quoted
  /-- Between single quotes, without escapes. -/
  | literal
  /-- Between threefold double quotes. -/
  | quotedLines
  /-- Between threefold single quotes, without escapes. -/
  | literalLines
  deriving DecidableEq, Repr

namespace TextForm

/-- The quotes of a form. -/
def quotes : TextForm → String
  | quoted => "\""
  | literal => "'"
  | quotedLines => "\"\"\""
  | literalLines => "'''"

/-- Whether a form goes over several lines. -/
def isOverLines : TextForm → Bool
  | quoted => false
  | literal => false
  | quotedLines => true
  | literalLines => true

/-- Whether a form has escapes. -/
def hasEscapes : TextForm → Bool
  | quoted => true
  | literal => false
  | quotedLines => true
  | literalLines => false

end TextForm

/-- The length of the longest run of a character; `run` is the length of the one that just
ended. -/
def longestRun (c : Char) (run : Nat) : List Char → Nat
  | [] => run
  | d :: rest => if d == c then longestRun c (run + 1) rest else max run (longestRun c 0 rest)

/-- Whether a character can only be written as an escape. -/
def needsCode (c : Char) : Bool :=
  c != '\t' && c != '\n' && (c.toNat < 0x20 || c.toNat == 0x7F)

/-- How a text is written: in the first form that needs no escape, the simpler ones first, and
between double quotes if there is none. -/
def textForm (cs : List Char) : TextForm :=
  let doubles := longestRun '"' 0 cs
  let singles := longestRun '\'' 0 cs
  let coded := cs.any needsCode
  let spread := cs.contains '\n'
  let slash := cs.contains '\\'
  if !coded && !slash && doubles == 0 && !spread then .quoted
  else if !coded && singles == 0 && !spread then .literal
  else if !coded && !slash && doubles ≤ 2 then .quotedLines
  else if !coded && singles ≤ 2 then .literalLines
  else if spread then .quotedLines
  else .quoted

/-- The escape of a character by its code. -/
def codeEscape (c : Char) : List Char :=
  ['\\', 'u', '0', '0', Text.upperHexDigit (c.toNat / 16), Text.upperHexDigit (c.toNat % 16)]

/-- The escapes with a letter. -/
def letterEscapes : List (Char × Char) :=
  [('\x08', 'b'), ('\t', 't'), ('\x0c', 'f'), ('\x0d', 'r'), ('\\', '\\')]

/-- The characters of a text between double quotes; `run` double quotes may follow one another, and
`left` may still do so here. -/
def escaped (overLines : Bool) (run left : Nat) : List Char → List Char
  | [] => []
  | c :: rest =>
    if c == '"' then
      match left with
      | 0 => '\\' :: '"' :: escaped overLines run run rest
      | left + 1 => '"' :: escaped overLines run left rest
    else
      (match letterEscapes.lookup c with
        | some letter => ['\\', letter]
        | none =>
          if c == '\n' then if overLines then ['\n'] else ['\\', 'n']
          else if needsCode c then codeEscape c
          else [c]) ++ escaped overLines run run rest

/-- A text in a form. -/
def textIn (form : TextForm) (cs : List Char) : String :=
  let body :=
    if form.hasEscapes then
      let run := if form.isOverLines then 2 else 0
      escaped form.isOverLines run run cs
    else cs
  form.quotes ++ (if form.isOverLines && cs.contains '\n' then "\n" else "") ++
    String.ofList body ++ form.quotes

/-- A text as it is written. -/
def textText (s : String) : String := textIn (textForm s.toList) s.toList

/-- A key as it is written. -/
def keyText (key : String) : String :=
  let cs := key.toList
  let coded := cs.any fun c => c == '\n' || needsCode c
  if !cs.isEmpty && cs.all isKeyChar then key
  else if !coded && !cs.contains '"' && !cs.contains '\\' then textIn .quoted cs
  else if !coded && !cs.contains '\'' then textIn .literal cs
  else textIn .quoted cs

/-- A list of texts as it is written: one of several items goes over several lines. -/
def textsText (items : List String) : String :=
  match items with
  | [] => "[]"
  | [item] => "[" ++ textText item ++ "]"
  | _ => "[\n" ++ String.join (items.map fun item => "    " ++ textText item ++ ",\n") ++ "]"

/-- A header as it is written. -/
def headerText (path : List String) : String := "[" ++ Text.join "." (path.map keyText) ++ "]\n"

/-- A line with a key and what is written for its value. -/
def entryText (key written : String) : String := keyText key ++ " = " ++ written ++ "\n"

end ResourceCli.Toml
