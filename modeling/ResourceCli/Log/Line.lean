import ResourceCli.Json.Basic
import ResourceCli.Log.Event
import ResourceCli.Text.Split

/-!
# Lines of a log

How an event looks as a line: as text for people, or as a JSON object for programs.  In text, what
could make a terminal do more than show characters is written out.
-/

namespace ResourceCli.Log

/-- The formats of a log. -/
inductive Format
  /-- Text. -/
  | text
  /-- JSON objects. -/
  | json
  deriving DecidableEq, Repr

/-- A character as it may be shown on a terminal. -/
def shownChar (c : Char) : List Char :=
  let n := c.toNat
  if n < 0x10 && [0x07, 0x08, 0x0c].contains n then '\\' :: 'x' :: '0' :: Text.hexDigits n
  else if n == 0x1b || n == 0x7f then '\\' :: 'x' :: Text.hexDigits n
  else if 0x80 ≤ n && n ≤ 0x9f then '\\' :: 'u' :: '{' :: (Text.hexDigits n ++ ['}'])
  else [c]

/-- A text as it may be shown on a terminal. -/
def shownText (s : String) : String := String.ofList (s.toList.flatMap shownChar)

/-- The data of a field in a line of text. -/
def Datum.shown : Datum → String
  | quoted s => Text.quoted s
  | plain s => s
  | count n => toString n

/-- The data of a field as JSON. -/
def Datum.toJson : Datum → Json
  | quoted s => .str s
  | plain s => .str s
  | count n => .num (.int n)

namespace Event

/-- An event as a line of text. -/
def textLine (e : Event) : String :=
  "".pushn ' ' (5 - e.level.name.length) ++ e.level.name ++ " " ++ shownText e.message ++
    String.join (e.fields.map fun (name, d) => " " ++ name ++ "=" ++ d.shown) ++ "\n"

/-- An event as a JSON object. -/
def toJson (time : String) (e : Event) : Json :=
  .obj [("timestamp", .str time), ("level", .str e.level.name),
    ("fields", .obj (("message", .str e.message) ::
      e.fields.map fun (name, d) => (name, d.toJson))),
    ("target", .str e.target)]

/-- An event as a line of JSON. -/
def jsonLine (time : String) (e : Event) : String := (e.toJson time).compact ++ "\n"

end Event

end ResourceCli.Log
