import ResourceCli.Text.Quoted

/-!
# Log events

What a run notes down about itself, as values: how important it is, which part of the program
notes it, a message, and named data.  How an event looks as a line of a log is not decided here.
-/

namespace ResourceCli.Log

/-- How important an event is. -/
inductive Level
  /-- Something failed. -/
  | error
  /-- Something is wrong, but the run goes on. -/
  | warn
  /-- What the run did. -/
  | info
  /-- How the run did it. -/
  | debug
  /-- All details. -/
  | trace
  deriving DecidableEq, Repr, Inhabited

/-- The name of a level. -/
def Level.name : Level → String
  | error => "ERROR"
  | warn => "WARN"
  | info => "INFO"
  | debug => "DEBUG"
  | trace => "TRACE"

/-- The verbosity that a level needs: more important ones need less. -/
def Level.rank : Level → Nat
  | error => 1
  | warn => 2
  | info => 3
  | debug => 4
  | trace => 5

/-- The data of a field. -/
inductive Datum
  /-- A text, shown in quotes among others. -/
  | quoted (s : String)
  /-- A text shown as it is. -/
  | plain (s : String)
  /-- A count. -/
  | count (n : Nat)
  deriving DecidableEq, Repr, Inhabited

/-- The data as a bare text. -/
def Datum.text : Datum → String
  | quoted s => s
  | plain s => s
  | count n => toString n

/-- Something that is noted down. -/
structure Event where
  /-- How important it is. -/
  level : Level
  /-- The part of the program that notes it. -/
  target : String
  /-- What it says. -/
  message : String
  /-- Named data. -/
  fields : List (String × Datum) := []
  deriving DecidableEq, Repr, Inhabited

end ResourceCli.Log
