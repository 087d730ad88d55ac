import ResourceCli.Log.Filter
import ResourceCli.Log.Line
import ResourceCli.Run.Basic

/-!
# Runs with a log

What a run notes down becomes a log: `Run.logged` gives the run that does the same and, instead of
noting an event down, writes its line to the place of the log if the filter allows it.
-/

namespace ResourceCli

/-- How a log is written. -/
structure Logging where
  /-- Which events are logged. -/
  filter : Log.Filter := []
  /-- How a line looks. -/
  format : Log.Format := .text
  /-- The file of the log; without one, lines are printed as errors are. -/
  file : Option String := none

namespace Run

/-- Writes a line of a log. -/
def writeLine (l : Logging) (line : String) : Run Unit :=
  match l.file with
  | some path => .append path line fun _ => .done ()
  | none => .print .errors line (.done ())

/-- Writes an event to a log, if it is to be there. -/
def writeEvent (l : Logging) (e : Log.Event) : Run Unit :=
  if l.filter.allows e then
    match l.format with
    | .text => writeLine l e.textLine
    | .json => .time fun now => writeLine l (e.jsonLine now)
  else .done ()

/-- A run with a log. -/
def logged {α : Type} (l : Logging) : Run α → Run α
  | done result => done result
  | note event next => (writeEvent l event).bind fun _ => next.logged l
  | print stream text next => print stream text (next.logged l)
  | readText path next => readText path fun x => (next x).logged l
  | readBytes path next => readBytes path fun x => (next x).logged l
  | write path text next => write path text fun x => (next x).logged l
  | append path text next => append path text fun x => (next x).logged l
  | makeDirectories path next => makeDirectories path fun x => (next x).logged l
  | has path next => has path fun x => (next x).logged l
  | time next => time fun x => (next x).logged l
  | send request next => send request fun x => (next x).logged l

end Run

end ResourceCli
