import ResourceCli.Failure.Report
import ResourceCli.Log.Event
import ResourceCli.Text.Utf8

/-!
# Runs

A run is what the program does, as data: it is done with a result, or it asks its surroundings for
something and goes on with the answer.  So all that the program decides is a pure function, and
who answers (a real system, or a disk and a server made for a proof or a test) is left open.

A run that may fail is a `Job`; its failure is a `Report`.
-/

namespace ResourceCli

open Text (Bytes)

/-- A request as it is handed to the client that sends it.  What the client adds on its own is not
part of it: it makes a header of the user and password of a URL, and headers of its own. -/
structure Outgoing where
  /-- The verb. -/
  verb : String
  /-- The whole address. -/
  url : String
  /-- The headers, in order. -/
  headers : List (String × Bytes) := []
  /-- What is sent along. -/
  body : Option Bytes := none
  deriving DecidableEq, Repr, Inhabited

/-- What a server answers. -/
structure Reply where
  /-- The status. -/
  status : Nat
  /-- How long the body is said to be. -/
  announced : Option Nat := none
  /-- The body; none if it breaks off. -/
  body : Option Bytes := some []
  /-- How many milliseconds the exchange took. -/
  duration : Nat := 0
  deriving DecidableEq, Repr, Inhabited

/-- Where text is printed. -/
inductive Stream
  /-- The results. -/
  | output
  /-- What is said about the run. -/
  | errors
  deriving DecidableEq, Repr

/-- A run with a result. -/
inductive Run (α : Type) : Type
  /-- Nothing is left to do. -/
  | done (result : α)
  /-- Notes something down. -/
  | note (event : Log.Event) (next : Run α)
  /-- Prints a text. -/
  | print (stream : Stream) (text : String) (next : Run α)
  /-- Reads a file that is a text. -/
  | readText (path : String) (next : Except FileFault String → Run α)
  /-- Reads a file. -/
  | readBytes (path : String) (next : Except FileFault Bytes → Run α)
  /-- Writes a text to a file. -/
  | write (path text : String) (next : Except FileFault Unit → Run α)
  /-- Writes a text at the end of a file, which is made if there is none. -/
  | append (path text : String) (next : Except FileFault Unit → Run α)
  /-- Makes a directory, with those that it lies in. -/
  | makeDirectories (path : String) (next : Except FileFault Unit → Run α)
  /-- Asks whether there is something at a path. -/
  | has (path : String) (next : Bool → Run α)
  /-- Asks what time it is, in words. -/
  | time (next : String → Run α)
  /-- Sends a request. -/
  | send (request : Outgoing) (next : Except SendFault Reply → Run α)

namespace Run

/-- One run after another one. -/
def bind {α β : Type} (r : Run α) (f : α → Run β) : Run β :=
  match r with
  | done result => f result
  | note event next => note event (next.bind f)
  | print stream text next => print stream text (next.bind f)
  | readText path next => readText path fun x => (next x).bind f
  | readBytes path next => readBytes path fun x => (next x).bind f
  | write path text next => write path text fun x => (next x).bind f
  | append path text next => append path text fun x => (next x).bind f
  | makeDirectories path next => makeDirectories path fun x => (next x).bind f
  | has path next => has path fun x => (next x).bind f
  | time next => time fun x => (next x).bind f
  | send request next => send request fun x => (next x).bind f

instance : Monad Run where
  pure := done
  bind := bind

@[simp] theorem pure_eq_done {α : Type} (a : α) : (pure a : Run α) = done a := rfl

@[simp] theorem bind_eq {α β : Type} (r : Run α) (f : α → Run β) : r >>= f = r.bind f := rfl

@[simp] theorem done_bind {α β : Type} (a : α) (f : α → Run β) : (done a).bind f = f a := rfl

@[simp] theorem bind_done {α : Type} (r : Run α) : r.bind done = r := by
  induction r with
  | done _ => rfl
  | note _ _ ih | print _ _ _ ih => rw [bind, ih]
  | readText _ _ ih | readBytes _ _ ih | write _ _ _ ih | append _ _ _ ih
  | makeDirectories _ _ ih | has _ _ ih | time _ ih | send _ _ ih => exact congrArg _ (funext ih)

@[simp] theorem bind_assoc {α β γ : Type} (r : Run α) (f : α → Run β) (g : β → Run γ) :
    (r.bind f).bind g = r.bind fun a => (f a).bind g := by
  induction r with
  | done _ => rfl
  | note _ _ ih | print _ _ _ ih => rw [bind, bind, bind, ih]
  | readText _ _ ih | readBytes _ _ ih | write _ _ _ ih | append _ _ _ ih
  | makeDirectories _ _ ih | has _ _ ih | time _ ih | send _ _ ih => exact congrArg _ (funext ih)

instance : LawfulMonad Run := LawfulMonad.mk' Run
  (fun r => bind_done r) (fun _ _ => rfl) (fun r f g => bind_assoc r f g)

end Run

/-- A run that may fail. -/
abbrev Job := ExceptT Report Run

namespace Job

/-- A job that fails. -/
def fail {α : Type} (failure : Failure) : Job α := throw { failure := failure }

/-- A job that goes on with a value, or fails. -/
def ofExcept {α : Type} : Except Failure α → Job α
  | .ok a => pure a
  | .error failure => fail failure

/-- A job that does what a run does. -/
def ofRun {α : Type} (r : Run α) : Job α := ExceptT.lift r

/-- Notes something down. -/
def note (event : Log.Event) : Job Unit := ofRun (.note event (.done ()))

/-- Notes several things down, in order. -/
def notes : List Log.Event → Job Unit
  | [] => pure ()
  | event :: rest => do
    note event
    notes rest

/-- Reads a file that is a text; `blame` says what it means if that does not work. -/
def readText (path : String) (blame : FileFault → Failure) : Job String := do
  match ← ofRun (.readText path .done) with
  | .ok text => return text
  | .error fault => fail (blame fault)

/-- Reads a file. -/
def readBytes (path : String) (blame : FileFault → Failure) : Job Bytes := do
  match ← ofRun (.readBytes path .done) with
  | .ok bytes => return bytes
  | .error fault => fail (blame fault)

/-- Writes a text to a file. -/
def write (path text : String) : Job Unit := do
  match ← ofRun (.write path text .done) with
  | .ok _ => return
  | .error fault => fail (.file fault)

/-- Makes a directory, with those that it lies in. -/
def makeDirectories (path : String) : Job Unit := do
  match ← ofRun (.makeDirectories path .done) with
  | .ok _ => return
  | .error fault => fail (.file fault)

/-- Whether there is something at a path. -/
def has (path : String) : Job Bool := ofRun (.has path .done)

end Job

end ResourceCli
