import ResourceCli.File.Disk
import ResourceCli.Run.Basic

/-!
# Surroundings made up of values

A `World` answers a run without any real system: it has a disk, and a server that gives the replies
of a list, one for each request, until none is left and it cannot be reached any more.  Playing a
run in a world gives the result and the world as it is then, with all that was printed, noted down
and sent.
-/

namespace ResourceCli

/-- Surroundings. -/
structure World where
  /-- The disk. -/
  disk : Disk := {}
  /-- What time it is. -/
  now : String := ""
  /-- The replies of the server that are left. -/
  replies : List Reply := []
  /-- What was printed as results. -/
  output : String := ""
  /-- What was said about the run. -/
  errors : String := ""
  /-- What was noted down, in order. -/
  notes : List Log.Event := []
  /-- What was sent, in order. -/
  sent : List Outgoing := []
  deriving Inhabited

namespace World

/-- The world after a change of its disk that may not work. -/
def change (w : World) (result : Except FileFault Disk) : Except FileFault Unit × World :=
  match result with
  | .ok disk => (.ok (), { w with disk := disk })
  | .error fault => (.error fault, w)

/-- The answer to a request. -/
def answer (w : World) (request : Outgoing) : Except SendFault Reply × World :=
  match w.replies with
  | [] => (.error (.unreachable request.url), w)
  | reply :: rest => (.ok reply, { w with replies := rest, sent := w.sent ++ [request] })

end World

/-- Plays a run in a world. -/
def Run.play {α : Type} (r : Run α) (w : World) : α × World :=
  match r with
  | done result => (result, w)
  | note event next => next.play { w with notes := w.notes ++ [event] }
  | print .output text next => next.play { w with output := w.output ++ text }
  | print .errors text next => next.play { w with errors := w.errors ++ text }
  | readText path next => (next (w.disk.readText path)).play w
  | readBytes path next => (next (w.disk.read path)).play w
  | write path text next =>
    let (result, w) := w.change (w.disk.write path (Text.utf8Encode text))
    (next result).play w
  | append path text next =>
    let (result, w) := w.change (w.disk.append path (Text.utf8Encode text))
    (next result).play w
  | makeDirectories path next =>
    let (result, w) := w.change (w.disk.makeDirectories path)
    (next result).play w
  | has path next => (next (w.disk.has path)).play w
  | time next => (next w.now).play w
  | send request next =>
    let (result, w) := w.answer request
    (next result).play w

/-- Plays a job in a world. -/
def Job.play {α : Type} (t : Job α) (w : World) : Except Report α × World :=
  Run.play t.run w

end ResourceCli
